import PipelineLang.Text.Table

/-!
# The cache of analyses

The cache keeps one version of a document each. A hit renews the time of last access; a miss
builds, replaces the entry and then evicts: if there are too many entries, those that have not
been used for too long go first, then the ones used longest ago. A failed build changes nothing
but the count of builds. Time is passed in, so every operation is a function.
-/

namespace PipelineLang.Server

/-- The version of a document that is cached. -/
structure CacheEntry (α : Type) where
  version : Int
  value : α
  /-- When the entry was last built or hit. -/
  lastAccess : Nat

/-- The bounds of a cache; ages are counted in the unit of its clock. -/
structure CacheLimits where
  maxEntries : Nat
  maxAge : Nat
  deriving DecidableEq

structure Cache (α : Type) where
  limits : CacheLimits
  entries : Table (CacheEntry α)
  /-- How many builds there were, failed ones included. -/
  builds : Nat

/-- A build that failed, with what is still cached of the document. -/
structure BuildFailure (α : Type) where
  id : String
  version : Int
  previous : Option α

def BuildFailure.message {α : Type} (f : BuildFailure α) : String :=
  "analysis of " ++ f.id ++ " (version " ++ toString f.version ++ ") panicked"

namespace Cache

variable {α : Type}

def empty (limits : CacheLimits) : Cache α := ⟨limits, .empty, 0⟩

def size (c : Cache α) : Nat := c.entries.size

/-- The version of the document that is cached. -/
def versionOf? (c : Cache α) (id : String) : Option Int := (c.entries.find? id).map (·.version)

/-- Whether the first entry goes before the second when entries have to go. -/
def goesBefore (a b : String × CacheEntry α) : Bool :=
  a.2.lastAccess < b.2.lastAccess || (a.2.lastAccess == b.2.lastAccess && a.1 < b.1)

/-- The entry that goes first. -/
def oldest? : List (String × CacheEntry α) → Option (String × CacheEntry α)
  | [] => none
  | e :: rest =>
    match oldest? rest with
    | none => some e
    | some f => if goesBefore f e then some f else some e

/-- The entries without the `n` that go first. -/
def dropOldest : Nat → Table (CacheEntry α) → Table (CacheEntry α)
  | 0, t => t
  | n + 1, t =>
    match oldest? t.entries with
    | none => t
    | some (id, _) => dropOldest n (t.erase id)

/-- The entries that stay when there must not be more than the limit. -/
def evict (limits : CacheLimits) (now : Nat) (t : Table (CacheEntry α)) : Table (CacheEntry α) :=
  if t.size ≤ limits.maxEntries then t
  else
    let recent := t.filter fun e => now - e.lastAccess ≤ limits.maxAge
    dropOldest (recent.size - limits.maxEntries) recent

/-- The entry of the document, if it is of that version. -/
def hit? (c : Cache α) (id : String) (version : Int) : Option (CacheEntry α) :=
  (c.entries.find? id).filter (·.version == version)

/-- The value of a version of a document, built from its text where it is not cached. -/
def get (c : Cache α) (build : List Char → Option α) (now : Nat) (id : String) (version : Int)
    (text : List Char) : Cache α × Except (BuildFailure α) α :=
  match c.hit? id version with
  | some e => ({ c with entries := c.entries.insert id { e with lastAccess := now } }, .ok e.value)
  | none =>
    match build text with
    | none =>
      ({ c with builds := c.builds + 1 },
        .error ⟨id, version, (c.entries.find? id).map (·.value)⟩)
    | some a =>
      let entries := evict c.limits now (c.entries.insert id ⟨version, a, now⟩)
      ({ c with entries, builds := c.builds + 1 }, .ok a)

/-- The cache without the document. -/
def invalidate (c : Cache α) (id : String) : Cache α := { c with entries := c.entries.erase id }

/-- The cache without any document. -/
def clear (c : Cache α) : Cache α := { c with entries := .empty }

end Cache
end PipelineLang.Server
