import PipelineLang.Proofs.Server.Cacheless

/-!
# What a cache holds after a run

A cache is asked for documents, told that one of them has changed behind its back, or emptied. What
it did each time is an event, and the events of a run are its history. After any run, at any times
of its clock, the history explains the cache (`explained_run`): it is within its limit, it has built
once for each lookup that was no hit, and what is cached of a document is the value built from the
text of the last build that succeeded, with no invalidation since, and was last accessed when the
document was last looked up with success.

The invariant is `Explained`. A step of it needs from eviction only that it drops entries and goes
on until few enough are left (`find?_evict`, `size_evict_le`); which of them it drops is not seen.
-/

namespace PipelineLang.Server

/-! ## Histories -/

/-- What is asked of a cache. -/
inductive CacheOp where
  | get (now : Nat) (id : String) (version : Int) (text : List Char)
  | invalidate (id : String)
  | clear

/-- What a cache did when it was asked. -/
inductive CacheEvent where
  | hit (now : Nat) (id : String) (version : Int)
  | built (now : Nat) (id : String) (version : Int) (text : List Char)
  | failed (now : Nat) (id : String) (version : Int) (text : List Char)
  | invalidated (id : String)
  | cleared

namespace CacheEvent

/-- Whether the document was looked up and not found at the version. -/
def isMiss : CacheEvent → Bool
  | .built .. | .failed .. => true
  | _ => false

/-- When the document was looked up, if the lookup gave a value. -/
def readAt? (id : String) : CacheEvent → Option Nat
  | .hit now other _ | .built now other _ _ => if other = id then some now else none
  | _ => none

/-- What was cached of the document before does not stay. -/
def Renews (id : String) : CacheEvent → Prop
  | .built _ other _ _ | .invalidated other => other = id
  | .cleared => True
  | _ => False

end CacheEvent

/-- The last event of its kind in a history. -/
def IsLast (kind : CacheEvent → Prop) (history : List CacheEvent) (x : CacheEvent) : Prop :=
  ∃ earlier later, history = earlier ++ x :: later ∧ kind x ∧ ∀ y ∈ later, ¬kind y

theorem isLast_append_self {kind : CacheEvent → Prop} {x : CacheEvent} (hx : kind x)
    (history : List CacheEvent) : IsLast kind (history ++ [x]) x :=
  ⟨history, [], rfl, hx, fun _ hy => absurd hy List.not_mem_nil⟩

theorem IsLast.append {kind : CacheEvent → Prop} {history : List CacheEvent} {x y : CacheEvent}
    (h : IsLast kind history x) (hy : ¬kind y) : IsLast kind (history ++ [y]) x := by
  obtain ⟨earlier, later, rfl, hx, hlater⟩ := h
  refine ⟨earlier, later ++ [y], by simp, hx, fun z hz => ?_⟩
  rcases List.mem_append.1 hz with hz | hz
  · exact hlater z hz
  · exact List.mem_singleton.1 hz ▸ hy

namespace Cache

variable {α : Type}

/-- The cache after an operation. -/
def apply (build : List Char → Option α) (c : Cache α) : CacheOp → Cache α
  | .get now id version text => (c.get build now id version text).1
  | .invalidate id => c.invalidate id
  | .clear => c.clear

/-- What a cache does at an operation. -/
def event (build : List Char → Option α) (c : Cache α) : CacheOp → CacheEvent
  | .get now id version text =>
    if c.versionOf? id = some version then .hit now id version
    else if (build text).isSome then .built now id version text
    else .failed now id version text
  | .invalidate id => .invalidated id
  | .clear => .cleared

/-- The cache after operations one after another. -/
def run (build : List Char → Option α) (c : Cache α) (ops : List CacheOp) : Cache α :=
  ops.foldl (apply build) c

/-- What a cache does at operations one after another. -/
def history (build : List Char → Option α) (c : Cache α) : List CacheOp → List CacheEvent
  | [] => []
  | op :: rest => c.event build op :: (c.apply build op).history build rest

/-! ## Eviction -/

theorem oldest?_eq_none {entries : List (String × CacheEntry α)} :
    oldest? entries = none ↔ entries = [] := by
  cases entries with
  | nil => exact ⟨fun _ => rfl, fun _ => rfl⟩
  | cons e rest =>
    refine ⟨fun h => ?_, fun h => by cases h⟩
    rw [oldest?] at h
    split at h
    · cases h
    · split at h
      · cases h
      · cases h

theorem mem_of_oldest? {entries : List (String × CacheEntry α)} {e : String × CacheEntry α}
    (h : oldest? entries = some e) : e ∈ entries := by
  induction entries generalizing e with
  | nil => cases h
  | cons d rest ih =>
    rw [oldest?] at h
    split at h
    · cases h
      exact List.mem_cons_self
    · next f hf =>
      split at h
      · cases h
        exact List.mem_cons_of_mem _ (ih hf)
      · cases h
        exact List.mem_cons_self

theorem size_dropOldest_le (n : Nat) (t : Table (CacheEntry α)) :
    (dropOldest n t).size ≤ t.size - n := by
  induction n generalizing t with
  | zero => exact le_refl _
  | succ n ih =>
    rw [dropOldest]
    split
    · next hnone =>
      have hnil : t.size = 0 := by rw [Table.size, oldest?_eq_none.1 hnone, List.length_nil]
      omega
    · next id e hsome =>
      have hrest : (dropOldest n (t.erase id)).size ≤ (t.erase id).size - n := ih (t.erase id)
      have hlt : (t.erase id).size < t.size := Table.size_erase_lt (mem_of_oldest? hsome)
      omega

theorem sorted_dropOldest {t : Table (CacheEntry α)} (h : t.Sorted) (n : Nat) :
    (dropOldest n t).Sorted := by
  induction n generalizing t with
  | zero => exact h
  | succ n ih =>
    rw [dropOldest]
    split
    · exact h
    · exact ih (h.erase _)

variable {limits : CacheLimits} {t : Table (CacheEntry α)}

theorem size_evict_le (limits : CacheLimits) (now : Nat) (t : Table (CacheEntry α)) :
    (evict limits now t).size ≤ limits.maxEntries := by
  simp only [evict]
  split
  · assumption
  · have hdrop := size_dropOldest_le
      ((t.filter fun e => now - e.lastAccess ≤ limits.maxAge).size - limits.maxEntries)
      (t.filter fun e => now - e.lastAccess ≤ limits.maxAge)
    omega

theorem sorted_evict (h : t.Sorted) (limits : CacheLimits) (now : Nat) :
    (evict limits now t).Sorted := by
  simp only [evict]
  split
  · exact h
  · exact sorted_dropOldest (h.filter _) _

/-- What eviction leaves of a document is what was cached of it. -/
theorem find?_evict (h : t.Sorted) {now : Nat} {id : String} {e : CacheEntry α}
    (he : (evict limits now t).find? id = some e) : t.find? id = some e :=
  h.find?_of_mem (mem_evict (Table.mem_of_find? he))

/-! ## Lookups -/

section Lookups

variable {c : Cache α} {build : List Char → Option α} {id : String} {version : Int}
  {e : CacheEntry α}

theorem versionOf?_eq_some :
    c.versionOf? id = some version ↔ ∃ e, c.entries.find? id = some e ∧ e.version = version :=
  Option.map_eq_some_iff

theorem hit?_eq_some :
    c.hit? id version = some e ↔ c.entries.find? id = some e ∧ e.version = version := by
  rw [hit?, Option.filter_eq_some_iff, beq_iff_eq]

theorem hit?_eq_none : c.hit? id version = none ↔ c.versionOf? id ≠ some version := by
  rw [Ne, versionOf?_eq_some, Option.eq_none_iff_forall_ne_some]
  simp only [ne_eq, hit?_eq_some, not_exists]

/-- A version that is cached is found, whatever the builder would make of the text. -/
theorem get_of_cached (hfind : c.entries.find? id = some e) (build : List Char → Option α)
    (now : Nat) (text : List Char) :
    c.get build now id e.version text
      = ({ c with entries := c.entries.insert id { e with lastAccess := now } }, .ok e.value) := by
  rw [get, hit?_eq_some.2 ⟨hfind, rfl⟩]

/-- A build that fails changes nothing but the count of builds. -/
theorem get_of_failed (hmiss : c.versionOf? id ≠ some version) {text : List Char}
    (hbuild : build text = none) (now : Nat) :
    c.get build now id version text
      = ({ c with builds := c.builds + 1 },
          .error ⟨id, version, (c.entries.find? id).map (·.value)⟩) := by
  rw [get, hit?_eq_none.2 hmiss]
  simp only [hbuild]

theorem get_of_built (hmiss : c.versionOf? id ≠ some version) {text : List Char} {a : α}
    (hbuild : build text = some a) (now : Nat) :
    c.get build now id version text
      = ({ c with entries := evict c.limits now (c.entries.insert id ⟨version, a, now⟩),
                  builds := c.builds + 1 }, .ok a) := by
  rw [get, hit?_eq_none.2 hmiss]
  simp only [hbuild]

end Lookups

/-! ## What the history says of an entry -/

/-- The last build of the document, with no invalidation since, made the entry, and the last lookup
of the document that gave a value accessed it. -/
structure Standing (build : List Char → Option α) (history : List CacheEvent) (id : String)
    (e : CacheEntry α) : Prop where
  built : ∃ now text, IsLast (·.Renews id) history (.built now id e.version text) ∧
    build text = some e.value
  read : (history.filterMap (·.readAt? id)).getLast? = some e.lastAccess

namespace Standing

variable {build : List Char → Option α} {past : List CacheEvent} {id : String} {e : CacheEntry α}

/-- An event about something else leaves an entry standing. -/
theorem append (h : Standing build past id e) {x : CacheEvent} (hkeeps : ¬x.Renews id)
    (hread : x.readAt? id = none) : Standing build (past ++ [x]) id e where
  built := by
    obtain ⟨now, text, hlast, hbuild⟩ := h.built
    exact ⟨now, text, hlast.append hkeeps, hbuild⟩
  read := by
    rw [List.filterMap_append, List.filterMap_cons_none hread, List.filterMap_nil, List.append_nil]
    exact h.read

theorem getLast?_readAt?_append {x : CacheEvent} {now : Nat} (hread : x.readAt? id = some now) :
    ((past ++ [x]).filterMap (·.readAt? id)).getLast? = some now := by
  rw [List.filterMap_append, List.filterMap_cons_some hread, List.filterMap_nil,
    List.getLast?_concat]

theorem of_hit (h : Standing build past id e) (now : Nat) (version : Int) :
    Standing build (past ++ [.hit now id version]) id { e with lastAccess := now } where
  built := by
    obtain ⟨before, text, hlast, hbuild⟩ := h.built
    exact ⟨before, text, hlast.append not_false, hbuild⟩
  read := getLast?_readAt?_append (if_pos rfl)

theorem of_built {text : List Char} {a : α} (hbuild : build text = some a)
    (past : List CacheEvent) (now : Nat) (id : String) (version : Int) :
    Standing build (past ++ [.built now id version text]) id ⟨version, a, now⟩ where
  built := ⟨now, text, isLast_append_self
    (show CacheEvent.Renews id (.built now id version text) from rfl) past, hbuild⟩
  read := getLast?_readAt?_append (if_pos rfl)

end Standing

/-! ## Runs -/

/-- The history of a cache explains what it holds and how often it has built. -/
structure Explained (build : List Char → Option α) (limits : CacheLimits)
    (history : List CacheEvent) (c : Cache α) : Prop where
  limited : c.limits = limits
  sorted : c.entries.Sorted
  size_le : c.size ≤ limits.maxEntries
  builds_eq : c.builds = history.countP (·.isMiss)
  standing : ∀ id e, c.entries.find? id = some e → Standing build history id e

namespace Explained

variable {build : List Char → Option α} {past : List CacheEvent} {c : Cache α}

theorem empty (build : List Char → Option α) (limits : CacheLimits) :
    Explained build limits [] (Cache.empty limits) where
  limited := rfl
  sorted := List.Pairwise.nil
  size_le := Nat.zero_le _
  builds_eq := rfl
  standing _ _ h := by cases h

theorem countP_append_miss {x : CacheEvent} (hx : x.isMiss = true) (past : List CacheEvent) :
    (past ++ [x]).countP (·.isMiss) = past.countP (·.isMiss) + 1 := by
  rw [List.countP_append, List.countP_singleton, if_pos hx]

theorem countP_append_other {x : CacheEvent} (hx : x.isMiss = false) (past : List CacheEvent) :
    (past ++ [x]).countP (·.isMiss) = past.countP (·.isMiss) := by
  rw [List.countP_append, List.countP_singleton, if_neg (by rw [hx]; exact Bool.false_ne_true),
    Nat.add_zero]

theorem hit (h : Explained build limits past c) {id : String} {e : CacheEntry α}
    (hfind : c.entries.find? id = some e) (now : Nat) :
    Explained build limits (past ++ [.hit now id e.version])
      { c with entries := c.entries.insert id { e with lastAccess := now } } where
  limited := h.limited
  sorted := h.sorted.insert _ _
  size_le := (h.sorted.size_insert hfind _).trans_le h.size_le
  builds_eq := h.builds_eq.trans (countP_append_other rfl past).symm
  standing other d hd := by
    rw [Table.find?_insert] at hd
    by_cases hid : id = other
    · rw [if_pos hid] at hd
      cases hd
      subst hid
      exact (h.standing id e hfind).of_hit now e.version
    · rw [if_neg hid] at hd
      exact (h.standing other d hd).append not_false (if_neg hid)

theorem failed (h : Explained build limits past c) (now : Nat) (id : String) (version : Int)
    (text : List Char) :
    Explained build limits (past ++ [.failed now id version text])
      { c with builds := c.builds + 1 } where
  limited := h.limited
  sorted := h.sorted
  size_le := h.size_le
  builds_eq := (congrArg (· + 1) h.builds_eq).trans (countP_append_miss rfl past).symm
  standing other d hd := (h.standing other d hd).append not_false rfl

theorem built (h : Explained build limits past c) {text : List Char} {a : α}
    (hbuild : build text = some a) (now : Nat) (id : String) (version : Int) :
    Explained build limits (past ++ [.built now id version text])
      { c with entries := evict c.limits now (c.entries.insert id ⟨version, a, now⟩),
               builds := c.builds + 1 } where
  limited := h.limited
  sorted := sorted_evict (h.sorted.insert _ _) _ _
  size_le := (size_evict_le _ _ _).trans_eq (congrArg CacheLimits.maxEntries h.limited)
  builds_eq := (congrArg (· + 1) h.builds_eq).trans (countP_append_miss rfl past).symm
  standing other d hd := by
    have hd := find?_evict (h.sorted.insert _ _) hd
    rw [Table.find?_insert] at hd
    by_cases hid : id = other
    · rw [if_pos hid] at hd
      cases hd
      subst hid
      exact Standing.of_built hbuild past now id version
    · rw [if_neg hid] at hd
      exact (h.standing other d hd).append hid (if_neg hid)

theorem invalidate (h : Explained build limits past c) (id : String) :
    Explained build limits (past ++ [.invalidated id]) (c.invalidate id) where
  limited := h.limited
  sorted := h.sorted.erase id
  size_le := (List.length_filter_le _ _).trans h.size_le
  builds_eq := h.builds_eq.trans (countP_append_other rfl past).symm
  standing other d hd := by
    rw [Cache.invalidate, Table.find?_erase] at hd
    by_cases hid : id = other
    · rw [if_pos hid] at hd
      cases hd
    · rw [if_neg hid] at hd
      exact (h.standing other d hd).append hid rfl

theorem clear (h : Explained build limits past c) :
    Explained build limits (past ++ [.cleared]) c.clear where
  limited := h.limited
  sorted := List.Pairwise.nil
  size_le := Nat.zero_le _
  builds_eq := h.builds_eq.trans (countP_append_other rfl past).symm
  standing _ _ hd := by cases hd

/-- **One operation.** What a cache does explains what it holds afterwards. -/
theorem apply (h : Explained build limits past c) (op : CacheOp) :
    Explained build limits (past ++ [c.event build op]) (c.apply build op) := by
  cases op with
  | invalidate id => exact h.invalidate id
  | clear => exact h.clear
  | get now id version text =>
    rw [event, Cache.apply]
    by_cases hhit : c.versionOf? id = some version
    · obtain ⟨e, hfind, rfl⟩ := versionOf?_eq_some.1 hhit
      rw [if_pos hhit, get_of_cached hfind build now text]
      exact h.hit hfind now
    · rw [if_neg hhit]
      cases hbuild : build text with
      | none =>
        rw [get_of_failed hhit hbuild now]
        exact h.failed now id version text
      | some a =>
        rw [get_of_built hhit hbuild now]
        exact h.built hbuild now id version

theorem run (h : Explained build limits past c) (ops : List CacheOp) :
    Explained build limits (past ++ c.history build ops) (c.run build ops) := by
  induction ops generalizing past c with
  | nil =>
    rw [history, List.append_nil]
    exact h
  | cons op rest ih =>
    rw [history, ← List.singleton_append, ← List.append_assoc]
    exact ih (h.apply op)

end Explained

/-- **A cache and its history.** After any operations on an empty cache of any limits, with any
builder, the history explains the cache; a version that is cached is found without building; and a
lookup whose build fails changes no entry and tells what was cached of the document. -/
theorem explained_run (build : List Char → Option α) (limits : CacheLimits) (ops : List CacheOp) :
    Explained build limits ((empty limits).history build ops) ((empty limits).run build ops) ∧
      (∀ id e, (id, e) ∈ ((empty limits).run build ops).entries.entries →
        ∀ anew now text,
          (((empty limits).run build ops).get anew now id e.version text).2 = .ok e.value ∧
          (((empty limits).run build ops).get anew now id e.version text).1.builds
            = ((empty limits).run build ops).builds) ∧
      ∀ now id version text, ((empty limits).run build ops).versionOf? id ≠ some version →
        build text = none →
          (((empty limits).run build ops).get build now id version text).1.entries
            = ((empty limits).run build ops).entries ∧
          (((empty limits).run build ops).get build now id version text).2
            = .error ⟨id, version,
                (((empty limits).run build ops).entries.find? id).map (·.value)⟩ := by
  have h : Explained build limits ((empty limits).history build ops)
      ((empty limits).run build ops) := (Explained.empty build limits).run ops
  refine ⟨h, fun id e he anew now text => ?_, fun now id version text hmiss hbuild => ?_⟩
  · rw [get_of_cached (h.sorted.find?_of_mem he) anew now text]
    exact ⟨rfl, rfl⟩
  · rw [get_of_failed hmiss hbuild now]
    exact ⟨rfl, rfl⟩

/-- A builder that fails on one text. -/
def echoBuild (text : List Char) : Option (List Char) := if text = ['!'] then none else some text

/-- A document makes room for another one, which is found at its version and not built at the
next. -/
def roomForOne : List CacheOp :=
  [.get 0 "a" 1 ['x'], .get 3 "b" 1 ['y'], .get 4 "b" 1 ['z'], .get 6 "b" 2 ['!']]

theorem explained_run_roomForOne :
    Explained echoBuild ⟨1, 5⟩
        [.built 0 "a" 1 ['x'], .built 3 "b" 1 ['y'], .hit 4 "b" 1, .failed 6 "b" 2 ['!']]
        ⟨⟨1, 5⟩, ⟨[("b", ⟨1, ['y'], 4⟩)]⟩, 3⟩ ∧
      ((⟨⟨1, 5⟩, ⟨[("b", ⟨1, ['y'], 4⟩)]⟩, 3⟩ : Cache (List Char)).get (fun _ => none) 9 "b" 1 []).2
        = .ok ['y'] ∧
      ((⟨⟨1, 5⟩, ⟨[("b", ⟨1, ['y'], 4⟩)]⟩, 3⟩ : Cache (List Char)).get echoBuild 9 "b" 2 ['!']).2
        = .error ⟨"b", 2, some ['y']⟩ := by
  obtain ⟨h, hcached, hfailed⟩ := explained_run echoBuild ⟨1, 5⟩ roomForOne
  have hrun : (empty ⟨1, 5⟩).run echoBuild roomForOne = ⟨⟨1, 5⟩, ⟨[("b", ⟨1, ['y'], 4⟩)]⟩, 3⟩ := rfl
  have hhistory : (empty ⟨1, 5⟩).history echoBuild roomForOne
      = [.built 0 "a" 1 ['x'], .built 3 "b" 1 ['y'], .hit 4 "b" 1, .failed 6 "b" 2 ['!']] := rfl
  rw [hrun] at h hcached hfailed
  rw [hhistory] at h
  exact ⟨h, (hcached "b" _ List.mem_cons_self (fun _ => none) 9 []).1,
    (hfailed 9 "b" 2 ['!'] (by decide) rfl).2⟩

end Cache

end PipelineLang.Server
