/-!
# Tables by name

A table holds at most one value under each name and lists them in the order of the names.
`find?_insert` is its law: the last value written under a name is the one found there.
-/

namespace PipelineLang

/-- Values by name. -/
structure Table (α : Type) where
  entries : List (String × α)
  deriving DecidableEq

namespace Table

variable {α : Type}

def empty : Table α := ⟨[]⟩

def findIn (name : String) : List (String × α) → Option α
  | [] => none
  | (k, a) :: rest => if k = name then some a else findIn name rest

/-- The value under the name. -/
def find? (t : Table α) (name : String) : Option α := findIn name t.entries

def contains (t : Table α) (name : String) : Bool := (t.find? name).isSome

/-- The names, in order. -/
def names (t : Table α) : List String := t.entries.map (·.1)

def insertIn (name : String) (a : α) : List (String × α) → List (String × α)
  | [] => [(name, a)]
  | (k, b) :: rest =>
    if k = name then (name, a) :: rest
    else if name < k then (name, a) :: (k, b) :: rest
    else (k, b) :: insertIn name a rest

/-- The table with `a` under the name, in place of what was there. -/
def insert (t : Table α) (name : String) (a : α) : Table α := ⟨insertIn name a t.entries⟩

/-- The table with `f` applied to every value. -/
def map {β : Type} (f : α → β) (t : Table α) : Table β := ⟨t.entries.map fun (k, a) => (k, f a)⟩

/-- The table without what stands under the name. -/
def erase (t : Table α) (name : String) : Table α := ⟨t.entries.filter (·.1 != name)⟩

/-- The table of the entries that satisfy `p`. -/
def filter (p : α → Bool) (t : Table α) : Table α := ⟨t.entries.filter fun (_, a) => p a⟩

def size (t : Table α) : Nat := t.entries.length

/-- The table of a list of entries; of two under one name the last counts. -/
def ofList (entries : List (String × α)) : Table α :=
  entries.foldl (fun t (name, a) => t.insert name a) empty

/-- The lists of values that stand under the same name, each in the order given. -/
def group (entries : List (String × α)) : Table (List α) :=
  entries.foldl (fun t (name, a) => t.insert name (((t.find? name).getD []) ++ [a])) empty

theorem findIn_insertIn (name other : String) (a : α) (entries : List (String × α)) :
    findIn other (insertIn name a entries) = if name = other then some a else findIn other entries := by
  induction entries with
  | nil => simp [insertIn, findIn]
  | cons e rest ih =>
    obtain ⟨k, b⟩ := e
    simp only [insertIn]
    split
    · rename_i h; subst h; simp only [findIn]; split <;> rfl
    · rename_i h
      split
      · simp only [findIn]
      · simp only [findIn, ih]
        split
        · rename_i hk; subst hk; rw [if_neg (fun e => h e.symm)]
        · rfl

theorem find?_insert (t : Table α) (name other : String) (a : α) :
    (t.insert name a).find? other = if name = other then some a else t.find? other :=
  findIn_insertIn name other a t.entries

theorem find?_empty (name : String) : (empty : Table α).find? name = none := rfl

end Table
end PipelineLang
