import Mathlib.Data.List.Induction
import Mathlib.Data.String.Basic
import PipelineLang.Text.Table

/-!
# Entries of tables

What an operation does to a table, said of its entries: a lookup finds an entry, an insertion adds
one entry and keeps only old ones beside it, and what erases or filters keeps only old ones. Of a
table built from a list, a lookup finds the last entry of the list (`find?_ofList`); a table of
groups holds the entries of the list, each as often as it is there (`group_entries_perm`).
-/

namespace PipelineLang.Table

variable {α : Type}

theorem mem_of_findIn {name : String} {a : α} :
    ∀ {entries : List (String × α)}, findIn name entries = some a → (name, a) ∈ entries
  | [], h => by simp [findIn] at h
  | (k, b) :: rest, h => by
    simp only [findIn] at h
    split at h
    · next hk => cases h; subst hk; exact List.mem_cons_self
    · exact List.mem_cons_of_mem _ (mem_of_findIn h)

theorem mem_of_find? {t : Table α} {name : String} {a : α} (h : t.find? name = some a) :
    (name, a) ∈ t.entries := mem_of_findIn h

theorem mem_insertIn {name : String} {a : α} {p : String × α} :
    ∀ {entries : List (String × α)}, p ∈ insertIn name a entries → p = (name, a) ∨ p ∈ entries
  | [], h => by simpa [insertIn] using h
  | (k, b) :: rest, h => by
    simp only [insertIn] at h
    split at h
    · rcases List.mem_cons.1 h with h | h
      · exact Or.inl h
      · exact Or.inr (List.mem_cons_of_mem _ h)
    · split at h
      · exact List.mem_cons.1 h
      · rcases List.mem_cons.1 h with h | h
        · exact Or.inr (h ▸ List.mem_cons_self)
        · exact (mem_insertIn h).imp_right (List.mem_cons_of_mem _)

theorem mem_insert {t : Table α} {name : String} {a : α} {p : String × α}
    (h : p ∈ (t.insert name a).entries) : p = (name, a) ∨ p ∈ t.entries := mem_insertIn h

/-- Insertions one after another add no entries but those inserted. -/
theorem mem_foldl_insert {p : String × α} (entries : List (String × α)) (t : Table α)
    (h : p ∈ (entries.foldl (fun t (name, a) => t.insert name a) t).entries) :
    p ∈ entries ∨ p ∈ t.entries := by
  induction entries generalizing t with
  | nil => exact Or.inr h
  | cons e es ih =>
    rcases ih (t.insert e.1 e.2) h with hp | hp
    · exact Or.inl (List.mem_cons_of_mem _ hp)
    · rcases mem_insert hp with rfl | hp
      · exact Or.inl List.mem_cons_self
      · exact Or.inr hp

theorem mem_ofList {entries : List (String × α)} {p : String × α}
    (h : p ∈ (ofList entries).entries) : p ∈ entries := by
  rcases mem_foldl_insert entries empty h with hp | hp
  · exact hp
  · cases hp

theorem mem_erase {t : Table α} {name : String} {p : String × α} :
    p ∈ (t.erase name).entries ↔ p ∈ t.entries ∧ p.1 ≠ name := by
  simp [erase, List.mem_filter]

theorem mem_filter {t : Table α} {keep : α → Bool} {p : String × α} :
    p ∈ (t.filter keep).entries ↔ p ∈ t.entries ∧ keep p.2 = true := by
  simp [filter, List.mem_filter]

theorem findIn_filter_ne (name other : String) :
    ∀ entries : List (String × α),
      findIn other (entries.filter (·.1 != name))
        = if name = other then none else findIn other entries
  | [] => by simp [findIn]
  | (k, b) :: rest => by
    have ih := findIn_filter_ne name other rest
    by_cases hk : k = name
    · subst hk
      rw [List.filter_cons_of_neg (by simp), ih, findIn]
      split <;> rfl
    · rw [List.filter_cons_of_pos (by simpa using hk), findIn, findIn, ih]
      split
      · next h => rw [if_neg fun e => hk (h.trans e.symm)]
      · rfl

/-- Erasing a name takes away what stands under it and nothing else. -/
theorem find?_erase (t : Table α) (name other : String) :
    (t.erase name).find? other = if name = other then none else t.find? other :=
  findIn_filter_ne name other t.entries

/-! ## Tables of lists -/

theorem findIn_append (name : String) (xs ys : List (String × α)) :
    findIn name (xs ++ ys) = (findIn name xs).or (findIn name ys) := by
  induction xs with
  | nil => rw [List.nil_append, findIn, Option.none_or]
  | cons x xs ih =>
    obtain ⟨k, a⟩ := x
    rw [List.cons_append, findIn, findIn, ih]
    split
    · rfl
    · rfl

theorem findIn_map {β : Type} (name : String) (f : α → β) (xs : List (String × α)) :
    findIn name (xs.map fun (k, a) => (k, f a)) = (findIn name xs).map f := by
  induction xs with
  | nil => rfl
  | cons x xs ih =>
    obtain ⟨k, a⟩ := x
    rw [List.map_cons, findIn, findIn, ih]
    split
    · rfl
    · rfl

/-- In a table built from a list, the last entry under a name is the one found. -/
theorem find?_ofList (entries : List (String × α)) (name : String) :
    (ofList entries).find? name = findIn name entries.reverse := by
  have hfold (t : Table α) :
      (entries.foldl (fun t (name, a) => t.insert name a) t).find? name
        = (findIn name entries.reverse).or (t.find? name) := by
    induction entries generalizing t with
    | nil => rfl
    | cons e es ih =>
      obtain ⟨k, a⟩ := e
      rw [List.foldl_cons, ih, List.reverse_cons, findIn_append, Option.or_assoc,
        find?_insert, findIn]
      split
      · rfl
      · rfl
  rw [ofList, hfold, find?_empty, Option.or_none]

/-- What is found in a table built from a list is the last entry under the name. -/
theorem exists_of_find?_ofList {entries : List (String × α)} {name : String} {a : α}
    (h : (ofList entries).find? name = some a) :
    ∃ front back, entries = front ++ (name, a) :: back ∧ name ∉ back.map (·.1) := by
  rw [find?_ofList] at h
  induction entries using List.reverseRecOn with
  | nil => cases h
  | append_singleton entries e ih =>
    obtain ⟨k, b⟩ := e
    rw [List.reverse_append, List.reverse_singleton, List.singleton_append, findIn] at h
    split at h
    · next hk =>
      cases h
      exact ⟨entries, [], by rw [hk], List.not_mem_nil⟩
    · next hk =>
      obtain ⟨front, back, rfl, hback⟩ := ih h
      refine ⟨front, back ++ [(k, b)], by rw [List.append_assoc, List.cons_append], ?_⟩
      rw [List.map_append, List.mem_append, not_or]
      exact ⟨hback, fun hmem => hk (List.mem_singleton.1 hmem).symm⟩

/-- In a table of things by their keys, the last thing of a key is the one found. -/
theorem find?_ofList_map {β : Type} (key : β → String) (f : β → α) (xs : List β) (name : String) :
    (ofList (xs.map fun x => (key x, f x))).find? name
      = ((xs.filter (key · == name)).map f).getLast? := by
  rw [find?_ofList]
  induction xs with
  | nil => rfl
  | cons x xs ih =>
    rw [List.map_cons, List.reverse_cons, findIn_append, ih, findIn, findIn]
    by_cases hx : key x = name
    · rw [if_pos hx, List.filter_cons_of_pos (by simpa using hx), List.map_cons, List.getLast?_cons]
      cases ((xs.filter (key · == name)).map f).getLast? with
      | none => rfl
      | some a => rfl
    · rw [if_neg hx, List.filter_cons_of_neg (by simpa using hx), Option.or_none]

theorem find?_ofList_eq_none {entries : List (String × α)} {name : String} :
    (ofList entries).find? name = none ↔ name ∉ entries.map (·.1) := by
  have h := find?_ofList_map (·.1) (·.2) entries name
  rw [show entries.map (fun e => (e.1, e.2)) = entries from List.map_id' entries] at h
  rw [h, List.getLast?_eq_none_iff, List.map_eq_nil_iff, List.filter_eq_nil_iff, List.mem_map]
  simp only [beq_iff_eq, not_exists, not_and]

theorem find?_map {β : Type} (t : Table α) (f : α → β) (name : String) :
    (t.map f).find? name = (t.find? name).map f := findIn_map name f t.entries

/-! ## Order -/

/-- The names are in order, so each has one entry only. -/
def Sorted (t : Table α) : Prop := t.entries.Pairwise fun p q => p.1 < q.1

theorem sorted_insertIn {name : String} {a : α} {entries : List (String × α)}
    (h : entries.Pairwise fun p q => p.1 < q.1) :
    (insertIn name a entries).Pairwise fun p q => p.1 < q.1 := by
  induction entries with
  | nil => exact List.pairwise_singleton _ _
  | cons e rest ih =>
    obtain ⟨k, b⟩ := e
    obtain ⟨hk, hrest⟩ := List.pairwise_cons.1 h
    rw [insertIn]
    by_cases heq : k = name
    · rw [if_pos heq]
      exact List.pairwise_cons.2 ⟨fun p hp => heq ▸ hk p hp, hrest⟩
    · rw [if_neg heq]
      by_cases hlt : name < k
      · rw [if_pos hlt]
        refine List.pairwise_cons.2 ⟨fun p hp => ?_, h⟩
        rcases List.mem_cons.1 hp with rfl | hp
        · exact hlt
        · exact lt_trans hlt (hk p hp)
      · rw [if_neg hlt]
        refine List.pairwise_cons.2 ⟨fun p hp => ?_, ih hrest⟩
        rcases mem_insertIn hp with rfl | hp
        · exact lt_of_le_of_ne (not_lt.1 hlt) heq
        · exact hk p hp

theorem Sorted.insert {t : Table α} (h : t.Sorted) (name : String) (a : α) :
    (t.insert name a).Sorted := sorted_insertIn h

theorem sorted_ofList (entries : List (String × α)) : (ofList entries).Sorted := by
  have hfold (t : Table α) (h : t.Sorted) :
      (entries.foldl (fun t (name, a) => t.insert name a) t).Sorted := by
    induction entries generalizing t with
    | nil => exact h
    | cons e es ih => exact ih _ (h.insert _ _)
  exact hfold empty List.Pairwise.nil

/-- What stands in a sorted table is found there. -/
theorem Sorted.find?_of_mem {t : Table α} (h : t.Sorted) {name : String} {a : α}
    (hmem : (name, a) ∈ t.entries) : t.find? name = some a := by
  obtain ⟨entries⟩ := t
  induction entries with
  | nil => cases hmem
  | cons e rest ih =>
    obtain ⟨k, b⟩ := e
    obtain ⟨hk, hrest⟩ := List.pairwise_cons.1 h
    rcases List.mem_cons.1 hmem with heq | hmem
    · cases heq
      exact if_pos rfl
    · exact (if_neg (ne_of_lt (hk _ hmem))).trans (ih hrest hmem)

theorem Sorted.mem_iff {t : Table α} (h : t.Sorted) {name : String} {a : α} :
    (name, a) ∈ t.entries ↔ t.find? name = some a := ⟨h.find?_of_mem, mem_of_find?⟩

theorem Sorted.nodup_names {t : Table α} (h : t.Sorted) : t.names.Nodup :=
  List.pairwise_map.2 (h.imp fun hlt => ne_of_lt hlt)

/-- An insertion puts the new value where the old one of the name stood, or would stand. -/
theorem insertIn_spec (name : String) (a : α) {entries : List (String × α)}
    (h : entries.Pairwise fun p q => p.1 < q.1) : ∃ front back,
      entries = front ++ ((findIn name entries).map (name, ·)).toList ++ back ∧
      insertIn name a entries = front ++ (name, a) :: back := by
  induction entries with
  | nil => exact ⟨[], [], rfl, rfl⟩
  | cons e rest ih =>
    obtain ⟨k, b⟩ := e
    obtain ⟨hk, hrest⟩ := List.pairwise_cons.1 h
    rw [insertIn, findIn]
    by_cases heq : k = name
    · rw [if_pos heq, if_pos heq]
      subst heq
      exact ⟨[], rest, rfl, rfl⟩
    · rw [if_neg heq, if_neg heq]
      by_cases hlt : name < k
      · have hnone : findIn name rest = none := by
          cases hfind : findIn name rest with
          | none => rfl
          | some b' => exact absurd (hk _ (mem_of_findIn hfind)) (not_lt.2 (le_of_lt hlt))
        rw [if_pos hlt, hnone]
        exact ⟨[], (k, b) :: rest, rfl, rfl⟩
      · obtain ⟨front, back, hentries, hinsert⟩ := ih hrest
        rw [if_neg hlt, hinsert]
        exact ⟨(k, b) :: front, back, by rw [List.cons_append, List.cons_append, ← hentries], rfl⟩

theorem Sorted.erase {t : Table α} (h : t.Sorted) (name : String) : (t.erase name).Sorted :=
  List.Pairwise.filter _ h

theorem Sorted.filter {t : Table α} (h : t.Sorted) (keep : α → Bool) : (t.filter keep).Sorted :=
  List.Pairwise.filter _ h

/-- Writing under a name that is there leaves the table as large as it was. -/
theorem Sorted.size_insert {t : Table α} (h : t.Sorted) {name : String} {b : α}
    (hb : t.find? name = some b) (a : α) : (t.insert name a).size = t.size := by
  obtain ⟨front, back, hentries, hinsert⟩ := insertIn_spec name a h
  have hfound : findIn name t.entries = some b := hb
  rw [hfound] at hentries
  rw [size, size, Table.insert, hinsert, hentries]
  simp

theorem size_erase_lt {t : Table α} {e : String × α} (h : e ∈ t.entries) :
    (t.erase e.1).size < t.size :=
  List.length_filter_lt_length_iff_exists.2 ⟨e, h, by simp⟩

/-! ## Groups -/

/-- The table with one more value in the group of its name. -/
def push (t : Table (List α)) (e : String × α) : Table (List α) :=
  t.insert e.1 (((t.find? e.1).getD []) ++ [e.2])

/-- The values of all groups, each under its name. -/
def values (t : Table (List α)) : List (String × α) :=
  t.entries.flatMap fun (name, as) => as.map (name, ·)

theorem group_eq (entries : List (String × α)) : group entries = entries.foldl push empty := rfl

theorem Sorted.foldl_push {t : Table (List α)} (h : t.Sorted) (entries : List (String × α)) :
    (entries.foldl push t).Sorted := by
  induction entries generalizing t with
  | nil => exact h
  | cons e es ih => exact ih (h.insert _ _)

theorem sorted_group (entries : List (String × α)) : (group entries).Sorted :=
  Sorted.foldl_push List.Pairwise.nil entries

/-- The group of a name holds the values under the name, in order. -/
theorem getD_find?_group (entries : List (String × α)) (name : String) :
    ((group entries).find? name).getD [] = (entries.filter (·.1 == name)).map (·.2) := by
  have hfold (t : Table (List α)) : ((entries.foldl push t).find? name).getD []
      = (t.find? name).getD [] ++ (entries.filter (·.1 == name)).map (·.2) := by
    induction entries generalizing t with
    | nil => exact (List.append_nil _).symm
    | cons e es ih =>
      rw [List.foldl_cons, ih, push, find?_insert]
      by_cases he : e.1 = name
      · rw [if_pos he, List.filter_cons_of_pos (by simpa using he), he]
        simp
      · rw [if_neg he, List.filter_cons_of_neg (by simpa using he)]
  rw [group_eq, hfold, find?_empty, Option.getD_none, List.nil_append]

theorem values_push {t : Table (List α)} (h : t.Sorted) (e : String × α) :
    (t.push e).values.Perm (t.values ++ [e]) := by
  obtain ⟨front, back, hentries, hinsert⟩ :=
    insertIn_spec e.1 (((t.find? e.1).getD []) ++ [e.2]) h
  have hold : ((findIn e.1 t.entries).map (e.1, ·)).toList.flatMap
      (fun (name, as) => as.map (name, ·)) = ((t.find? e.1).getD []).map (e.1, ·) := by
    rw [find?]
    cases findIn e.1 t.entries with
    | none => rfl
    | some as => simp
  have hpush : (t.push e).entries
      = front ++ (e.1, ((t.find? e.1).getD []) ++ [e.2]) :: back := hinsert
  rw [values, values, hpush, hentries]
  simp only [List.flatMap_append, List.flatMap_cons, hold, List.map_append, List.map_singleton,
    List.append_assoc]
  refine (List.Perm.append_left _ (List.Perm.append_left _ ?_))
  exact List.perm_append_comm

/-- Grouping keeps all entries. -/
theorem group_entries_perm (entries : List (String × α)) : (group entries).values.Perm entries := by
  have hfold (t : Table (List α)) (h : t.Sorted) :
      (entries.foldl push t).values.Perm (t.values ++ entries) := by
    induction entries generalizing t with
    | nil => rw [List.foldl_nil, List.append_nil]
    | cons e es ih =>
      refine (ih (t.push e) (h.insert _ _)).trans ?_
      rw [← List.singleton_append, ← List.append_assoc]
      exact (values_push h e).append_right es
  exact hfold empty List.Pairwise.nil

/-- What a table gives group by group, some names apart, it gives value by value. -/
theorem flatMap_unless {β : Type} (t : Table (List α)) (skip : String → Bool)
    (f : String → α → β) :
    (t.entries.flatMap fun (name, as) => if skip name then [] else as.map (f name))
      = (t.values.filter fun e => !skip e.1).map fun e => f e.1 e.2 := by
  rw [values, List.filter_flatMap, List.map_flatMap]
  refine List.flatMap_congr fun e _ => ?_
  obtain ⟨name, as⟩ := e
  cases hskip : skip name with
  | true => simp [List.filter_map, Function.comp_def, hskip]
  | false => simp [List.filter_map, Function.comp_def, hskip]

/-- The same of what it gives for each of its names. -/
theorem Sorted.flatMap_names {β : Type} {t : Table (List α)} (h : t.Sorted)
    (keep : String → α → Bool) (f : String → α → β) :
    (t.names.flatMap fun name => (((t.find? name).getD []).filter (keep name)).map (f name))
      = (t.values.filter fun e => keep e.1 e.2).map fun e => f e.1 e.2 := by
  rw [names, List.flatMap_map, values, List.filter_flatMap, List.map_flatMap]
  refine List.flatMap_congr fun e he => ?_
  obtain ⟨name, as⟩ := e
  rw [h.find?_of_mem he, List.filter_map, List.map_map]
  rfl

end PipelineLang.Table
