import Mathlib.Data.String.Basic
import PipelineLang.Editor.Completion
import PipelineLang.Proofs.Table

/-!
# Partials that are offered

The partials offered at an offset are brought together from the scopes around it and from the template
variables, sorted by name and sifted; what a name stands for is looked up scope by scope. Sorting
leaves the items of one name in the order in which they were brought together (`filter_mergeSort`), and
sifting leaves the first of them (`mem_sift`), so what is offered under a name is the item of what
the name stands for (`mem_partialItems`): each name once, an inline partial before the global one
(`partialItems_resolved`).
-/

namespace PipelineLang.Editor

open Template

/-- The order in which items are offered. -/
def labelLe (a b : Completion) : Bool := a.label ≤ b.label

theorem labelLe_trans (a b c : Completion) (hab : labelLe a b = true) (hbc : labelLe b c = true) :
    labelLe a c = true :=
  decide_eq_true ((of_decide_eq_true hab).trans (of_decide_eq_true hbc))

theorem labelLe_total (a b : Completion) : (labelLe a b || labelLe b a) = true :=
  Bool.or_eq_true_iff.2 ((le_total a.label b.label).imp decide_eq_true decide_eq_true)

/-! ## Sorting and sifting -/

/-- Sorting leaves the items of one name as they are. -/
theorem filter_mergeSort (items : List Completion) (name : String) :
    (items.mergeSort labelLe).filter (·.label == name) = items.filter (·.label == name) := by
  have hpairwise : (items.filter (·.label == name)).Pairwise (labelLe · · = true) := by
    refine List.pairwise_of_forall_mem_list fun a ha b hb => decide_eq_true (le_of_eq ?_)
    rw [beq_iff_eq.1 (List.mem_filter.1 ha).2, beq_iff_eq.1 (List.mem_filter.1 hb).2]
  have hsublist := (List.sublist_mergeSort labelLe_trans labelLe_total hpairwise
    List.filter_sublist).filter (·.label == name)
  rw [List.filter_filter] at hsublist
  simp only [Bool.and_self] at hsublist
  have hlength := ((List.mergeSort_perm items labelLe).filter (·.label == name)).length_eq
  exact (hsublist.eq_of_length hlength.symm).symm

theorem mem_of_mem_sift {items : List Completion} {item : Completion}
    (h : item ∈ partialItems.dedup items) : item ∈ items := by
  induction items generalizing item with
  | nil => exact h
  | cons a rest ih =>
    rw [partialItems.dedup] at h
    split at h
    · exact List.mem_cons.2 (Or.inl (List.mem_singleton.1 h))
    · next b bs heq =>
      rw [heq] at ih
      split at h
      · exact List.mem_cons.2 ((List.mem_cons.1 h).imp_right fun h => ih (List.mem_cons_of_mem b h))
      · exact List.mem_cons.2 ((List.mem_cons.1 h).imp_right ih)

section

variable {a : Completion} {items rest : List Completion}

/-- Before others that are sifted, an item takes away those of its name. -/
theorem sift_cons (ha : ∀ b ∈ rest, labelLe a b = true)
    (hrest : (partialItems.dedup rest).Pairwise fun a b => a.label < b.label) :
    partialItems.dedup (a :: rest)
      = a :: (partialItems.dedup rest).filter (·.label != a.label) := by
  rw [partialItems.dedup]
  split
  · next hnil =>
    rw [hnil]
    rfl
  · next b bs heq =>
    have hb : a.label ≤ b.label :=
      of_decide_eq_true (ha b (mem_of_mem_sift (heq ▸ List.mem_cons_self)))
    rw [heq] at hrest ⊢
    have hbs := (List.pairwise_cons.1 hrest).1
    have hkeep : bs.filter (·.label != a.label) = bs :=
      List.filter_eq_self.2 fun x hx => bne_iff_ne.2 (hb.trans_lt (hbs x hx)).ne'
    split
    · next hlabel => rw [List.filter_cons_of_neg (by simp [hlabel]), hkeep]
    · next hlabel => rw [List.filter_cons_of_pos (by simp [Ne.symm hlabel]), hkeep]

/-- Of items in order sifting leaves one of each name. -/
theorem sift_pairwise (hsorted : items.Pairwise (labelLe · · = true)) :
    (partialItems.dedup items).Pairwise fun a b => a.label < b.label := by
  induction items with
  | nil => exact .nil
  | cons a rest ih =>
    obtain ⟨ha, hrest⟩ := List.pairwise_cons.1 hsorted
    rw [sift_cons ha (ih hrest)]
    refine List.pairwise_cons.2 ⟨fun b hb => ?_, (ih hrest).filter _⟩
    obtain ⟨hmem, hlabel⟩ := List.mem_filter.1 hb
    exact lt_of_le_of_ne (of_decide_eq_true (ha b (mem_of_mem_sift hmem)))
      (Ne.symm (bne_iff_ne.1 hlabel))

/-- Of items in order sifting leaves the first one of each name. -/
theorem mem_sift (hsorted : items.Pairwise (labelLe · · = true)) {item : Completion} :
    item ∈ partialItems.dedup items ↔ items.find? (·.label == item.label) = some item := by
  induction items with
  | nil => exact iff_of_false List.not_mem_nil nofun
  | cons a rest ih =>
    obtain ⟨ha, hrest⟩ := List.pairwise_cons.1 hsorted
    rw [sift_cons ha (sift_pairwise hrest), List.mem_cons, List.mem_filter, bne_iff_ne, ih hrest]
    by_cases hlabel : a.label = item.label
    · rw [List.find?_cons, beq_iff_eq.2 hlabel, Option.some.injEq]
      exact ⟨fun h => (h.resolve_right fun h => h.2 hlabel.symm).symm, fun h => Or.inl h.symm⟩
    · rw [List.find?_cons, beq_eq_false_iff_ne.2 hlabel]
      refine ⟨fun h => (h.resolve_left fun heq => hlabel (heq ▸ rfl)).1, fun h => Or.inr ⟨h, ?_⟩⟩
      exact Ne.symm hlabel

end

/-! ## What is offered -/

/-- What is offered under a name that stands for something. -/
def itemOf (name : String) : Resolution → Option Completion
  | .inline _ _ => some ⟨name, .module, "inline partial"⟩
  | .global _ => some ⟨name, .module, "partial"⟩
  | .unresolved => none

/-- The partials that may be seen at the offset, in the order of their scopes. -/
def candidates (p : Partials) (offset : Nat) : List Completion :=
  (p.scopes.filter (·.region.contains offset)).flatMap (fun scope =>
      scope.definitions.names.map (⟨·, .module, "inline partial"⟩))
    ++ p.globals.names.map (⟨·, .module, "partial"⟩)

theorem partialItems_eq (p : Partials) (offset : Nat) :
    partialItems p offset = partialItems.dedup ((candidates p offset).mergeSort labelLe) := rfl

theorem find?_names {α : Type} (t : Table α) (name detail : String) :
    (t.names.map fun n => (⟨n, .module, detail⟩ : Completion)).find? (·.label == name)
      = (t.find? name).map fun _ => ⟨name, .module, detail⟩ := by
  obtain ⟨entries⟩ := t
  rw [Table.names, Table.find?]
  induction entries with
  | nil => rfl
  | cons e rest ih =>
    obtain ⟨k, a⟩ := e
    rw [Table.findIn, List.map_cons, List.map_cons, List.find?_cons, ih]
    by_cases hk : k = name
    · rw [if_pos hk, hk, beq_self_eq_true]
      rfl
    · rw [if_neg hk, beq_eq_false_iff_ne.2 hk]

/-- The first item of a name is that of what the name stands for. -/
theorem find?_candidates (p : Partials) (name : String) (offset : Nat) :
    (candidates p offset).find? (·.label == name) = itemOf name (p.resolve name offset) := by
  have hinline : ((p.scopes.filter (·.region.contains offset)).flatMap fun scope =>
      scope.definitions.names.map fun n => (⟨n, .module, "inline partial"⟩ : Completion)).find?
        (·.label == name)
      = (p.inlineAt name offset).map fun _ => ⟨name, .module, "inline partial"⟩ := by
    rw [List.find?_flatMap, Partials.inlineAt, List.map_findSome?]
    refine congrArg (List.findSome? · _) (funext fun scope => ?_)
    rw [find?_names, Function.comp_apply, Option.map_map]
    rfl
  rw [candidates, List.find?_append, hinline, find?_names, Partials.resolve]
  cases p.inlineAt name offset with
  | some found => rfl
  | none =>
    cases p.globals.find? name with
    | some nameSpan => rfl
    | none => rfl

/-- What is offered is what names stand for. -/
theorem mem_partialItems {p : Partials} {offset : Nat} {item : Completion} :
    item ∈ partialItems p offset ↔ itemOf item.label (p.resolve item.label offset) = some item := by
  rw [partialItems_eq, mem_sift (List.pairwise_mergeSort labelLe_trans labelLe_total _),
    ← List.head?_filter, filter_mergeSort, List.head?_filter, find?_candidates]

theorem itemOf_eq_none {name : String} {r : Resolution} :
    itemOf name r = none ↔ r = .unresolved := by
  cases r with
  | inline d region => exact ⟨nofun, nofun⟩
  | global s => exact ⟨nofun, nofun⟩
  | unresolved => exact ⟨fun _ => rfl, fun _ => rfl⟩

/-- An item shows what its name stands for. -/
theorem itemOf_eq_some {name : String} {r : Resolution} {item : Completion}
    (h : itemOf name r = some item) :
    item.label = name ∧ item.kind = .module ∧
      (item.detail = "inline partial" ↔ ∃ d region, r = .inline d region) ∧
      (item.detail = "partial" ↔ ∃ nameSpan, r = .global nameSpan) := by
  have hne : "inline partial" ≠ "partial" := by decide
  cases r with
  | inline d region =>
    cases h
    exact ⟨rfl, rfl, iff_of_true rfl ⟨d, region, rfl⟩, iff_of_false hne (by rintro ⟨s, ⟨⟩⟩)⟩
  | global nameSpan =>
    cases h
    exact ⟨rfl, rfl, iff_of_false hne.symm (by rintro ⟨d, region, ⟨⟩⟩),
      iff_of_true rfl ⟨nameSpan, rfl⟩⟩
  | unresolved => cases h

/-- **What is offered resolves, and what resolves is offered.** Whatever partials there are, the names
offered at an offset come in strict order and are those that stand for something there. A name is
offered as an inline partial where it stands for one, and as a global one where it stands for a template
variable. -/
theorem partialItems_resolved (p : Partials) (offset : Nat) :
    ((partialItems p offset).map (·.label)).Pairwise (· < ·) ∧
      (∀ name, name ∈ (partialItems p offset).map (·.label) ↔
        p.resolve name offset ≠ .unresolved) ∧
      ∀ item ∈ partialItems p offset, item.kind = .module ∧
        (item.detail = "inline partial" ↔ ∃ d region, p.resolve item.label offset = .inline d region) ∧
        (item.detail = "partial" ↔ ∃ nameSpan, p.resolve item.label offset = .global nameSpan) := by
  refine ⟨?_, fun name => ?_, fun item hitem => ?_⟩
  · rw [List.pairwise_map, partialItems_eq]
    exact sift_pairwise (List.pairwise_mergeSort labelLe_trans labelLe_total _)
  · rw [Ne, ← @itemOf_eq_none name, ← Ne, Option.ne_none_iff_exists', List.mem_map]
    constructor
    · rintro ⟨item, hitem, rfl⟩
      exact ⟨item, mem_partialItems.1 hitem⟩
    · rintro ⟨item, hitem⟩
      obtain ⟨rfl, -⟩ := itemOf_eq_some hitem
      exact ⟨item, mem_partialItems.2 hitem, rfl⟩
  · exact (itemOf_eq_some (mem_partialItems.1 hitem)).2

end PipelineLang.Editor
