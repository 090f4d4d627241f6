import PipelineLang.Proofs.Grammar.Spelling
import PipelineLang.Reference.Search

/-!
# What a search finds

A search finds matches only, each behind the one before it (`mem_searchAll`, `pairwise_searchAll`).
It goes on behind a match, so it may pass over another one that starts inside: it finds a match into
which no earlier one runs (`mem_searchAll_of_clear`), and all of them where no match can start inside
another (`mem_searchAll_of_match`).
-/

namespace PipelineLang.Reference

open Cursor

/-- Whatever the shape matches moves the cursor on. -/
def Moves {α : Type} (shape : Cursor → Option (α × Cursor)) : Prop :=
  ∀ c a d, shape c = some (a, d) → c < d

/-- No match of the shape starts inside another one. -/
def Separate {α : Type} (shape : Cursor → Option (α × Cursor)) : Prop :=
  ∀ c a d b, shape c = some (a, d) → c < b → b < d → shape b = none

variable {α : Type} {shape : Cursor → Option (α × Cursor)} {b c d : Cursor} {a : α}

theorem searchAll_of_match (hmoves : Moves shape) (h : shape c = some (a, d)) :
    searchAll shape c = (a, d) :: searchAll shape d := by
  rw [searchAll, h]
  exact if_pos (lt_iff.1 (hmoves c a d h)).2

theorem searchAll_of_end (h : shape c = none) (hend : c.rest = []) : searchAll shape c = [] := by
  rw [searchAll]
  simp only [h]
  split
  · rfl
  · next hrest => rw [hend] at hrest; cases hrest

theorem searchAll_of_step {x : Char} {xs : List Char} (h : shape c = none)
    (hrest : c.rest = x :: xs) : searchAll shape c = searchAll shape (c.step x xs) := by
  rw [searchAll]
  simp only [h]
  split
  · next hend => rw [hrest] at hend; cases hend
  · next hrest' =>
    rw [hrest] at hrest'
    cases hrest'
    rfl

/-- Searching: what holds at the end, and is carried back over a match and over a character at
which there is none, holds of the whole. -/
theorem searchAll_induction {motive : Cursor → List (α × Cursor) → Prop} (hmoves : Moves shape)
    (hend : ∀ c, shape c = none → c.rest = [] → motive c [])
    (hstep : ∀ c x xs, shape c = none → c.rest = x :: xs →
      motive (c.step x xs) (searchAll shape (c.step x xs)) →
      motive c (searchAll shape (c.step x xs)))
    (hmatch : ∀ c a d, shape c = some (a, d) → c < d → motive d (searchAll shape d) →
      motive c ((a, d) :: searchAll shape d))
    (c : Cursor) : motive c (searchAll shape c) := by
  induction hn : c.rest.length using Nat.strongRecOn generalizing c with
  | ind n ih =>
    cases hc : shape c with
    | some r =>
      obtain ⟨a, d⟩ := r
      have hlt := hmoves c a d hc
      rw [searchAll_of_match hmoves hc]
      exact hmatch c a d hc hlt (ih _ (hn ▸ (lt_iff.1 hlt).2) d rfl)
    | none =>
      cases hrest : c.rest with
      | nil =>
        rw [searchAll_of_end hc hrest]
        exact hend c hc hrest
      | cons x xs =>
        rw [searchAll_of_step hc hrest]
        refine hstep c x xs hc hrest (ih xs.length ?_ (c.step x xs) rfl)
        rw [← hn, hrest]
        exact Nat.lt_succ_self _

/-- A search finds matches only. -/
theorem mem_searchAll (hmoves : Moves shape) (c : Cursor) :
    ∀ m ∈ searchAll shape c, ∃ b, c ≤ b ∧ shape b = some m := by
  refine searchAll_induction (motive := fun c ms => ∀ m ∈ ms, ∃ b, c ≤ b ∧ shape b = some m) hmoves
    (fun c _ _ => nofun) (fun c x xs _ hrest ih => ?_) (fun c a d hc hlt ih => ?_) c
  · intro m hm
    obtain ⟨b, hb, hmatch⟩ := ih m hm
    exact ⟨b, (le_step hrest).trans hb, hmatch⟩
  · intro m hm
    rcases List.mem_cons.1 hm with rfl | hm
    · exact ⟨c, le_rfl, hc⟩
    · obtain ⟨b, hb, hmatch⟩ := ih m hm
      exact ⟨b, hlt.le.trans hb, hmatch⟩

/-- Each match starts at or behind the end of those before it. -/
theorem pairwise_searchAll (hmoves : Moves shape) (c : Cursor) :
    (searchAll shape c).Pairwise fun m m' => ∃ b, m.2 ≤ b ∧ shape b = some m' := by
  refine searchAll_induction
    (motive := fun _ ms => ms.Pairwise fun m m' => ∃ b, m.2 ≤ b ∧ shape b = some m') hmoves
    (fun c _ _ => .nil) (fun c x xs _ _ ih => ih) (fun c a d _ _ ih => ?_) c
  exact List.pairwise_cons.2 ⟨mem_searchAll hmoves d, ih⟩

/-- A search goes on behind a match as one that begins there. -/
theorem searchAll_behind (hmoves : Moves shape) {front rest : List (α × Cursor)} {m : α × Cursor}
    (h : searchAll shape c = front ++ m :: rest) : searchAll shape m.2 = rest := by
  refine searchAll_induction (motive := fun _ ms => ∀ front, ms = front ++ m :: rest →
    searchAll shape m.2 = rest) hmoves ?_ (fun c x xs _ _ ih => ih) ?_ c front h
  · intro c _ _ front h
    cases (List.append_eq_nil_iff.1 h.symm).2
  · intro c a d _ _ ih front h
    cases front with
    | nil =>
      obtain ⟨rfl, hrest⟩ := List.cons.inj h
      exact hrest
    | cons m' front => exact ih front (List.cons.inj h).2

/-- What a search finds first is the first match there is. -/
theorem exists_first (hmoves : Moves shape) {m : α × Cursor} {ms : List (α × Cursor)}
    (h : searchAll shape c = m :: ms) :
    ∃ b, c ≤ b ∧ shape b = some m ∧ ∀ e, c ≤ e → e < b → shape e = none := by
  revert h
  refine searchAll_induction (motive := fun c found => found = m :: ms →
    ∃ b, c ≤ b ∧ shape b = some m ∧ ∀ e, c ≤ e → e < b → shape e = none) hmoves ?_ ?_ ?_ c
  · exact fun c _ _ => nofun
  · intro c x xs hnone hrest ih h
    obtain ⟨b, hb, hmatch, hbefore⟩ := ih h
    refine ⟨b, (le_step hrest).trans hb, hmatch, fun e he heb => ?_⟩
    rcases eq_or_lt_of_le he with rfl | hlt
    · exact hnone
    · exact hbefore e (step_le_of_lt hrest hlt) heb
  · intro c a d hmatch _ _ h
    obtain ⟨rfl, -⟩ := List.cons.inj h
    exact ⟨c, le_rfl, hmatch, fun e he hec => absurd hec (not_lt_of_ge he)⟩

/-- A search passes over what has no match. -/
theorem searchAll_of_none (hcb : c ≤ b) (hnone : ∀ e, c ≤ e → e < b → shape e = none) :
    searchAll shape c = searchAll shape b := by
  obtain ⟨n, rfl⟩ := hcb
  induction n generalizing c with
  | zero => rfl
  | succ n ih =>
    cases hrest : c.rest with
    | nil => rw [skip_of_rest_nil hrest]
    | cons x xs =>
      have hlt : c < c.skip (n + 1) := skip_lt n.succ_pos (hrest ▸ List.cons_ne_nil x xs)
      rw [searchAll_of_step (hnone c le_rfl hlt) hrest]
      rw [skip_succ hrest] at hnone ⊢
      exact ih fun e he => hnone e ((le_step hrest).trans he)

/-- Up to a match the search goes on where there is none. -/
theorem lt_of_not_matched {m : α × Cursor} (hcb : c ≤ b) (hb : shape b = some m)
    (hnone : shape c = none) : c < b := by
  rcases eq_or_lt_of_le hcb with rfl | hlt
  · rw [hb] at hnone
    cases hnone
  · exact hlt

/-- A search finds a match if none that starts before it runs into it. -/
theorem mem_searchAll_of_clear (hmoves : Moves shape) {m : α × Cursor} (hcb : c ≤ b)
    (hb : shape b = some m)
    (hclear : ∀ e a d, c ≤ e → e < b → shape e = some (a, d) → d ≤ b) : m ∈ searchAll shape c := by
  revert hcb hclear
  refine searchAll_induction (motive := fun c ms => c ≤ b →
    (∀ e a d, c ≤ e → e < b → shape e = some (a, d) → d ≤ b) → m ∈ ms) hmoves ?_ ?_ ?_ c
  · intro c hnone hrest hcb _
    exact absurd (lt_of_not_matched hcb hb hnone) (not_lt_of_rest_nil hrest)
  · intro c x xs hnone hrest ih hcb hclear
    have hlt := lt_of_not_matched hcb hb hnone
    exact ih (step_le_of_lt hrest hlt) fun e a d he => hclear e a d ((le_step hrest).trans he)
  · intro c a d hmatch hlt ih hcb hclear
    rcases eq_or_lt_of_le hcb with rfl | hcb'
    · rw [hb] at hmatch
      cases hmatch
      exact List.mem_cons_self
    · have hdb := hclear c a d le_rfl hcb' hmatch
      exact List.mem_cons_of_mem _ (ih hdb fun e a d he => hclear e a d (hlt.le.trans he))

/-- Where matches stand apart, a search finds every one of them. -/
theorem mem_searchAll_of_match (hmoves : Moves shape) (hseparate : Separate shape) {m : α × Cursor}
    (hcb : c ≤ b) (hb : shape b = some m) : m ∈ searchAll shape c := by
  refine mem_searchAll_of_clear hmoves hcb hb fun e a d _ hlt hmatch => ?_
  rcases lt_or_le_of_le hlt.le (hmoves e a d hmatch).le with hbd | hdb
  · rw [hseparate e a d b hmatch hlt hbd] at hb
    cases hb
  · exact hdb

end PipelineLang.Reference
