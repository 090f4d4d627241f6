import PipelineLang.Proofs.Grammar.Spelling

/-!
# Copies of a name in a text

A name is fenced in where the characters before and behind it can be none of the name. Copies of one
name of which one is fenced in are the same or share no character (`Span.Fenced.sameOrApart`).
-/

namespace PipelineLang

open Utf8 Cursor

namespace Span

/-- The spans are the same, or no character is under both. -/
def SameOrApart (s t : Span) : Prop := s = t ∨ s.stop ≤ t.start ∨ t.stop ≤ s.start

theorem SameOrApart.symm {s t : Span} (h : s.SameOrApart t) : t.SameOrApart s :=
  h.imp Eq.symm Or.symm

/-- Neither the character before the span nor the one behind it satisfies `p`. -/
def Fenced (p : Char → Bool) (document : List Char) (s : Span) : Prop :=
  ∃ front run back, document = front ++ run ++ back ∧
    s = ⟨byteLength front, byteLength (front ++ run)⟩ ∧ front.getLast?.any p = false ∧
    back.head?.any p = false

/-- The cursors of a document at the ends of a piece of it. -/
theorem exists_cursors (front run back : List Char) : ∃ x y,
    Between (Cursor.start 0 (front ++ run ++ back)) front x ∧ Between x run y ∧ y.rest = back := by
  obtain ⟨x, hx, hrest⟩ := exists_between_of_rest
    (c := Cursor.start 0 (front ++ run ++ back)) (List.append_assoc front run back)
  obtain ⟨y, hy, hback⟩ := exists_between_of_rest hrest
  exact ⟨x, y, hx, hy, hback⟩

/-- **Copies of a name share no character.** If all characters of the name satisfy `p` and one copy is
fenced in, another copy is the same or lies apart. -/
theorem Fenced.sameOrApart {p : Char → Bool} {document run : List Char} {s t : Span}
    (h : s.Fenced p document) (hs : s.Spells document run) (ht : t.Spells document run)
    (hrun : ∀ x ∈ run, p x = true) : s.SameOrApart t := by
  obtain ⟨front, run', back, hdocument, rfl, hfront, hback⟩ := h
  obtain ⟨front', run'', back', hdocument', rfl⟩ := ht.exists_run
  have hrun' : run' = run := by
    rw [← hs.text_eq, hdocument]
    exact (spells_append front run' back).text_eq.symm
  have hrun'' : run'' = run := by
    rw [← ht.text_eq, hdocument']
    exact (spells_append front' run'' back').text_eq.symm
  subst hrun' hrun''
  obtain ⟨x, y, hx, hxy, hy⟩ := exists_cursors front run'' back
  obtain ⟨a, b, ha, hab, -⟩ := exists_cursors front' run'' back'
  rw [← hdocument] at hx
  rw [← hdocument'] at ha
  have hxoffset := hx.offset_eq
  have haoffset := ha.offset_eq
  rw [Cursor.start, Nat.zero_add] at hxoffset haoffset
  rw [byteLength_append, byteLength_append, ← hxoffset, ← haoffset, ← hxy.offset_eq, ← hab.offset_eq]
  by_contra hnot
  simp only [SameOrApart, not_or, Nat.not_le] at hnot
  obtain ⟨hne, hay, hxb⟩ := hnot
  rcases lt_trichotomy_of_le hx.le ha.le with hlt | rfl | hlt
  · -- the character behind the first copy is one of the second
    have hya : a ≤ y := le_of_offset_le ha.le (hx.trans hxy).le (Nat.le_of_lt hay)
    have hyb : y < b := by
      refine lt_of_offset_lt (hx.trans hxy).le (ha.trans hab).le ?_
      rw [hxy.offset_eq, hab.offset_eq]
      exact Nat.add_lt_add_right (offset_lt hlt) _
    rw [← hy, ← peek, hab.peek_any hrun hya hyb] at hback
    cases hback
  · exact hne (by rw [hxy.offset_eq, hab.offset_eq])
  · -- the character before the first copy is one of the second
    have hxb' : x ≤ b := le_of_offset_le hx.le (ha.trans hab).le (Nat.le_of_lt hxb)
    have hbefore := hab.before_any hrun hlt hxb'
    rw [hx.before_eq, Cursor.start, Option.or_none, hfront] at hbefore
    cases hbefore

end Span
end PipelineLang
