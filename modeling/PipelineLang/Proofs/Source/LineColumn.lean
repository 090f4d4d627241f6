import Mathlib.Data.List.Induction
import PipelineLang.Proofs.Source.RoundTrip
import PipelineLang.Source.LineColumn

/-!
# Lines and columns, and positions

A printed report counts off the characters before an offset, one after another and from one at the
start of each line (`ofOffset_eq_foldl`); an editor looks for the line and counts its UTF-16 units.
At the start of a character, and behind the text, both describe one cut of the text, so they give the
same line, and columns that differ by the characters of two units (`places_agree`).
-/

namespace PipelineLang

open Utf8 Reference

/-! ## Offsets behind the text -/

namespace Utf8

theorem splitFloor_min (n : Nat) (cs : List Char) :
    splitFloor (min n (byteLength cs)) cs = splitFloor n cs := by
  induction cs generalizing n with
  | nil => rfl
  | cons c cs ih =>
    rw [splitFloor, splitFloor, byteLength]
    by_cases hle : c.utf8Size ≤ n
    · have hrest : min n (c.utf8Size + byteLength cs) - c.utf8Size
          = min (n - c.utf8Size) (byteLength cs) := by omega
      rw [if_pos hle, if_pos (by omega), hrest, ih]
    · rw [if_neg hle, if_neg (by omega)]

theorem splitCeil_min (n : Nat) (cs : List Char) :
    splitCeil (min n (byteLength cs)) cs = splitCeil n cs := by
  induction cs generalizing n with
  | nil => cases n <;> rfl
  | cons c cs ih =>
    cases n with
    | zero => rw [Nat.zero_min]
    | succ n =>
      have hpos := Char.utf8Size_pos c
      obtain ⟨k, hk⟩ : ∃ k, min (n + 1) (c.utf8Size + byteLength cs) = k + 1 :=
        Nat.exists_eq_add_one_of_ne_zero (by omega)
      have hrest : k + 1 - c.utf8Size = min (n + 1 - c.utf8Size) (byteLength cs) := by omega
      rw [byteLength, hk, splitCeil, splitCeil, hrest, ih]

/-- What covers whole characters are these characters. -/
theorem splitCeil_byteLength (front back : List Char) :
    (splitCeil (byteLength front) (front ++ back)).1 = front := by
  induction front with
  | nil => cases back <;> rfl
  | cons c front ih =>
    have hpos := Char.utf8Size_pos c
    obtain ⟨n, hn⟩ : ∃ n, byteLength (c :: front) = n + 1 :=
      Nat.exists_eq_add_one_of_ne_zero (by rw [byteLength]; omega)
    have hrest : n + 1 - c.utf8Size = byteLength front := by
      rw [byteLength] at hn
      omega
    rw [hn, List.cons_append, splitCeil, hrest]
    exact congrArg (c :: ·) ih

end Utf8

theorem IsBoundary.le_byteLength {text : List Char} {o : Nat} (h : IsBoundary text o) :
    o ≤ byteLength text := by
  obtain ⟨front, back, rfl, rfl⟩ := h
  rw [byteLength_append]
  exact Nat.le_add_right _ _

theorem Position.ofOffset_min (text : List Char) (o : Nat) :
    ofOffset text (min o (byteLength text)) = ofOffset text o := by
  rw [ofOffset, ofOffset, splitFloor_min]

/-! ## Counting characters -/

namespace LineColumn

variable {text pre post : List Char}

theorem ofOffset_min (text : List Char) (o : Nat) :
    ofOffset text (min o (byteLength text)) = ofOffset text o := by
  rw [ofOffset, ofOffset, splitCeil_min]

/-- The place behind one more character. -/
def past (p : LineColumn) (x : Char) : LineColumn :=
  if x = '\n' then ⟨p.line + 1, 1⟩ else ⟨p.line, p.column + 1⟩

/-- What counting comes to: the line feeds, and the characters since the last of them. -/
theorem foldl_past (front : List Char) :
    front.foldl past ⟨1, 1⟩ = ⟨front.count '\n' + 1, (Lines.last front).length + 1⟩ := by
  induction front using List.reverseRecOn with
  | nil => rfl
  | append_singleton front x ih =>
    rw [List.foldl_append, List.foldl_cons, List.foldl_nil, ih, past, Lines.last_concat,
      List.count_append]
    by_cases hx : x = '\n'
    · simp [hx]
    · simp [hx]

/-- The line and column of an offset are what counting off the characters before it comes to. -/
theorem ofOffset_eq_foldl (text : List Char) (o : Nat) :
    ofOffset text o = (splitCeil o text).1.foldl past ⟨1, 1⟩ := (foldl_past _).symm

/-- The place behind a front of a text is what counting off that front comes to. -/
theorem ofOffset_front (front back : List Char) :
    ofOffset (front ++ back) (byteLength front) = front.foldl past ⟨1, 1⟩ := by
  rw [ofOffset_eq_foldl, splitCeil_byteLength]

/-- The line and column of an offset on a line. -/
theorem ofOffset_line {front back : List Char} (h : IsLine text pre (front ++ back) post) :
    ofOffset text (byteLength (pre ++ front)) = ⟨pre.count '\n' + 1, front.length + 1⟩ := by
  rw [h.eq_front, ofOffset, splitCeil_byteLength, h.count_front, h.last_front]

end LineColumn

/-! ## Characters of two units -/

/-- Whether the character takes two units. -/
def isWide (x : Char) : Bool := 0x10000 ≤ x.toNat

theorem units16_eq (cs : List Char) : units16 cs = cs.length + cs.countP isWide := by
  induction cs with
  | nil => rfl
  | cons x xs ih =>
    rw [units16, ih, List.length_cons, List.countP_cons, isWide]
    by_cases hx : x.toNat < 0x10000
    · rw [if_pos hx, if_neg (by simpa using hx)]
      omega
    · rw [if_neg hx, if_pos (by simpa using hx)]
      omega

/-- **Lines and columns agree with positions.** Let an offset be between characters or behind the
text. Its place in a report has the line of its position, counted from one. What stands between the
start of that line and the offset has as many characters as there are columns before the place, and
the position counts one more for each of them that takes two units. So on a line without such
characters both are the same, counted from one and from zero. -/
theorem places_agree (text : List Char) {o : Nat} (h : IsBoundary text o ∨ byteLength text < o) :
    ∃ start line run,
      Position.offset? text ⟨(Position.ofOffset text o).line, 0⟩ = some start ∧
      (text.splitOn '\n')[(Position.ofOffset text o).line]? = some line ∧ run <+: line ∧
      Span.Spells text run ⟨start, min o (byteLength text)⟩ ∧
      (LineColumn.ofOffset text o).line = (Position.ofOffset text o).line + 1 ∧
      (LineColumn.ofOffset text o).column + run.countP isWide
        = (Position.ofOffset text o).character + 1 ∧
      ((∀ x ∈ line, isWide x = false) →
        (LineColumn.ofOffset text o).column = (Position.ofOffset text o).character + 1) := by
  obtain ⟨front, back, rfl, hbytes⟩ : IsBoundary text (min o (byteLength text)) := by
    rcases h with h | h
    · rwa [Nat.min_eq_left h.le_byteLength]
    · rw [Nat.min_eq_right h.le]
      exact ⟨text, [], (List.append_nil text).symm, rfl⟩
  rw [← Position.ofOffset_min, ← LineColumn.ofOffset_min, hbytes]
  obtain ⟨pre, post, hline, hfront⟩ := isLine_around front back
  have hposition := Position.ofOffset_line hline
  have hplace := LineColumn.ofOffset_line hline
  have hspells := Span.spells_append pre (Lines.last front) back
  rw [← hfront] at hposition hplace hspells
  have hstart : Position.offset? (front ++ back) ⟨pre.count '\n', 0⟩ = some (byteLength pre) :=
    (Position.offset?_line hline 0).trans (Position.walk?_of_le le_rfl _ _)
  rw [hposition, hplace]
  refine ⟨_, _, Lines.last front, hstart, Position.getElem?_splitOn hline, List.prefix_append _ _,
    hspells, rfl, ?_, fun hnarrow => ?_⟩
  · rw [units16_eq, Nat.add_right_comm]
  · have hzero : (Lines.last front).countP isWide = 0 :=
      List.countP_eq_zero.2 fun x hx => by simp [hnarrow x (List.mem_append_left _ hx)]
    rw [units16_eq, hzero]
    rfl

/-- A text with a character of two units on its second line. -/
def wideLine : List Char := ['a', '\n', 'b', '😀', 'c']

/-- Behind that character. -/
theorem places_agree_wide : IsBoundary wideLine 7 ∧ Position.ofOffset wideLine 7 = ⟨1, 3⟩ ∧
    LineColumn.ofOffset wideLine 7 = ⟨2, 3⟩ ∧
    ∃ start line run, Position.offset? wideLine ⟨1, 0⟩ = some start ∧
      (wideLine.splitOn '\n')[1]? = some line ∧ run <+: line ∧
      Span.Spells wideLine run ⟨start, 7⟩ ∧ run.countP isWide = 1 := by
  have hboundary : IsBoundary wideLine 7 := ⟨['a', '\n', 'b', '😀'], ['c'], rfl, by decide⟩
  have hposition : Position.ofOffset wideLine 7 = ⟨1, 3⟩ := by decide
  have hplace : LineColumn.ofOffset wideLine 7 = ⟨2, 3⟩ := by decide
  obtain ⟨start, line, run, hstart, hline, hprefix, hspells, -, hcolumn, -⟩ :=
    places_agree wideLine (Or.inl hboundary)
  rw [hposition] at hstart hline hcolumn
  rw [hplace] at hcolumn
  exact ⟨hboundary, hposition, hplace, start, line, run, hstart, hline, hprefix, hspells,
    Nat.add_left_cancel hcolumn⟩

end PipelineLang
