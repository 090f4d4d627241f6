import PipelineLang.Proofs.Grammar.Spelling
import PipelineLang.Source.Position

/-!
# Offsets and positions

An offset stands for the whole characters before it (`splitFloor_append`), so a larger offset has
more of the text before it (`splitFloor_prefix`), and its position is not before that of a smaller
one (`ofOffset_le`). Offsets between characters that have the same position are the same
(`ofOffset_inj`), so between characters a larger offset is at a later position (`ofOffset_lt`).
-/

namespace PipelineLang

open Utf8

namespace Utf8

theorem splitFloor_append (n : Nat) (cs : List Char) :
    (splitFloor n cs).1 ++ (splitFloor n cs).2 = cs := by
  induction cs generalizing n with
  | nil => rfl
  | cons c cs ih =>
    rw [splitFloor]
    split
    · rw [List.cons_append, ih]
    · rfl

theorem byteLength_splitFloor_le (n : Nat) (cs : List Char) :
    byteLength (splitFloor n cs).1 ≤ n := by
  induction cs generalizing n with
  | nil => exact Nat.zero_le n
  | cons c cs ih =>
    rw [splitFloor]
    split
    · next hle =>
      have := ih (n - c.utf8Size)
      rw [byteLength]
      omega
    · exact Nat.zero_le n

/-- Whatever front of the text ends at the offset or before it is a front of what stands before the
offset. -/
theorem prefix_splitFloor {n : Nat} {front : List Char} (back : List Char)
    (h : byteLength front ≤ n) :
    front <+: (splitFloor n (front ++ back)).1 := by
  induction front generalizing n with
  | nil => exact List.nil_prefix
  | cons c front ih =>
    rw [byteLength] at h
    rw [List.cons_append, splitFloor, if_pos (by omega)]
    exact List.cons_prefix_cons.2 ⟨rfl, ih (by omega)⟩

/-- More of a text stands before a larger offset. -/
theorem splitFloor_prefix {m n : Nat} (h : m ≤ n) (cs : List Char) :
    (splitFloor m cs).1 <+: (splitFloor n cs).1 := by
  have hle := Nat.le_trans (byteLength_splitFloor_le m cs) h
  have hfloor := prefix_splitFloor (splitFloor m cs).2 hle
  rwa [splitFloor_append] at hfloor

/-- A place between characters that is not behind the offset is not behind its characters. -/
theorem le_byteLength_splitFloor {b n : Nat} {cs : List Char} (hb : IsBoundary cs b) (h : b ≤ n) :
    b ≤ byteLength (splitFloor n cs).1 := by
  obtain ⟨front, back, rfl, rfl⟩ := hb
  obtain ⟨tail, htail⟩ := prefix_splitFloor back h
  rw [← htail, byteLength_append]
  exact Nat.le_add_right ..

theorem splitFloor_byteLength (front back : List Char) :
    (splitFloor (byteLength front) (front ++ back)).1 = front := by
  obtain ⟨tail, htail⟩ := prefix_splitFloor back (Nat.le_refl (byteLength front))
  have hle := byteLength_splitFloor_le (byteLength front) (front ++ back)
  rw [← htail, byteLength_append] at hle
  cases tail with
  | nil => rw [← htail, List.append_nil]
  | cons x xs =>
    have := byteLength_pos (List.cons_ne_nil x xs)
    omega

end Utf8

theorem IsBoundary.byteLength_splitFloor {cs : List Char} {n : Nat} (h : IsBoundary cs n) :
    byteLength (splitFloor n cs).1 = n := by
  obtain ⟨front, back, rfl, rfl⟩ := h
  rw [splitFloor_byteLength]

namespace Lines

/-- The characters since the last line feed stand behind it, or behind nothing. -/
theorem exists_append_last (text : List Char) :
    ∃ pre, text = pre ++ last text ∧ (∀ x ∈ pre.getLast?, x = '\n') ∧ '\n' ∉ last text := by
  refine ⟨(text.reverse.dropWhile (· != '\n')).reverse, ?_, fun x hx => ?_, fun hmem => ?_⟩
  · rw [last, ← List.reverse_append, List.takeWhile_append_dropWhile, List.reverse_reverse]
  · rw [List.getLast?_reverse] at hx
    have hhead := List.head?_dropWhile_not (· != '\n') text.reverse
    rw [hx] at hhead
    simpa using hhead
  · rw [last, List.mem_reverse] at hmem
    have := List.all_eq_true.1 List.all_takeWhile _ hmem
    simp at this

/-- Without a line feed the last line goes on. -/
theorem last_append {line : List Char} (h : '\n' ∉ line) (text : List Char) :
    last (text ++ line) = last text ++ line := by
  have hall : ∀ x ∈ line.reverse, (x != '\n') = true := by
    intro x hx
    refine bne_iff_ne.2 fun hnewline => h ?_
    rwa [← hnewline, ← List.mem_reverse]
  rw [last, List.reverse_append, List.takeWhile_append_of_pos hall, List.reverse_append,
    List.reverse_reverse, last]

theorem last_concat (text : List Char) (x : Char) :
    last (text ++ [x]) = if x = '\n' then [] else last text ++ [x] := by
  by_cases hx : x = '\n'
  · simp [last, hx]
  · rw [if_neg hx, last_append (by simpa using Ne.symm hx)]

/-- With more of a text comes a later line, or more of the same line. -/
theorem count_lt_or_last_append (text run : List Char) :
    text.count '\n' < (text ++ run).count '\n' ∨
      text.count '\n' = (text ++ run).count '\n' ∧ last (text ++ run) = last text ++ run := by
  rw [List.count_append]
  by_cases hnewline : '\n' ∈ run
  · exact Or.inl (Nat.lt_add_of_pos_right (List.count_pos_iff.2 hnewline))
  · rw [List.count_eq_zero.2 hnewline]
    exact Or.inr ⟨rfl, last_append hnewline text⟩

end Lines

theorem eq_nil_of_units16 {cs : List Char} (h : units16 cs = 0) : cs = [] := by
  cases cs with
  | nil => rfl
  | cons c cs =>
    rw [units16] at h
    split at h
    · omega
    · omega

theorem units16_append (xs ys : List Char) : units16 (xs ++ ys) = units16 xs + units16 ys := by
  induction xs with
  | nil => simp [units16]
  | cons x xs ih => simp only [List.cons_append, units16, ih, Nat.add_assoc]

namespace Position

/-- The order of positions in a document. -/
def le (p q : Position) : Prop := p.line < q.line ∨ p.line = q.line ∧ p.character ≤ q.character

/-- A larger offset is not at an earlier position. -/
theorem ofOffset_le {m n : Nat} (h : m ≤ n) (text : List Char) :
    (ofOffset text m).le (ofOffset text n) := by
  obtain ⟨run, hrun⟩ := splitFloor_prefix h text
  simp only [ofOffset, ← hrun, Position.le]
  rcases Lines.count_lt_or_last_append (splitFloor m text).1 run with hline | ⟨hline, hlast⟩
  · exact Or.inl hline
  · rw [hlast, units16_append]
    exact Or.inr ⟨hline, Nat.le_add_right ..⟩

/-- Different places between characters have different positions. -/
theorem ofOffset_inj {text : List Char} {m n : Nat} (hm : IsBoundary text m)
    (hn : IsBoundary text n) (h : ofOffset text m = ofOffset text n) : m = n := by
  have hdirect {m n : Nat} (hm : IsBoundary text m) (hn : IsBoundary text n) (hle : m ≤ n)
      (h : ofOffset text m = ofOffset text n) : m = n := by
    obtain ⟨run, hrun⟩ := splitFloor_prefix hle text
    simp only [ofOffset, ← hrun, List.count_append, Position.mk.injEq] at h
    obtain ⟨hline, hcharacter⟩ := h
    have hnewline : '\n' ∉ run := List.count_eq_zero.1 (by omega)
    rw [Lines.last_append hnewline, units16_append] at hcharacter
    have hnil : run = [] := eq_nil_of_units16 (by omega)
    rw [hnil, List.append_nil] at hrun
    rw [← hm.byteLength_splitFloor, ← hn.byteLength_splitFloor, hrun]
  rcases Nat.le_total m n with hle | hle
  · exact hdirect hm hn hle h
  · exact (hdirect hn hm hle h.symm).symm

/-- The strict order of positions in a document. -/
def lt (p q : Position) : Prop := p.line < q.line ∨ p.line = q.line ∧ p.character < q.character

theorem le.lt_of_ne {p q : Position} (h : p.le q) (hne : p ≠ q) : p.lt q := by
  rcases h with hline | ⟨hline, hcharacter⟩
  · exact Or.inl hline
  · have hcharacters (heq : p.character = q.character) : False :=
      hne (congrArg₂ Position.mk hline heq)
    exact Or.inr ⟨hline, Nat.lt_of_le_of_ne hcharacter hcharacters⟩

/-- Of places between characters, the one behind has the later position. -/
theorem ofOffset_lt {text : List Char} {m n : Nat} (hm : IsBoundary text m)
    (hn : IsBoundary text n) (h : m < n) : (ofOffset text m).lt (ofOffset text n) :=
  (ofOffset_le (Nat.le_of_lt h) text).lt_of_ne fun heq =>
    Nat.ne_of_lt h (ofOffset_inj hm hn heq)

end Position

/-- Spans of a text with the same range are the same. -/
theorem Range.ofSpan_inj {text : List Char} {s t : Span} (hs : s.Fits text) (ht : t.Fits text)
    (h : ofSpan text s = ofSpan text t) : s = t := by
  obtain ⟨hstart, hstop⟩ := Range.mk.inj h
  have hstart := Position.ofOffset_inj hs.start_boundary ht.start_boundary hstart
  have hstop := Position.ofOffset_inj hs.stop_boundary ht.stop_boundary hstop
  cases s
  cases t
  simp_all only

end PipelineLang
