import Mathlib.Data.List.Forall2
import Mathlib.Data.List.TakeWhile
import PipelineLang.Proofs.Grammar.Reading
import PipelineLang.Proofs.Grammar.Retext
import PipelineLang.Text.Lines

/-!
# Reading across line ends

A text is read beside the same text with a carriage return in front of each line feed. The two
cursors are `Level` where they stand at the same place of a line. At the end of a line the second
one may already be behind the carriage return: that is all `Abreast` adds, and layout makes the
cursors level again. What is read at cursors that are abreast is `Alike`: the same but for the
places, with the carriage returns in each text that runs over the end of a line.
-/

namespace PipelineLang

/-! ## Texts with carriage returns -/

namespace Lines

/-- The text with a carriage return in front of each line feed. -/
def withReturns (text : List Char) : List Char :=
  text.flatMap fun x => if x = '\n' then ['\r', '\n'] else [x]

variable {text run word : List Char} {p : Char → Bool}

theorem withReturns_lineFeed (xs : List Char) :
    withReturns ('\n' :: xs) = '\r' :: '\n' :: withReturns xs := rfl

theorem withReturns_cons {x : Char} (hx : x ≠ '\n') (xs : List Char) :
    withReturns (x :: xs) = x :: withReturns xs := by
  rw [withReturns, List.flatMap_cons, if_neg hx]
  rfl

theorem withReturns_append (xs ys : List Char) :
    withReturns (xs ++ ys) = withReturns xs ++ withReturns ys := List.flatMap_append

theorem withReturns_of_not_mem (h : '\n' ∉ text) : withReturns text = text := by
  induction text with
  | nil => rfl
  | cons x xs ih =>
    rw [List.mem_cons, not_or] at h
    rw [withReturns_cons (Ne.symm h.1), ih h.2]

theorem mem_withReturns (h : '\n' ∈ text) : '\n' ∈ withReturns text := by
  obtain ⟨front, back, rfl⟩ := List.append_of_mem h
  rw [withReturns_append, withReturns_lineFeed]
  simp

/-- A text becomes a text of one line only if it is that text. -/
theorem withReturns_eq_iff (hword : '\n' ∉ word) : withReturns text = word ↔ text = word := by
  constructor
  · rintro rfl
    exact (withReturns_of_not_mem fun h => hword (mem_withReturns h)).symm
  · rintro rfl
    exact withReturns_of_not_mem hword

/-- A class that makes no difference between the two characters of a line end takes both or
neither. -/
theorem takeWhile_withReturns (hp : p '\r' = p '\n') (text : List Char) :
    (withReturns text).takeWhile p = withReturns (text.takeWhile p) := by
  induction text with
  | nil => rfl
  | cons x xs ih =>
    by_cases hx : x = '\n'
    · subst hx
      rw [withReturns_lineFeed, List.takeWhile_cons, List.takeWhile_cons, List.takeWhile_cons, hp,
        ih]
      cases p '\n' <;> rfl
    · rw [withReturns_cons hx, List.takeWhile_cons, List.takeWhile_cons, ih]
      cases p x with
      | false => rfl
      | true => exact (withReturns_cons hx _).symm

theorem not_mem_takeWhile (hp : p '\n' = false) (text : List Char) : '\n' ∉ text.takeWhile p := by
  intro h
  rw [List.mem_takeWhile_imp h] at hp
  cases hp

/-- The text as a string. -/
def returned (s : String) : String := String.ofList (withReturns s.toList)

theorem returned_ofList (cs : List Char) :
    returned (String.ofList cs) = String.ofList (withReturns cs) := by
  rw [returned, String.toList_ofList]

theorem returned_append (s t : String) : returned (s ++ t) = returned s ++ returned t := by
  rw [returned, String.toList_append, withReturns_append, String.ofList_append]
  rfl

theorem returned_eq_iff {s w : String} (hw : '\n' ∉ w.toList) : returned s = w ↔ s = w := by
  rw [returned, ← String.toList_inj, String.toList_ofList, withReturns_eq_iff hw, String.toList_inj]

theorem returned_of_not_mem {s : String} (h : '\n' ∉ s.toList) : returned s = s :=
  (returned_eq_iff h).2 rfl

end Lines

/-- A text without carriage returns and without a backslash in front of a line feed. -/
structure HasPlainEnds (text : List Char) : Prop where
  noReturn : '\r' ∉ text
  noSplice : ¬ ['\\', '\n'] <:+: text

theorem HasPlainEnds.suffix {text tail : List Char} (h : HasPlainEnds text) (hs : tail <:+ text) :
    HasPlainEnds tail :=
  ⟨fun hmem => h.noReturn (hs.subset hmem), fun hin => h.noSplice (hin.trans hs.isInfix)⟩

/-- White characters at the end make no difference to the trimmed text. -/
theorem Blank.trimEnd_concat {x : Char} (hx : isWhite x = true) (cs : List Char) :
    trimEnd (cs ++ [x]) = trimEnd cs := by
  induction cs with
  | nil => rw [List.nil_append, trimEnd, trimEnd]; exact if_pos hx
  | cons c cs ih => rw [List.cons_append, trimEnd, trimEnd, ih]

/-! ## Cursors beside one another -/

namespace Cursor

open Lines

/-- The same place in a text and in the text with carriage returns. -/
structure Level (c c' : Cursor) : Prop where
  rest : c'.rest = withReturns c.rest
  column : c'.column = c.column
  plain : HasPlainEnds c.rest

/-- Level, or in front of a line feed, where the second cursor is behind the carriage return. -/
def Abreast (c c' : Cursor) : Prop :=
  Level c c' ∨
    HasPlainEnds c.rest ∧ ∃ xs, c.rest = '\n' :: xs ∧ c'.rest = '\n' :: withReturns xs

variable {c c' d d' : Cursor} {x : Char} {xs run word : List Char} {p q : Char → Bool}

theorem Abreast.plain (h : Abreast c c') : HasPlainEnds c.rest := h.elim Level.plain And.left

theorem Level.rest_cons (h : Level c c') (hc : c.rest = x :: xs) (hx : x ≠ '\n') :
    c'.rest = x :: withReturns xs := by
  rw [h.rest, hc, withReturns_cons hx]

theorem Level.rest_lineFeed (h : Level c c') (hc : c.rest = '\n' :: xs) :
    c'.rest = '\r' :: '\n' :: withReturns xs := by
  rw [h.rest, hc, withReturns_lineFeed]

theorem Level.step (h : Level c c') (hc : c.rest = x :: xs) (hx : x ≠ '\n') :
    Level (c.step x xs) (c'.step x (withReturns xs)) where
  rest := rfl
  column := by rw [Cursor.step, Cursor.step, if_neg hx, if_neg hx, h.column]
  plain := h.plain.suffix (rest_suffix (le_step hc))

/-- Behind a line feed cursors are level, wherever on the line they came from. -/
theorem level_lineFeed (c d : Cursor) (h : HasPlainEnds xs) :
    Level (c.step '\n' xs) (d.step '\n' (withReturns xs)) := ⟨rfl, rfl, h⟩

theorem Level.skip (h : Level c c') (n : Nat) :
    Level (c.skip n) (c'.skip (withReturns (c.rest.take n)).length) := by
  induction n generalizing c c' with
  | zero => exact h
  | succ n ih =>
    cases hc : c.rest with
    | nil =>
      rw [skip_of_rest_nil hc, List.take_nil]
      exact h
    | cons x xs =>
      rw [skip_succ hc, List.take_succ_cons]
      by_cases hx : x = '\n'
      · subst hx
        have hxs : HasPlainEnds xs := h.plain.suffix (rest_suffix (le_step hc))
        rw [withReturns_lineFeed, List.length_cons, List.length_cons,
          skip_succ (h.rest_lineFeed hc), skip_succ rfl]
        exact ih (level_lineFeed _ _ hxs)
      · rw [withReturns_cons hx, List.length_cons, skip_succ (h.rest_cons hc hx)]
        exact ih (h.step hc hx)

/-- Cursors stay abreast over a run that does not leave the line. -/
theorem Abreast.skip (h : Abreast c c') (hrun : run <+: c.rest) (hend : '\n' ∉ run) :
    Abreast (c.skip run.length) (c'.skip run.length) := by
  rcases h with h | ⟨hplain, xs, hc, hc'⟩
  · have hskip := h.skip run.length
    rw [← List.prefix_iff_eq_take.1 hrun, withReturns_of_not_mem hend] at hskip
    exact Or.inl hskip
  · have hnil : run = [] := by
      cases run with
      | nil => rfl
      | cons y ys =>
        rw [hc, List.cons_prefix_cons] at hrun
        exact absurd (List.mem_cons.2 (Or.inl hrun.1.symm)) hend
    subst hnil
    exact Or.inr ⟨hplain, xs, hc, hc'⟩

/-! ## Looking ahead -/

theorem Abreast.peek_cases (h : Abreast c c') :
    c'.peek = c.peek ∨ c.peek = some '\n' ∧ c'.peek = some '\r' := by
  rw [peek, peek]
  rcases h with h | ⟨-, xs, hc, hc'⟩
  · cases hc : c.rest with
    | nil => rw [h.rest, hc]; exact Or.inl rfl
    | cons x xs =>
      by_cases hx : x = '\n'
      · subst hx
        rw [h.rest_lineFeed hc]
        exact Or.inr ⟨rfl, rfl⟩
      · rw [h.rest_cons hc hx]
        exact Or.inl rfl
  · rw [hc, hc']
    exact Or.inl rfl

theorem Abreast.peek_any (h : Abreast c c') (hq : q '\r' = q '\n') :
    c'.peek.any q = c.peek.any q := by
  rcases h.peek_cases with heq | ⟨hc, hc'⟩
  · rw [heq]
  · rw [hc, hc']
    exact hq

theorem Abreast.peek_all (h : Abreast c c') (hq : q '\r' = q '\n') :
    c'.peek.all q = c.peek.all q := by
  rcases h.peek_cases with heq | ⟨hc, hc'⟩
  · rw [heq]
  · rw [hc, hc']
    exact hq

theorem Abreast.peek_eq_some_iff (h : Abreast c c') (hx : Blank.isLayout x = false) :
    c'.peek = some x ↔ c.peek = some x := by
  rcases h.peek_cases with heq | ⟨hc, hc'⟩
  · rw [heq]
  · rw [hc, hc']
    constructor
    · rintro ⟨⟩
      cases hx
    · rintro ⟨⟩
      cases hx

theorem Abreast.atTokenEnd (h : Abreast c c') : c'.atTokenEnd = c.atTokenEnd := h.peek_all rfl

theorem atEnd_eq (c : Cursor) : c.atEnd = c.peek.isNone := by
  rw [atEnd, peek]
  cases c.rest <;> rfl

theorem Abreast.atEnd (h : Abreast c c') : c'.atEnd = c.atEnd := by
  rw [atEnd_eq, atEnd_eq]
  rcases h.peek_cases with heq | ⟨hc, hc'⟩
  · rw [heq]
  · rw [hc, hc']
    rfl

/-! ## Runs of a line -/

theorem Abreast.takeWhile_rest (h : Abreast c c') (hr : p '\r' = false) (hn : p '\n' = false) :
    c'.rest.takeWhile p = c.rest.takeWhile p := by
  rcases h with h | ⟨-, xs, hc, hc'⟩
  · rw [h.rest, takeWhile_withReturns (hr.trans hn.symm),
      withReturns_of_not_mem (not_mem_takeWhile hn c.rest)]
  · rw [hc, hc', List.takeWhile_cons_of_neg (by rw [hn]; exact Bool.false_ne_true),
      List.takeWhile_cons_of_neg (by rw [hn]; exact Bool.false_ne_true)]

theorem Abreast.skipWhile (h : Abreast c c') (hr : p '\r' = false) (hn : p '\n' = false) :
    Abreast (c.skipWhile p) (c'.skipWhile p) := by
  rw [Cursor.skipWhile, Cursor.skipWhile, h.takeWhile_rest hr hn]
  exact h.skip (List.takeWhile_prefix p) (not_mem_takeWhile hn c.rest)

theorem Abreast.blanks (h : Abreast c c') : Abreast c.blanks c'.blanks := h.skipWhile rfl rfl

/-- The span of a run is empty where the run is. -/
theorem isEmpty_span_takeWhile (p : Char → Bool) (c : Cursor) :
    (c.takeWhile p).1.span.isEmpty = (c.rest.takeWhile p).isEmpty := by
  cases hc : c.rest with
  | nil => rw [takeWhile, hc]; exact beq_self_eq_true _
  | cons x xs =>
    cases hx : p x with
    | true => rw [span_takeWhile_cons hc hx, List.takeWhile_cons_of_pos hx]; rfl
    | false =>
      rw [takeWhile, hc, List.takeWhile_cons_of_neg (by rw [hx]; exact Bool.false_ne_true)]
      exact beq_self_eq_true _

/-! ## Layout -/

theorem Level.layout_go {text : List Char} (comment : Bool) (h : Level c c')
    (hc : c.rest = text) :
    Level (layout.go comment text c) (layout.go comment (withReturns text) c') := by
  induction text generalizing comment c c' with
  | nil => exact h
  | cons x xs ih =>
    by_cases hx : x = '\n'
    · -- in a comment or not, both characters of the line end are walked over, and the line feed
      -- closes the comment
      subst hx
      have hxs : HasPlainEnds xs := h.plain.suffix (rest_suffix (le_step hc))
      have hend := ih false (level_lineFeed c (c'.step '\r' ('\n' :: withReturns xs)) hxs) rfl
      rw [withReturns_lineFeed]
      cases comment <;> exact hend
    · have hstep (later : Bool) := ih later (h.step hc hx) rfl
      rw [withReturns_cons hx, layout.go, layout.go]
      split
      · exact hstep true
      · split
        · exact hstep false
        · split
          · exact hstep true
          · exact h

/-- Behind layout cursors are level. -/
theorem Abreast.layout (h : Abreast c c') : Level c.layout c'.layout := by
  rcases h with h | ⟨hplain, xs, hc, hc'⟩
  · rw [Cursor.layout, Cursor.layout, h.rest]
    exact h.layout_go false rfl
  · have hxs : HasPlainEnds xs := hplain.suffix (rest_suffix (le_step hc))
    rw [layout_cons hc rfl, layout_cons hc' rfl]
    exact (level_lineFeed _ _ hxs).layout_go false rfl

/-! ## Lines -/

/-- Where a line ends with a line feed. -/
theorem line_append (hc : c.rest = run ++ '\n' :: xs) (hrun : '\n' ∉ run) :
    c.line = run ∧ c.lineEnd.rest = '\n' :: xs := by
  have hline : c.line = run := by
    rw [line, hc, takeWhile_of_head]
    · exact fun x hx => bne_iff_ne.2 fun heq => hrun (heq ▸ hx)
    · rintro x ⟨⟩
      rfl
  have hend := rest_lineEnd c
  rw [hline, hc] at hend
  exact ⟨hline, (List.append_cancel_left hend).symm⟩

/-- The carriage return of a line end is the last character of its line. -/
theorem Abreast.line_cases (h : Abreast c c') :
    (c'.line = c.line ∨ c'.line = c.line ++ ['\r']) ∧ Abreast c.lineEnd c'.lineEnd := by
  have hsame (hline : c'.line = c.line) : Abreast c.lineEnd c'.lineEnd := by
    rw [Cursor.lineEnd, Cursor.lineEnd, hline]
    exact h.skip (List.takeWhile_prefix _) (not_mem_takeWhile rfl c.rest)
  rcases h with h | ⟨-, xs, hc, hc'⟩
  · by_cases hend : '\n' ∈ c.rest
    · obtain ⟨run, xs, hc, hrun⟩ := List.eq_append_cons_of_mem hend
      have hc' : c'.rest = (run ++ ['\r']) ++ '\n' :: withReturns xs := by
        rw [h.rest, hc, withReturns_append, withReturns_of_not_mem hrun, withReturns_lineFeed,
          List.append_assoc]
        rfl
      have hrun' : '\n' ∉ run ++ ['\r'] := by simpa using hrun
      obtain ⟨hline, hrest⟩ := line_append hc hrun
      obtain ⟨hline', hrest'⟩ := line_append hc' hrun'
      have hplain : HasPlainEnds c.lineEnd.rest := h.plain.suffix (rest_suffix (le_lineEnd c))
      exact ⟨Or.inr (by rw [hline, hline']), Or.inr ⟨hplain, xs, hrest, hrest'⟩⟩
    · have hline : c'.line = c.line := by rw [line, h.rest, withReturns_of_not_mem hend]; rfl
      exact ⟨Or.inl hline, hsame hline⟩
  · have hline : c'.line = c.line := by rw [line, line, hc, hc']; rfl
    exact ⟨Or.inl hline, hsame hline⟩

theorem Abreast.lineEnd (h : Abreast c c') : Abreast c.lineEnd c'.lineEnd := h.line_cases.2

theorem Abreast.trimEnd_line (h : Abreast c c') :
    Blank.trimEnd c'.line = Blank.trimEnd c.line := by
  rcases h.line_cases.1 with heq | heq
  · rw [heq]
  · rw [heq, Blank.trimEnd_concat (by decide)]

end Cursor
end PipelineLang
