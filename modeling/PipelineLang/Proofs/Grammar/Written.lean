import Mathlib.Data.List.Basic
import PipelineLang.Grammar.Document

/-!
# Writing pipelines

A tree of steps as text, one step or one branch label a line: the labels of a `result` step stand
`width` columns right of it, and the steps of a branch `width` columns right of its label. What can
be written in this way is said by `IsWritable`, and a writable tree holds an even number of
backticks.
-/

namespace PipelineLang

open Cursor

/-! ## Trees without their places -/

mutual
/-- The step with all places in it taken away. -/
def Step.unplaced : Step → Step
  | .call _ name payload _ => .call ⟨0, 0⟩ name payload ⟨0, 0⟩
  | .result _ branches => .result ⟨0, 0⟩ (Branch.unplacedAll branches)
def Branch.unplacedAll : List Branch → List Branch
  | [] => []
  | b :: bs => b.unplaced :: Branch.unplacedAll bs
def Branch.unplaced : Branch → Branch
  | .mk outcome status _ steps => .mk outcome status ⟨0, 0⟩ (Step.unplacedAll steps)
def Step.unplacedAll : List Step → List Step
  | [] => []
  | s :: ss => s.unplaced :: Step.unplacedAll ss
end

/-! ## What can be written -/

/-- An identifier: a letter or `_`, then letters, digits, `_` and `-`. -/
def IsIdentifier (name : String) : Prop :=
  name.toList.head?.any isIdentStart = true ∧ ∀ x ∈ name.toList, isIdentChar x = true

instance (name : String) : Decidable (IsIdentifier name) :=
  decidable_of_iff (name.toList.head?.any isIdentStart = true ∧ name.toList.all isIdentChar = true)
    (and_congr_right fun _ => List.all_eq_true)

theorem IsIdentifier.head {name : String} (h : IsIdentifier name) :
    ∃ x xs, name.toList = x :: xs ∧ isIdentStart x = true := by
  obtain ⟨x, hx, hstart⟩ := (Option.any_eq_true _ _).1 h.1
  obtain ⟨xs, hname⟩ := List.head?_eq_some_iff.1 hx
  exact ⟨x, xs, hname, hstart⟩

/-- A text without backticks, a text of one line without quotes, backslashes and backticks, or an
identifier. -/
def Payload.IsWritable : Payload → Prop
  | .backtick text => tick ∉ text.toList
  | .quoted text => ∀ x ∈ text.toList, x ≠ '"' ∧ x ≠ '\\' ∧ x ≠ '\n' ∧ x ≠ tick
  | .identifier name => IsIdentifier name

instance : DecidablePred Payload.IsWritable
  | .backtick text => inferInstanceAs (Decidable (tick ∉ text.toList))
  | .quoted text =>
    decidable_of_iff (text.toList.all fun x => x ≠ '"' ∧ x ≠ '\\' ∧ x ≠ '\n' ∧ x ≠ tick) <| by
      simp only [List.all_eq_true, decide_eq_true_eq, Payload.IsWritable]
  | .identifier name => inferInstanceAs (Decidable (IsIdentifier name))

mutual
/-- A step that can be written where `enclosing` branches lie around it: a `result` step needs fewer
than the most that may. -/
def Step.IsWritable (enclosing : Nat) : Step → Prop
  | .call _ name payload _ => IsIdentifier name ∧ payload.IsWritable
  | .result _ branches =>
    enclosing < Grammar.maxNesting ∧ Branch.AllWritable (enclosing + 1) branches
def Branch.AllWritable (enclosing : Nat) : List Branch → Prop
  | [] => True
  | b :: bs => b.IsWritable enclosing ∧ Branch.AllWritable enclosing bs
/-- A branch whose outcome is that of its label, and whose status an answer can have. -/
def Branch.IsWritable (enclosing : Nat) : Branch → Prop
  | .mk outcome status _ steps =>
    IsIdentifier outcome.label ∧ Outcome.ofLabel outcome.label = outcome ∧
      (100 ≤ status ∧ status ≤ 599) ∧ Step.AllWritable enclosing steps
def Step.AllWritable (enclosing : Nat) : List Step → Prop
  | [] => True
  | s :: ss => s.IsWritable enclosing ∧ Step.AllWritable enclosing ss
end

/-! ## Writing -/

/-- A line of its own that starts in the given column. -/
def writtenLine (column : Nat) (content : List Char) : List Char :=
  '\n' :: (List.replicate column ' ' ++ content)

def Payload.written : Payload → List Char
  | .backtick text => tick :: (text.toList ++ [tick])
  | .quoted text => '"' :: (text.toList ++ ['"'])
  | .identifier name => name.toList

mutual
def Step.written (width column : Nat) : Step → List Char
  | .call _ name payload _ =>
    writtenLine column ('|' :: '>' :: ' ' :: (name.toList ++ ':' :: ' ' :: payload.written))
  | .result _ branches =>
    writtenLine column ('|' :: '>' :: ' ' :: "result".toList)
      ++ Branch.writtenAll width (column + width) branches
def Branch.writtenAll (width column : Nat) : List Branch → List Char
  | [] => []
  | b :: bs => b.written width column ++ Branch.writtenAll width column bs
def Branch.written (width column : Nat) : Branch → List Char
  | .mk outcome status _ steps =>
    writtenLine column (outcome.label.toList ++ '(' :: (Nat.toDigits 10 status ++ [')', ':']))
      ++ Step.writtenAll width (column + width) steps
def Step.writtenAll (width column : Nat) : List Step → List Char
  | [] => []
  | s :: ss => s.written width column ++ Step.writtenAll width column ss
end

/-- The declaration of a pipeline whose steps stand in the given column. -/
def NamedPipeline.written (width column : Nat) (name : String) (steps : List Step) : List Char :=
  ("pipeline " ++ name ++ " =").toList ++ Step.writtenAll width column steps

/-! ## First characters -/

theorem isLayout_cases {x : Char} (h : Blank.isLayout x = true) :
    x = ' ' ∨ x = '\t' ∨ x = '\r' ∨ x = '\n' := by
  simpa only [Blank.isLayout, Bool.or_eq_true, beq_iff_eq, or_assoc] using h

theorem isAscii_of_isLayout {x : Char} (h : Blank.isLayout x = true) : Blank.isAscii x = true := by
  rcases isLayout_cases h with rfl | rfl | rfl | rfl <;> rfl

theorem isIdentChar_of_isLayout {x : Char} (h : Blank.isLayout x = true) :
    isIdentChar x = false := by
  rcases isLayout_cases h with rfl | rfl | rfl | rfl <;> rfl

theorem ne_of_isIdentStart {x y : Char} (h : isIdentStart x = true) (hy : isIdentStart y = false) :
    x ≠ y := by
  rintro rfl
  rw [h] at hy
  cases hy

theorem isLayout_of_isIdentStart {x : Char} (h : isIdentStart x = true) :
    Blank.isLayout x = false := by
  rw [Bool.eq_false_iff]
  intro hx
  rcases isLayout_cases hx with rfl | rfl | rfl | rfl <;> exact absurd h (by decide)

/-- Layout ends where an identifier starts. -/
theorem not_layout_of_isIdentStart {x : Char} (h : isIdentStart x = true) :
    Blank.isLayout x = false ∧ x ≠ '#' := ⟨isLayout_of_isIdentStart h, ne_of_isIdentStart h rfl⟩

theorem isInline_of_isLayout {x : Char} (h : Blank.isLayout x = false) :
    Blank.isInline x = false := by
  rw [Blank.isLayout, Bool.or_eq_false_iff, Bool.or_eq_false_iff] at h
  exact h.1.1

theorem not_isInline_of_isIdentChar {x : Char} (h : isIdentChar x = true) :
    Blank.isInline x = false := by
  by_contra hx
  simp only [Blank.isInline, Bool.not_eq_false, Bool.or_eq_true, beq_iff_eq] at hx
  rcases hx with rfl | rfl
  · revert h; decide
  · revert h; decide

theorem not_isIdentChar_of_isInline {x : Char} (h : Blank.isInline x = true) :
    isIdentChar x = false := by
  by_contra hx
  rw [not_isInline_of_isIdentChar (Bool.of_not_eq_false hx)] at h
  cases h

/-- Blanks end where an identifier stands. -/
theorem IsIdentifier.head?_append {name : String} (h : IsIdentifier name) (rest : List Char) :
    ∀ x ∈ (name.toList ++ rest).head?, Blank.isInline x = false := by
  obtain ⟨x, xs, hcs, hx⟩ := h.head
  rw [hcs]
  rintro y ⟨⟩
  exact isInline_of_isLayout (isLayout_of_isIdentStart hx)

/-- A payload starts with no blank. -/
theorem Payload.written_head {p : Payload} (h : p.IsWritable) :
    ∃ x xs, p.written = x :: xs ∧ Blank.isInline x = false := by
  cases p with
  | backtick text => exact ⟨_, _, rfl, by decide⟩
  | quoted text => exact ⟨_, _, rfl, by decide⟩
  | identifier name =>
    obtain ⟨x, xs, hname, hx⟩ := h.head
    exact ⟨x, xs, hname, isInline_of_isLayout (isLayout_of_isIdentStart hx)⟩

theorem writtenLine_append (column : Nat) (content more : List Char) :
    writtenLine column content ++ more = writtenLine column (content ++ more) := by
  rw [writtenLine, writtenLine, List.cons_append, List.append_assoc]

/-- A step starts with its arrow, on a line of its own. -/
theorem Step.written_head (width column : Nat) (s : Step) :
    ∃ content, s.written width column = writtenLine column ('|' :: content) := by
  cases s with
  | call span name payload payloadSpan => exact ⟨_, by rw [Step.written]⟩
  | result span branches => exact ⟨_, by rw [Step.written, writtenLine_append, List.cons_append]⟩

/-- A declaration starts with the word for it. -/
theorem NamedPipeline.written_append (width column : Nat) (name : String) (steps : List Step)
    (rest : List Char) :
    written width column name steps ++ rest = "pipeline".toList ++
      ' ' :: (name.toList ++ ' ' :: '=' :: (Step.writtenAll width column steps ++ rest)) := by
  rw [written, String.toList_append, String.toList_append]
  simp only [List.append_assoc]
  rfl

/-- A branch starts with its label, on a line of its own. -/
theorem Branch.written_head {enclosing : Nat} {b : Branch} (h : b.IsWritable enclosing)
    (width column : Nat) :
    ∃ x content, b.written width column = writtenLine column (x :: content) ∧
      isIdentStart x = true := by
  obtain ⟨outcome, status, span, steps⟩ := b
  obtain ⟨x, xs, hlabel, hx⟩ := h.1.head
  rw [Branch.written, writtenLine_append, hlabel, List.cons_append, List.cons_append]
  exact ⟨x, _, rfl, hx⟩

/-! ## Backticks -/

variable {enclosing : Nat}

theorem IsIdentifier.count_tick {name : String} (h : IsIdentifier name) :
    name.toList.count tick = 0 :=
  List.count_eq_zero.2 fun hmem => absurd (h.2 tick hmem) (by decide)

theorem Payload.even_written {p : Payload} (h : p.IsWritable) : p.written.count tick % 2 = 0 := by
  cases p with
  | backtick text =>
    rw [written, List.count_cons, List.count_append, List.count_eq_zero.2 h]
    rfl
  | quoted text =>
    have htext : text.toList.count tick = 0 :=
      List.count_eq_zero.2 fun hmem => (h tick hmem).2.2.2 rfl
    rw [written, List.count_cons, List.count_append, htext]
    rfl
  | identifier name => rw [written, h.count_tick]

theorem count_writtenLine (column : Nat) (content : List Char) :
    (writtenLine column content).count tick = content.count tick := by
  have hspaces : (List.replicate column ' ').count tick = 0 :=
    List.count_eq_zero.2 fun hmem => absurd (List.eq_of_mem_replicate hmem) (by decide)
  rw [writtenLine, List.count_cons_of_ne (by decide), List.count_append, hspaces, Nat.zero_add]

theorem count_status (status : Nat) : (Nat.toDigits 10 status).count tick = 0 :=
  List.count_eq_zero.2 fun hmem =>
    absurd (Nat.isDigit_of_mem_toDigits (by decide) (by decide) hmem) (by decide)

mutual
theorem Step.even_written (width : Nat) : ∀ (s : Step) (enclosing column : Nat),
    s.IsWritable enclosing → (s.written width column).count tick % 2 = 0
  | .call _ name payload _, enclosing, column, h => by
    obtain ⟨hname, hpayload⟩ := h
    have hp := Payload.even_written hpayload
    rw [Step.written, count_writtenLine, List.count_cons_of_ne (by decide),
      List.count_cons_of_ne (by decide), List.count_cons_of_ne (by decide), List.count_append,
      hname.count_tick, List.count_cons_of_ne (by decide), List.count_cons_of_ne (by decide),
      Nat.zero_add]
    exact hp
  | .result _ branches, enclosing, column, h => by
    have hbs := Branch.even_writtenAll width branches (enclosing + 1) (column + width) h.2
    have hword : ('|' :: '>' :: ' ' :: "result".toList).count tick = 0 := by decide
    rw [Step.written, List.count_append, count_writtenLine, hword, Nat.zero_add]
    exact hbs
theorem Branch.even_writtenAll (width : Nat) : ∀ (bs : List Branch) (enclosing column : Nat),
    Branch.AllWritable enclosing bs → (Branch.writtenAll width column bs).count tick % 2 = 0
  | [], _, _, _ => rfl
  | b :: bs, enclosing, column, h => by
    have hb := Branch.even_written width b enclosing column h.1
    have hbs := Branch.even_writtenAll width bs enclosing column h.2
    rw [Branch.writtenAll, List.count_append]
    omega
theorem Branch.even_written (width : Nat) : ∀ (b : Branch) (enclosing column : Nat),
    b.IsWritable enclosing → (b.written width column).count tick % 2 = 0
  | .mk outcome status _ steps, enclosing, column, h => by
    obtain ⟨hlabel, -, -, hsteps⟩ := h
    have hss := Step.even_writtenAll width steps enclosing (column + width) hsteps
    have hclose : [')', ':'].count tick = 0 := by decide
    rw [Branch.written, List.count_append, count_writtenLine, List.count_append, hlabel.count_tick,
      List.count_cons_of_ne (by decide), List.count_append, count_status, hclose, Nat.zero_add]
    exact hss
theorem Step.even_writtenAll (width : Nat) : ∀ (ss : List Step) (enclosing column : Nat),
    Step.AllWritable enclosing ss → (Step.writtenAll width column ss).count tick % 2 = 0
  | [], _, _, _ => rfl
  | s :: ss, enclosing, column, h => by
    have hs := Step.even_written width s enclosing column h.1
    have hss := Step.even_writtenAll width ss enclosing column h.2
    rw [Step.writtenAll, List.count_append]
    omega
end

theorem NamedPipeline.even_written {name : String} {steps : List Step} (hname : IsIdentifier name)
    (hsteps : Step.AllWritable enclosing steps) (width column : Nat) :
    (NamedPipeline.written width column name steps).count tick % 2 = 0 := by
  have hword : "pipeline ".toList.count tick = 0 := by decide
  have hequals : " =".toList.count tick = 0 := by decide
  rw [written, String.toList_append, String.toList_append, List.count_append, List.count_append,
    List.count_append, hword, hequals, hname.count_tick, Nat.zero_add]
  exact Step.even_writtenAll width steps enclosing column hsteps

end PipelineLang
