import PipelineLang.Proofs.Grammar.Shift

/-!
# Unclosed backticks

Whether a backtick of a document is reported as unclosed depends on how many there are
(`unclosedTick_eq_nil_iff`). So the backticks of a text in which all are closed do not matter for what
stands behind it (`unclosedTick_append`).
-/

namespace PipelineLang.Grammar

open Cursor Utf8

theorem length_tickOffsets (n : Nat) (text : List Char) :
    (tickOffsets n text).length = text.count tick := by
  induction text generalizing n with
  | nil => rfl
  | cons x xs ih =>
    rw [tickOffsets, List.count_cons]
    by_cases hx : x = tick
    · rw [if_pos hx, if_pos (beq_iff_eq.2 hx), List.length_cons, ih]
    · rw [if_neg hx, if_neg (by simpa using hx), ih, Nat.add_zero]

/-- Whether a backtick is unclosed depends on how many there are. -/
theorem faults_unclosedTick (text : List Char) :
    (unclosedTick text).map (·.fault)
      = if text.count tick % 2 = 1 then [SyntaxFault.unclosedBacktick] else [] := by
  rw [unclosedTick, ← length_tickOffsets 0 text]
  cases hlast : (tickOffsets 0 text).getLast? with
  | none => rw [List.getLast?_eq_none_iff.1 hlast]; rfl
  | some last =>
    simp only
    split <;> rfl

theorem unclosedTick_eq_nil_iff {text : List Char} :
    unclosedTick text = [] ↔ text.count tick % 2 = 0 := by
  rw [← List.map_eq_nil_iff (f := (·.fault)), faults_unclosedTick]
  split
  · exact iff_of_false (List.cons_ne_nil _ _) (by omega)
  · exact iff_of_true rfl (by omega)

theorem tickOffsets_append (n : Nat) (a b : List Char) :
    tickOffsets n (a ++ b) = tickOffsets n a ++ tickOffsets (n + byteLength a) b := by
  induction a generalizing n with
  | nil => rfl
  | cons x a ih =>
    rw [List.cons_append, tickOffsets, tickOffsets, ih, byteLength, Nat.add_assoc]
    split
    · rfl
    · rfl

theorem tickOffsets_add (m n : Nat) (b : List Char) :
    tickOffsets (m + n) b = (tickOffsets m b).map (· + n) := by
  induction b generalizing m with
  | nil => rfl
  | cons x b ih =>
    rw [tickOffsets, tickOffsets, Nat.add_right_comm, ih]
    split
    · rfl
    · rfl

/-- Behind a text with all backticks closed the last one is unclosed if it is so on its own. -/
theorem unclosedTick_append {a : List Char} (b : List Char) (ha : unclosedTick a = []) :
    unclosedTick (a ++ b) = (unclosedTick b).map (SyntaxReport.shift (byteLength a)) := by
  have heven := unclosedTick_eq_nil_iff.1 ha
  rw [← length_tickOffsets 0] at heven
  rw [unclosedTick, tickOffsets_append, tickOffsets_add, unclosedTick]
  simp only [List.getLast?_append, List.getLast?_map, List.length_append, List.length_map]
  cases hlast : (tickOffsets 0 b).getLast? with
  | none =>
    rw [List.getLast?_eq_none_iff.1 hlast, Option.map_none, Option.none_or]
    cases (tickOffsets 0 a).getLast? with
    | none => rfl
    | some last => exact if_neg (by rw [List.length_nil]; omega)
  | some last =>
    rw [Option.map_some, Option.some_or]
    have hparity : ((tickOffsets 0 a).length + (tickOffsets 0 b).length) % 2
        = (tickOffsets 0 b).length % 2 := by omega
    simp only [hparity]
    split
    · rw [List.map_singleton, SyntaxReport.shift, Span.ofLength_shift]
    · rfl

theorem fault_of_mem_unclosedTick {text : List Char} {r : SyntaxReport}
    (h : r ∈ unclosedTick text) : r.fault = .unclosedBacktick := by
  simp only [unclosedTick] at h
  split at h
  · split at h
    · rw [List.mem_singleton.1 h]
    · cases h
  · cases h

end PipelineLang.Grammar
