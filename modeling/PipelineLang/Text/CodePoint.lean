/-!
# Sets of code points

A set of code points is kept as the list of its ranges, in order, each by its first and its last
code point.
-/

namespace PipelineLang.CodePoint

/-- Whether the code point lies in one of the ranges. -/
def inRanges (n : Nat) (ranges : List (Nat × Nat)) : Bool :=
  ranges.any fun (first, last) => first ≤ n && n ≤ last

theorem inRanges_iff {n : Nat} {ranges : List (Nat × Nat)} :
    inRanges n ranges = true ↔ ∃ r ∈ ranges, r.1 ≤ n ∧ n ≤ r.2 := by
  simp [inRanges]

end PipelineLang.CodePoint
