import PipelineLang.Source.Position

/-!
# Lines and columns

A printed report counts lines and columns from one, and a column for each character. At the start
of a character this is the line of the `Position`, and the column differs from it by the characters
that take two UTF-16 units. Inside a character it is the place behind the character.
-/

namespace PipelineLang

/-- A line, and a character of it, both counted from one. -/
structure LineColumn where
  line : Nat
  column : Nat
  deriving DecidableEq

/-- The line and column of an offset. -/
def LineColumn.ofOffset (text : List Char) (offset : Nat) : LineColumn :=
  let front := (Utf8.splitCeil offset text).1
  ⟨front.count '\n' + 1, (Lines.last front).length + 1⟩

example : LineColumn.ofOffset "ab\ncd\n".toList 4 = ⟨2, 2⟩ := by decide +kernel
example : LineColumn.ofOffset "ab\ncd\n".toList 100 = ⟨3, 1⟩ := by decide +kernel

end PipelineLang
