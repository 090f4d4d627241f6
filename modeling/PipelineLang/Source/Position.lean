import PipelineLang.Source.Span
import PipelineLang.Text.Lines

/-!
# Positions

An editor counts lines, and in a line the UTF-16 units before the cursor. An offset inside a
character has the position of that character. A position in the middle of a character has the
offset behind it, one behind the end of its line has none.
-/

namespace PipelineLang

/-- A line and the UTF-16 units before the cursor on it, both counted from zero. -/
structure Position where
  line : Nat
  character : Nat
  deriving DecidableEq

/-- The text between two positions. -/
structure Range where
  start : Position
  stop : Position
  deriving DecidableEq

/-- The UTF-16 units that the characters take. -/
def units16 : List Char → Nat
  | [] => 0
  | c :: cs => (if c.toNat < 0x10000 then 1 else 2) + units16 cs

namespace Position

/-- The number of lines of a text; a line feed at the end opens one more. -/
def lineCount (text : List Char) : Nat := text.count '\n' + 1

/-- The position of an offset. -/
def ofOffset (text : List Char) (offset : Nat) : Position :=
  let front := (Utf8.splitFloor offset text).1
  ⟨front.count '\n', units16 (Lines.last front)⟩

/-- Where a line starts, with the text from there on. -/
def lineStart? : (line offset : Nat) → List Char → Option (Nat × List Char)
  | 0, offset, text => some (offset, text)
  | _ + 1, _, [] => none
  | line + 1, offset, c :: cs =>
    lineStart? (if c = '\n' then line else line + 1) (offset + c.utf8Size) cs

/-- Walks along a line up to the first character with at least `character` units before it. -/
def walk? (character : Nat) : (units offset : Nat) → List Char → Option Nat
  | units, offset, [] => if character ≤ units then some offset else none
  | units, offset, c :: cs =>
    if character ≤ units then some offset
    else if c = '\n' then none
    else walk? character (units + units16 [c]) (offset + c.utf8Size) cs

/-- The offset of a position, if its line is that long. -/
def offset? (text : List Char) (p : Position) : Option Nat :=
  (lineStart? p.line 0 text).bind fun (start, rest) => walk? p.character 0 start rest

end Position

/-- The range of a span. -/
def Range.ofSpan (text : List Char) (s : Span) : Range :=
  ⟨.ofOffset text s.start, .ofOffset text s.stop⟩

end PipelineLang
