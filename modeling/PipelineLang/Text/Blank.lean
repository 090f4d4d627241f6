/-!
# Blank characters

Three classes of blanks meet in a document: the blanks inside a line, the ASCII blanks that end
a token, and Unicode's White_Space, which is what trimming a text removes.
-/

namespace PipelineLang.Blank

/-- A blank inside a line: space or tab. -/
def isInline (c : Char) : Bool := c == ' ' || c == '\t'

/-- A blank between declarations: space, tab, carriage return or line feed. -/
def isLayout (c : Char) : Bool := c == ' ' || c == '\t' || c == '\r' || c == '\n'

/-- An ASCII blank, at which a token ends: space, tab, line feed, form feed or carriage return. -/
def isAscii (c : Char) : Bool := c == ' ' || c == '\t' || c == '\n' || c == '\x0c' || c == '\r'

/-- Unicode's White_Space property. -/
def isWhite (c : Char) : Bool :=
  let n := c.val
  (9 ≤ n && n ≤ 13) || n == 0x20 || n == 0x85 || n == 0xA0 || n == 0x1680
    || (0x2000 ≤ n && n ≤ 0x200A) || n == 0x2028 || n == 0x2029 || n == 0x202F || n == 0x205F
    || n == 0x3000

/-- Every ASCII blank is white. -/
theorem isWhite_of_isAscii {c : Char} (h : isAscii c = true) : isWhite c = true := by
  simp only [isAscii, Bool.or_eq_true, beq_iff_eq] at h
  rcases h with (((h | h) | h) | h) | h <;> subst h <;> decide

/-- The text without the white characters at its end. -/
def trimEnd : List Char → List Char
  | [] => []
  | c :: cs =>
    match trimEnd cs with
    | [] => if isWhite c then [] else [c]
    | d :: ds => c :: d :: ds

/-- The text without the white characters at both ends. -/
def trim (cs : List Char) : List Char := trimEnd (cs.dropWhile isWhite)

end PipelineLang.Blank
