/-!
# Byte lengths of text

Documents are lists of characters, positions in them are counted in the bytes of their UTF-8
form. `byteLength_append` makes a position the sum of what lies before it, and a cut at a byte
position exists exactly where a character starts.
-/

namespace PipelineLang.Utf8

/-- The number of bytes that the characters take. -/
def byteLength : List Char → Nat
  | [] => 0
  | c :: cs => c.utf8Size + byteLength cs

theorem byteLength_append (xs ys : List Char) :
    byteLength (xs ++ ys) = byteLength xs + byteLength ys := by
  induction xs with
  | nil => simp [byteLength]
  | cons x xs ih => simp [byteLength, ih, Nat.add_assoc]

/-- What follows the first `n` bytes, if a character starts there or the text ends there. -/
def dropBytes : Nat → List Char → Option (List Char)
  | 0, cs => some cs
  | _ + 1, [] => none
  | n + 1, c :: cs => if c.utf8Size ≤ n + 1 then dropBytes (n + 1 - c.utf8Size) cs else none

/-- The first `n` bytes, if they are whole characters. -/
def takeBytes : Nat → List Char → Option (List Char)
  | 0, _ => some []
  | _ + 1, [] => none
  | n + 1, c :: cs =>
    if c.utf8Size ≤ n + 1 then (takeBytes (n + 1 - c.utf8Size) cs).map (c :: ·) else none

/-- The bytes from `start` to `stop`, if both are ends of characters and in order. -/
def slice (start stop : Nat) (text : List Char) : Option (List Char) :=
  if start ≤ stop then (dropBytes start text).bind (takeBytes (stop - start)) else none

/-- The longest run of whole characters in the first `n` bytes, and what follows it. -/
def splitFloor : Nat → List Char → List Char × List Char
  | _, [] => ([], [])
  | n, c :: cs =>
    if c.utf8Size ≤ n then
      let (front, back) := splitFloor (n - c.utf8Size) cs
      (c :: front, back)
    else ([], c :: cs)

/-- The shortest run of whole characters that covers the first `n` bytes, and what follows it. -/
def splitCeil : Nat → List Char → List Char × List Char
  | 0, cs => ([], cs)
  | _ + 1, [] => ([], [])
  | n + 1, c :: cs =>
    let (front, back) := splitCeil (n + 1 - c.utf8Size) cs
    (c :: front, back)

end PipelineLang.Utf8
