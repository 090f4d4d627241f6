import PipelineLang.Source.Span
import PipelineLang.Text.Blank

/-!
# Cursors and tokens

A cursor is a place in a document together with what follows it. Every reader takes a cursor and
returns what it read with the cursor behind it, or nothing. Tokens end at ASCII characters only,
so the bounds of a token are always ends of characters.
-/

namespace PipelineLang

/-- A place in a document: its byte offset, the bytes since the start of its line, the character
before it and the characters behind it. -/
structure Cursor where
  offset : Nat
  column : Nat
  before : Option Char
  rest : List Char
  deriving DecidableEq

/-- A piece of text and where it stands. -/
structure Token where
  text : String
  span : Span
  deriving DecidableEq

namespace Cursor

/-- The cursor before the first character of a text that stands at `offset`. -/
def start (offset : Nat) (text : List Char) : Cursor := ⟨offset, 0, none, text⟩

/-- The cursor behind the character `x`, with `rest` behind it. -/
def step (c : Cursor) (x : Char) (rest : List Char) : Cursor :=
  { offset := c.offset + x.utf8Size
    column := if x = '\n' then 0 else c.column + x.utf8Size
    before := some x
    rest := rest }

/-- The cursor `n` characters on. -/
def skip : Nat → Cursor → Cursor
  | 0, c => c
  | n + 1, c =>
    match c.rest with
    | [] => c
    | x :: xs => skip n (c.step x xs)

/-- The cursor behind the longest run of characters that satisfy `p`. -/
def skipWhile (p : Char → Bool) (c : Cursor) : Cursor := c.skip (c.rest.takeWhile p).length

/-- The longest run of characters that satisfy `p`. -/
def takeWhile (p : Char → Bool) (c : Cursor) : Token × Cursor :=
  let run := c.rest.takeWhile p
  let next := c.skip run.length
  (⟨String.ofList run, ⟨c.offset, next.offset⟩⟩, next)

def peek (c : Cursor) : Option Char := c.rest.head?

def atEnd (c : Cursor) : Bool := c.rest.isEmpty

/-- What is left of the line. -/
def line (c : Cursor) : List Char := c.rest.takeWhile (· != '\n')

/-- The cursor at the end of the line. -/
def lineEnd (c : Cursor) : Cursor := c.skip c.line.length

/-! ## Readers -/

/-- Reads one given character. -/
def char (x : Char) (c : Cursor) : Option Cursor :=
  match c.rest with
  | [] => none
  | y :: ys => if y = x then some (c.step y ys) else none

/-- Reads the given characters. -/
def chars : List Char → Cursor → Option Cursor
  | [], c => some c
  | x :: xs, c => (c.char x).bind (chars xs)

/-- The cursor behind blanks of the line. -/
def blanks (c : Cursor) : Cursor := c.skipWhile Blank.isInline

/-- Reads one or more blanks of the line. -/
def someBlanks (c : Cursor) : Option Cursor :=
  match c.rest with
  | [] => none
  | x :: _ => if Blank.isInline x then some c.blanks else none

/-- The cursor behind layout: blanks, line ends, and comments from `#` to the end of the line. -/
def layout (c : Cursor) : Cursor := go false c.rest c
where
  /-- Walks on from `c`; `comment` tells whether a comment is open. -/
  go (comment : Bool) : List Char → Cursor → Cursor
    | [], c => c
    | x :: xs, c =>
      if comment && x != '\n' then go true xs (c.step x xs)
      else if Blank.isLayout x then go false xs (c.step x xs)
      else if x = '#' then go true xs (c.step x xs)
      else c

def isIdentStart (x : Char) : Bool := x.isAlpha || x = '_'

def isIdentChar (x : Char) : Bool := x.isAlphanum || x = '_' || x = '-'

/-- Reads an identifier: a letter or `_`, then letters, digits, `_` and `-`, all of them ASCII. -/
def identifier (c : Cursor) : Option (Token × Cursor) :=
  match c.rest with
  | [] => none
  | x :: _ => if isIdentStart x then some (c.takeWhile isIdentChar) else none

/-- Reads a word that is not the start of a longer identifier. -/
def keyword (word : List Char) (c : Cursor) : Option Cursor :=
  match c.chars word with
  | none => none
  | some next => if next.peek.any isIdentChar then none else some next

/-- Reads a run of characters up to an ASCII blank. -/
def bareToken (c : Cursor) : Option (Token × Cursor) :=
  let (token, next) := c.takeWhile (!Blank.isAscii ·)
  if token.span.isEmpty then none else some (token, next)

/-- Whether a token can end here: before an ASCII blank or at the end of the document. -/
def atTokenEnd (c : Cursor) : Bool := c.peek.all Blank.isAscii

/-- The backtick. -/
def tick : Char := '\x60'

/-- Reads a text between backticks. The token is what stands between them. -/
def backtickText (c : Cursor) : Option (Token × Cursor) := do
  let inner ← c.char tick
  let (token, close) := inner.takeWhile (· != tick)
  let next ← close.char tick
  return (token, next)

/-- What stands before the closing quote: characters of one line, where a backslash takes the
character behind it along, whatever it is. -/
def quotedRun : List Char → Option (List Char)
  | [] => none
  | '\\' :: x :: xs => (quotedRun xs).map ('\\' :: x :: ·)
  | x :: xs =>
    if x = '"' then some []
    else if x = '\n' || x = '\\' then none
    else (quotedRun xs).map (x :: ·)

/-- The text with each backslash before a quote taken away. -/
def unescapeQuotes : List Char → List Char
  | [] => []
  | '\\' :: '"' :: xs => '"' :: unescapeQuotes xs
  | x :: xs => x :: unescapeQuotes xs

/-- Reads a text between double quotes. The span is that of what stands between them. -/
def quotedText (c : Cursor) : Option (Token × Cursor) := do
  let inner ← c.char '"'
  let run ← quotedRun inner.rest
  let close := inner.skip run.length
  let next ← close.char '"'
  return (⟨String.ofList (unescapeQuotes run), ⟨inner.offset, close.offset⟩⟩, next)

/-- Reads the rest of the line without the white characters at its end, if anything is left. -/
def restOfLine (c : Cursor) : Option (Token × Cursor) :=
  let text := Blank.trimEnd c.line
  if text.isEmpty then none
  else
    let next := c.skip text.length
    some (⟨String.ofList text, ⟨c.offset, next.offset⟩⟩, next)

/-! ## Repetition -/

/-- Reads with `item` as often as it succeeds and moves on. -/
def many {α : Type} (item : Cursor → Option (α × Cursor)) (c : Cursor) : List α × Cursor :=
  match item c with
  | none => ([], c)
  | some (a, next) =>
    if next.rest.length < c.rest.length then
      let (as, last) := many item next
      (a :: as, last)
    else ([], c)
termination_by c.rest.length

end Cursor
end PipelineLang
