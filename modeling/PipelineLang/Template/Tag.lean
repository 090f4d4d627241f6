import PipelineLang.Reference.Search

/-!
# Tags of templates

Three tags of a template matter: `{{> name}}` uses a partial, `{{#*inline "name"}}` opens the
definition of one inside the template, and `{{/inline}}` closes it.
-/

namespace PipelineLang.Template

open Cursor

/-- The cursor behind the character, if it is the next one. -/
def optional (x : Char) (c : Cursor) : Cursor := (c.char x).getD c

/-- Reads the opening braces of a tag and the mark that strips blanks before it. -/
def openTag (c : Cursor) : Option Cursor := (c.chars ['\x7b', '\x7b']).map (optional '~')

/-- Reads the rest of a tag: blanks, the mark that strips blanks behind it, and the braces. -/
def closeTag (c : Cursor) : Option Cursor :=
  (optional '~' (c.skipWhile Blank.isWhite)).chars ['\x7d', '\x7d']

/-- Matches the use of a partial, up to the end of its name. -/
def usage (c : Cursor) : Option (Token × Cursor) := do
  let arrow ← (optional '#' (← openTag c)).char '>'
  let (name, last) := (arrow.skipWhile Blank.isWhite).takeWhile fun x =>
    !Blank.isWhite x && x != '\x7d' && x != '~'
  if name.span.isEmpty then none else some (name, last)

/-- Matches the tag that opens an inline partial; yields the start of the tag and the name. -/
def inlineOpen (c : Cursor) : Option ((Nat × Token) × Cursor) := do
  let word ← (← openTag c).chars "#*inline".toList
  if word.peek.any Blank.isWhite then
    let quote ← (word.skipWhile Blank.isWhite).char '"'
    let (name, close) := quote.takeWhile (· != '"')
    if name.span.isEmpty then none
    else
      let last ← closeTag (← close.char '"')
      return ((c.offset, name), last)
  else none

/-- Matches the tag that closes an inline partial. -/
def inlineClose (c : Cursor) : Option (Unit × Cursor) := do
  let word ← (← openTag c).chars "/inline".toList
  return ((), ← closeTag word)

end PipelineLang.Template
