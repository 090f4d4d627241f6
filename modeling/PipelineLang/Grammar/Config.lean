import PipelineLang.Grammar.Cursor
import PipelineLang.Program.Basic
import PipelineLang.Program.Diagnostic

/-!
# Configuration blocks

`config name { key: value … }`. A line that has a key but no value that can be read is reported
and skipped. A block ends at its closing brace, or, reported as unclosed, before the first thing
that is no property.
-/

namespace PipelineLang.Grammar

open Cursor

/-- Reads a word of a value: it ends at an ASCII blank, a comment or a closing brace. -/
def configWord (c : Cursor) : Option (Token × Cursor) :=
  let (token, next) := c.takeWhile fun x => !Blank.isAscii x && x != '#' && x != '\x7d'
  if token.span.isEmpty then none else some (token, next)

/-- The number that a word spells: digits, points and a leading minus, with at least one digit. -/
def numberOfWord (word : List Char) : Option Decimal :=
  let body := match word with
    | '-' :: cs => cs
    | cs => cs
  if body.all (fun x => x.isDigit || x = '.') && body.any Char.isDigit then Decimal.ofPlain? word
  else none

/-- The value that a bare word stands for. -/
def valueOfWord (word : String) : ConfigValue :=
  if word = "true" then .boolean true
  else if word = "false" then .boolean false
  else
    match numberOfWord word.toList with
    | some n => .number n
    | none => .text word

/-- Reads `|| default` behind an environment variable. -/
def fallback (c : Cursor) : Option (Token × Cursor) := do
  let bars ← c.blanks.chars ['|', '|']
  let value := bars.blanks
  if value.peek = some '"' then value.quotedText else configWord value

def configValue (c : Cursor) : Option (ConfigValue × Cursor) :=
  match c.peek with
  | some '$' => do
    let (name, next) ← (← c.char '$').identifier
    match fallback next with
    | some (value, last) => return (.environment name.text (some value.text), last)
    | none => return (.environment name.text none, next)
  | some '"' => do
    let (value, next) ← c.quotedText
    return (.text value.text, next)
  | _ => do
    let (word, next) ← configWord c
    return (valueOfWord word.text, next)

/-- Whether nothing but blanks is left of the line, up to a comment or a closing brace. -/
def atPropertyEnd (c : Cursor) : Bool :=
  c.blanks.peek.all fun x => x == '\n' || x == '\r' || x == '#' || x == '\x7d'

/-- Reads the key of a property with the colon behind it. -/
def propertyKey (c : Cursor) : Option (Token × Cursor) := do
  let (key, next) ← c.identifier
  let colon ← next.blanks.char ':'
  return (key, colon)

def property (c : Cursor) : Option (ConfigProperty × Cursor) := do
  let (key, colon) ← propertyKey c
  let (value, next) ← configValue colon.blanks
  if atPropertyEnd next then some (⟨key.text, value⟩, next) else none

/-- A line of a block: a property, or the report of one whose value cannot be read. -/
inductive ConfigLine where
  | property (value : ConfigProperty)
  | fault (report : SyntaxReport)

def ConfigLine.property? : ConfigLine → Option ConfigProperty
  | .property p => some p
  | .fault _ => none

def ConfigLine.report? : ConfigLine → Option SyntaxReport
  | .property _ => none
  | .fault r => some r

/-- Reads a line whose key is in order and whose value is not. -/
def faultyProperty (c : Cursor) : Option (SyntaxReport × Cursor) := do
  let (key, _) ← propertyKey c
  let length := Utf8.byteLength (Blank.trimEnd c.line)
  return (⟨.invalidProperty key.text, .ofLength c.offset length⟩, c.lineEnd)

def configLine (c : Cursor) : Option (ConfigLine × Cursor) :=
  let c := c.layout
  match property c with
  | some (p, next) => some (.property p, next)
  | none => (faultyProperty c).map fun (r, next) => (.fault r, next)

/-- Reads a `config` block. -/
def config (c : Cursor) : Option (Spanned Config × List SyntaxReport × Cursor) := do
  let (name, next) ← (← (← c.keyword "config".toList).someBlanks).identifier
  let inside ← next.blanks.char '\x7b'
  let (lines, last) := inside.many configLine
  let properties := lines.filterMap ConfigLine.property?
  let reports := lines.filterMap ConfigLine.report?
  match last.layout.char '\x7d' with
  | some close => return (⟨⟨name.text, properties⟩, ⟨c.offset, close.offset⟩⟩, reports, close)
  | none =>
    let unclosed := ⟨.unclosedConfig name.text, ⟨c.offset, name.span.stop⟩⟩
    return (⟨⟨name.text, properties⟩, ⟨c.offset, last.offset⟩⟩, reports ++ [unclosed], last)

end PipelineLang.Grammar
