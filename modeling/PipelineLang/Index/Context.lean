import PipelineLang.Index.SymbolTable
import PipelineLang.Text.Lines

/-!
# What a cursor is on

The line of the cursor is matched against the shapes of declarations and references, in a fixed
order; the first name that the cursor is on counts. Failing these, the cursor may be on the name
of a partial in template text.
-/

namespace PipelineLang

/-- What a cursor is on, with the span of the name. -/
inductive Context where
  | symbol (key : SymbolKey) (span : Span)
  /-- A partial, in a region of template text. -/
  | template (name : String) (span : Span) (region : Span)
  deriving DecidableEq

def Context.span : Context → Span
  | .symbol _ s => s
  | .template _ s _ => s

namespace Context

open Cursor

/-- The line that `offset` lies in, as the characters before the cursor and behind it; a cursor
inside a character counts as before it. -/
def lineAt (text : List Char) (offset : Nat) : List Char × List Char :=
  let (front, back) := Utf8.splitFloor offset text
  (Lines.last front, back.takeWhile (· != '\n'))

/-- The pipeline that a line declares. -/
def declaredPipeline (c : Cursor) : Option Reference := do
  let (name, _) ← Grammar.declaredName (← c.blanks.chars "pipeline".toList)
  return ⟨.pipeline name.text, name.span⟩

/-- The variable that a line declares, where its value starts on that line. -/
def declaredVariable (c : Cursor) : Option Reference := do
  let (kind, next) ← c.blanks.identifier
  let (name, equals) ← Grammar.declaredName next
  if equals.blanks.peek = some tick && !Grammar.reservedTypes.contains kind.text then
    some ⟨.typed kind.text name.text, name.span⟩
  else none

/-- The names on a line, those of the shapes that go first in front. -/
def lineNames (c : Cursor) : List Reference :=
  let (toPipelines, toVariables) := (Reference.inSteps c).partition fun r =>
    r.key matches .pipeline _
  (declaredPipeline c).toList ++ toPipelines ++ (declaredVariable c).toList ++ toVariables
    ++ Reference.inTests c

/-- The partial that a cursor at `offset` is on. -/
def partialAt (p : Template.Partials) (offset : Nat) : Option Context :=
  match p.regionAt offset with
  | none => none
  | some region =>
    match p.inlineNameAt offset with
    | some (name, span, home) => some (.template name span home)
    | none => (p.usageAt region offset).map fun (name, span) => .template name span region

/-- What a cursor at `offset` is on, if the text reaches as far. -/
def resolve (text : List Char) (offset : Nat) (symbols : SymbolTable) : Option Context :=
  if Utf8.byteLength text < offset then none
  else
    let (front, _) := Utf8.splitFloor offset text
    let (before, behind) := lineAt text offset
    let offset := Utf8.byteLength front
    let line := Cursor.start (offset - Utf8.byteLength before) (before ++ behind)
    match (lineNames line).find? (·.span.contains offset) with
    | some r => some (.symbol r.key r.span)
    | none => partialAt symbols.partials offset

end Context
end PipelineLang
