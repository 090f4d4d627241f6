import PipelineLang.Grammar.Pipeline

/-!
# Named pipelines, variables and routes

`pipeline name = |> …`, `type name = ` with a text in backticks, and `METHOD /path |> …`.
-/

namespace PipelineLang.Grammar

open Cursor

/-- The methods that a route can have. -/
def methods : List String := ["GET", "POST", "PUT", "PATCH", "DELETE", "HEAD", "OPTIONS"]

/-- The words that start a declaration of another kind and so name no type of variables. -/
def reservedTypes : List String := ["pipeline", "config", "describe", "it"]

/-- Reads the name of a declaration with the equals sign behind it. -/
def declaredName (c : Cursor) : Option (Token × Cursor) := do
  let (name, next) ← (← c.someBlanks).identifier
  let equals ← next.blanks.char '='
  return (name, equals)

def namedPipeline (c : Cursor) : Option (Spanned NamedPipeline × List SyntaxReport × Cursor) := do
  let (name, equals) ← declaredName (← c.keyword "pipeline".toList)
  let (steps, reports, last) := pipeline equals
  return (⟨⟨name.text, name.span, steps⟩, ⟨c.offset, last.offset⟩⟩, reports, last)

def typedVariable (c : Cursor) : Option (Spanned Variable × Cursor) := do
  let (kind, next) ← c.identifier
  if reservedTypes.contains kind.text then none
  else
    let (name, equals) ← declaredName next
    let (value, last) ← equals.layout.backtickText
    return (⟨⟨kind.text, name.text, name.span, value.text, value.span⟩, ⟨c.offset, last.offset⟩⟩, last)

/-- Reads a method that a route can have. -/
def method (c : Cursor) : Option (Token × Cursor) := do
  let (word, next) ← c.identifier
  if methods.contains word.text then some (word, next) else none

/-- What a route runs: a lone step `pipeline: name` stands for the pipeline of that name. -/
def routeBody : List Step → RouteBody
  | [.call span word (.identifier name) payloadSpan] =>
    if word = "pipeline" then .named name
    else .inline [.call span word (.identifier name) payloadSpan]
  | steps => .inline steps

def route (c : Cursor) : Option (Spanned Route × List SyntaxReport × Cursor) := do
  let (method, next) ← method c
  let pathStart ← next.someBlanks
  if pathStart.peek = some '/' then
    let (path, behind) ← pathStart.bareToken
    let (steps, reports, last) := pipeline behind
    return (⟨⟨method.text, path.text, routeBody steps⟩, ⟨c.offset, last.offset⟩⟩, reports, last)
  else none

end PipelineLang.Grammar
