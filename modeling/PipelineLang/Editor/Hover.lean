import PipelineLang.Editor.Occurrence

/-!
# Hover texts

What an editor shows about the symbol at a position, in Markdown: the steps of a pipeline, the
first lines of a variable, where a partial comes from, and the number of references.
-/

namespace PipelineLang.Editor

/-- The text on what a position is on, and the range it is about. -/
structure Hover where
  markdown : String
  range : Range
  deriving DecidableEq

/-- The most lines that are shown of a variable. -/
def previewLines : Nat := 12

/-- The number with its unit, which takes an `s` unless there is one. -/
def counted (n : Nat) (unit : String) : String :=
  toString n ++ " " ++ unit ++ (if n = 1 then "" else "s")

/-- The line that fences a block of code. -/
def fence : String := String.ofList [Cursor.tick, Cursor.tick, Cursor.tick]

def undeclared : String := "\n*Not declared in this file*"

/-- The first lines of a value. -/
def preview (kind value : String) : String :=
  let lines := Lines.shown value.toList
  let body := (lines.take previewLines).map fun line => String.ofList line ++ "\n"
  let more := if previewLines < lines.length then "...\n" else ""
  "\n" ++ fence ++ kind ++ "\n" ++ String.join body ++ more ++ fence

/-- What is declared under the key. -/
def declarationText (program : Program) : SymbolKey → String
  | .pipeline name =>
    match program.findPipeline? name with
    | some p => "\n" ++ counted p.value.steps.length "step"
    | none => undeclared
  | .typed kind name =>
    match program.findVariable? kind name with
    | some v => preview kind v.value.value
    | none => undeclared

def symbolText (a : Analysis) (key : SymbolKey) : String :=
  fence ++ "webpipe\n" ++ key.render ++ "\n" ++ fence ++ "\n" ++ declarationText a.program key
    ++ "\n\n" ++ counted (a.symbols.referencesOf key).length "reference"

/-- Where a partial comes from. -/
def originText : Template.Resolution → String
  | .inline .. => "inline partial defined in this template"
  | .global _ => "global partial"
  | .unresolved => "*unknown partial*"

def contextText (a : Analysis) : Context → String
  | .symbol key _ => symbolText a key
  | .template name span _ =>
    "**" ++ name ++ "**: " ++ originText (a.symbols.partials.resolve name span.start)

/-- What is shown about the position. -/
def Document.hover (d : Document) (p : Position) : Option Hover :=
  (d.contextAt p).map fun context => ⟨contextText d.analysis context, d.range context.span⟩

end PipelineLang.Editor
