import PipelineLang.Program.Basic
import PipelineLang.Template.Tag
import PipelineLang.Text.Table

/-!
# Partials

Template text stands in the variables whose type is the template engine and in the backtick
payloads of the steps of that name; each such span is a region. A partial used in a region is the
inline one that the region defines, else the template variable of that name. An inline partial is
known in its own region only.
-/

namespace PipelineLang.Template

open Reference

/-- Where an inline partial is defined: its name, and the block from tag to tag. -/
structure InlineDefinition where
  nameSpan : Span
  block : Span
  deriving DecidableEq

/-- The inline partials of a region. -/
structure InlineScope where
  region : Span
  definitions : Table InlineDefinition
  deriving DecidableEq

/-- The partials of a document. -/
structure Partials where
  /-- The name of each template variable. -/
  globals : Table Span
  regions : List Span
  usages : Table (List Span)
  /-- The scopes of the regions that define inline partials. -/
  scopes : List InlineScope

/-- What the name of a partial stands for. -/
inductive Resolution where
  | inline (definition : InlineDefinition) (region : Span)
  | global (nameSpan : Span)
  | unresolved
  deriving DecidableEq

def Resolution.isGlobal : Resolution → Bool
  | .global _ => true
  | _ => false

/-- The name that stands for the block of the caller and is no partial. -/
def callerBlock : String := "@partial-block"

/-! ## Collecting -/

/-- The template text in a step, if its middleware is the engine. -/
def regionOfStep (engine : String) : Step → Option Span
  | .call _ name (.backtick _) span => if name = engine then some span else none
  | _ => none

/-- The variables that hold templates. -/
def templates (program : Program) (engine : String) : List Variable :=
  (program.typedVariables.map (·.value)).filter (·.kind == engine)

/-- The list without elements equal to the one before them. -/
def dedup : List Span → List Span
  | [] => []
  | [a] => [a]
  | a :: b :: rest => if a = b then dedup (b :: rest) else a :: dedup (b :: rest)

/-- The regions of template text, in order. -/
def regionsOf (program : Program) (engine : String) : List Span :=
  let inVariables := (templates program engine).map (·.valueSpan)
  let inSteps := program.allPipelines.flatMap (·.filterMap (regionOfStep engine))
  dedup ((inVariables ++ inSteps).mergeSort Span.le)

/-- The cursor before the text of a region. -/
def regionCursor (text : List Char) (region : Span) : Cursor :=
  Cursor.start region.start (region.text text)

/-- The uses of partials in a region. -/
def usagesIn (text : List Char) (region : Span) : List (String × Span) :=
  ((searchAll usage (regionCursor text region)).map fun (name, _) => (name.text, name.span)).filter
    (·.1 != callerBlock)

/-- Where the block of an inline partial ends: behind the first closing tag, else with the region. -/
def blockEnd (region : Span) (c : Cursor) : Nat :=
  match searchAll inlineClose c with
  | (_, last) :: _ => last.offset
  | [] => region.stop

/-- The inline partials that a region defines. -/
def definitionsIn (text : List Char) (region : Span) : List (String × InlineDefinition) :=
  (searchAll inlineOpen (regionCursor text region)).map fun ((start, name), behind) =>
    (name.text, ⟨name.span, ⟨start, blockEnd region behind⟩⟩)

/-- The scope of a region, if it defines an inline partial. -/
def scopeOf (text : List Char) (region : Span) : Option InlineScope :=
  match definitionsIn text region with
  | [] => none
  | definitions => some ⟨region, .ofList definitions⟩

/-- The partials of a document that was read from `text`. -/
def collect (program : Program) (text : List Char) (engine : String) : Partials :=
  let regions := regionsOf program engine
  { globals := .ofList ((templates program engine).map fun v => (v.name, v.nameSpan))
    regions
    usages := .group (regions.flatMap (usagesIn text))
    scopes := regions.filterMap (scopeOf text) }

/-! ## Asking -/

namespace Partials

/-- The region that a cursor at `offset` is in. -/
def regionAt (p : Partials) (offset : Nat) : Option Span := p.regions.find? (·.contains offset)

/-- The inline definition of the name that a cursor at `offset` sees. -/
def inlineAt (p : Partials) (name : String) (offset : Nat) : Option (InlineDefinition × Span) :=
  (p.scopes.filter (·.region.contains offset)).findSome? fun scope =>
    (scope.definitions.find? name).map (·, scope.region)

/-- What the name stands for at `offset`. -/
def resolve (p : Partials) (name : String) (offset : Nat) : Resolution :=
  match p.inlineAt name offset with
  | some (definition, region) => .inline definition region
  | none =>
    match p.globals.find? name with
    | some nameSpan => .global nameSpan
    | none => .unresolved

/-- The uses of the name. -/
def usagesOf (p : Partials) (name : String) : List Span := (p.usages.find? name).getD []

/-- The uses of the name that stand for the template variable. -/
def globalUsages (p : Partials) (name : String) : List Span :=
  (p.usagesOf name).filter fun s => Resolution.isGlobal (p.resolve name s.start)

/-- The uses of the name that stand for nothing. -/
def unresolvedUsages (p : Partials) (name : String) : List Span :=
  (p.usagesOf name).filter fun s => p.resolve name s.start == .unresolved

/-- The uses of the name inside a region. -/
def regionUsages (p : Partials) (name : String) (region : Span) : List Span :=
  (p.usagesOf name).filter region.encloses

/-- The inline partial whose name a cursor at `offset` is on, with its region. -/
def inlineNameAt (p : Partials) (offset : Nat) : Option (String × Span × Span) :=
  p.scopes.findSome? fun scope =>
    (scope.definitions.entries.find? (·.2.nameSpan.contains offset)).map fun (name, d) =>
      (name, d.nameSpan, scope.region)

/-- The use of a partial inside the region that a cursor at `offset` is on. -/
def usageAt (p : Partials) (region : Span) (offset : Nat) : Option (String × Span) :=
  p.usages.entries.findSome? fun (name, spans) =>
    (spans.find? fun s => region.encloses s && s.contains offset).map (name, ·)

end Partials
end PipelineLang.Template
