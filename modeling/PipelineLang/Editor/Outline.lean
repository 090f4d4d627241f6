import PipelineLang.Editor.Navigation

/-!
# Outlines and published diagnostics

The outline of a document has one entry for each declaration, in the order of the document.
-/

namespace PipelineLang.Editor

inductive EntryKind where
  | module
  | namespaced
  | method
  | function
  | value
  deriving DecidableEq

/-- A declaration with its place in the document. -/
structure Declared where
  name : String
  detail : Option String
  kind : EntryKind
  span : Span
  selection : Span
  deriving DecidableEq

def ofConfig (v : Spanned Config) : Declared :=
  ⟨"config " ++ v.value.name, some (toString v.value.properties.length ++ " properties"),
    .namespaced, v.span, v.span⟩

def ofPipeline (v : Spanned NamedPipeline) : Declared :=
  ⟨v.value.name, some "pipeline", .function, v.span, v.value.nameSpan⟩

def ofVariable (v : Spanned Variable) : Declared :=
  ⟨v.value.name, some v.value.kind, .value, v.span, v.value.nameSpan⟩

def ofRoute (v : Spanned Route) : Declared :=
  let detail := match v.value.body with
    | .named name => some ("pipeline " ++ name)
    | .inline _ => none
  ⟨v.value.method ++ " " ++ v.value.path, detail, .method, v.span, v.span⟩

def ofSuite (v : Spanned TestSuite) : Declared :=
  ⟨"describe \"" ++ v.value.name ++ "\"", some (toString v.value.tests.length ++ " tests"),
    .module, v.span, v.span⟩

/-- The declarations of a program, in the order of the document. -/
def declaredIn (p : Program) : List Declared :=
  (p.configs.map ofConfig ++ p.pipelines.map ofPipeline ++ p.typedVariables.map ofVariable
    ++ p.routes.map ofRoute ++ p.suites.map ofSuite).mergeSort fun a b =>
      a.span.start ≤ b.span.start

/-- An entry of an outline. -/
structure Entry where
  name : String
  detail : Option String
  kind : EntryKind
  range : Range
  selection : Range
  deriving DecidableEq

/-- A diagnostic at a range of a document. -/
structure RangedDiagnostic where
  range : Range
  severity : Severity
  code : String
  message : String
  deriving DecidableEq

namespace Document

/-- The outline of the document, unless it declares nothing. -/
def outline (d : Document) : Option (List Entry) :=
  nonempty ((declaredIn d.analysis.program).map fun e =>
    ⟨e.name, e.detail, e.kind, d.range e.span, d.range e.selection⟩)

/-- The diagnostics of the document. -/
def diagnostics (d : Document) : List RangedDiagnostic :=
  d.analysis.diagnostics.map fun g => ⟨d.range g.span, g.severity, g.code, g.message⟩

end Document
end PipelineLang.Editor
