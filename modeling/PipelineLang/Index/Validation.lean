import PipelineLang.Index.SymbolTable
import PipelineLang.Program.Diagnostic

/-!
# Validation of references

A reference is reported where nothing of its name is declared, a declaration where it is not the
first of its name. Reports are in the order of their places, and of their codes at one place.
-/

namespace PipelineLang

/-- What is wrong with a reference or a declaration. -/
inductive ReferenceFault where
  | unknownPipeline (name : String)
  | unknownVariable (key : SymbolKey)
  | unknownPartial (name : String)
  | duplicatePipeline (name : String)
  | duplicateVariable (key : SymbolKey)
  deriving DecidableEq

namespace ReferenceFault

def code : ReferenceFault → String
  | .unknownPipeline _ => "W1001"
  | .unknownVariable _ => "W1002"
  | .unknownPartial _ => "W1003"
  | .duplicatePipeline _ => "W2001"
  | .duplicateVariable _ => "W2002"

def severity : ReferenceFault → Severity
  | .unknownPipeline _ => .error
  | _ => .warning

def message : ReferenceFault → String
  | .unknownPipeline name => "Unknown pipeline '" ++ name ++ "'"
  | .unknownVariable key => "Unknown variable '" ++ key.render ++ "'"
  | .unknownPartial name => "Unknown partial '" ++ name ++ "'"
  | .duplicatePipeline name => "Pipeline '" ++ name ++ "' is already declared"
  | .duplicateVariable key => "Variable '" ++ key.render ++ "' is already declared"

end ReferenceFault

/-- A fault and the name it is about. -/
structure ReferenceReport where
  fault : ReferenceFault
  span : Span
  deriving DecidableEq

namespace ReferenceReport

def render (r : ReferenceReport) : String := "[" ++ r.fault.code ++ "] " ++ r.fault.message

/-- Reports are ordered by where they start, then by their code. -/
def le (a b : ReferenceReport) : Bool :=
  a.span.start < b.span.start || (a.span.start == b.span.start && a.fault.code ≤ b.fault.code)

end ReferenceReport

namespace Validation

/-- The references to pipelines that are not declared. -/
def unknownPipelines (t : SymbolTable) : List ReferenceReport :=
  t.references.pipelines.entries.flatMap fun (name, spans) =>
    if t.isDeclared (.pipeline name) then [] else spans.map (⟨.unknownPipeline name, ·⟩)

/-- The references to variables that are not declared. -/
def unknownVariables (t : SymbolTable) : List ReferenceReport :=
  t.references.typed.entries.flatMap fun (text, spans) =>
    let key := SymbolKey.ofText text
    if t.isDeclared key then [] else spans.map (⟨.unknownVariable key, ·⟩)

/-- The uses of partials that stand for nothing. -/
def unknownPartials (t : SymbolTable) : List ReferenceReport :=
  t.partials.usages.names.flatMap fun name =>
    (t.partials.unresolvedUsages name).map (⟨.unknownPartial name, ·⟩)

/-- The places whose key stood at an earlier place already. -/
def repeated {κ : Type} [DecidableEq κ] (seen : List κ) : List (κ × Span) → List (κ × Span)
  | [] => []
  | (k, s) :: rest =>
    if k ∈ seen then (k, s) :: repeated seen rest else repeated (k :: seen) rest

/-- The pipelines that are not the first of their name. -/
def duplicatePipelines (program : Program) : List ReferenceReport :=
  (repeated [] (program.pipelines.map fun p => (p.value.name, p.value.nameSpan))).map
    fun (name, span) => ⟨.duplicatePipeline name, span⟩

/-- The variables that are not the first of their type and name. -/
def duplicateVariables (program : Program) : List ReferenceReport :=
  (repeated [] (program.typedVariables.map fun v =>
      (SymbolKey.typed v.value.kind v.value.name, v.value.nameSpan))).map
    fun (key, span) => ⟨.duplicateVariable key, span⟩

/-- Every report on the references and declarations of a document. -/
def validate (program : Program) (t : SymbolTable) : List ReferenceReport :=
  (unknownPipelines t ++ unknownVariables t ++ unknownPartials t ++ duplicatePipelines program
    ++ duplicateVariables program).mergeSort ReferenceReport.le

end Validation
end PipelineLang
