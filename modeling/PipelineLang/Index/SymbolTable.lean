import PipelineLang.Grammar.Document
import PipelineLang.Reference.Scan
import PipelineLang.Template.Partials

/-!
# Symbol tables

The declared names, the place of the last declaration of each, and the references to it. Names
are kept as sets beside the places, so that a name declared twice is listed once.
-/

namespace PipelineLang

/-- A set of names. -/
abbrev NameSet := Table Unit

def NameSet.ofNames (names : List String) : NameSet := Table.ofList (names.map fun n => (n, ()))

/-- The declarations and references of a document. -/
structure SymbolTable where
  pipelineNames : NameSet
  /-- The names of variables by type. -/
  variableNames : Table NameSet
  /-- The name in the last declaration of each pipeline. -/
  pipelinePlaces : Table Span
  /-- The name in the last declaration of each variable. -/
  variablePlaces : Table Span
  references : ReferenceTable
  partials : Template.Partials

namespace SymbolTable

/-- The names of the variables of each type. -/
def namesByType (declared : List Variable) : Table NameSet :=
  declared.foldl (fun t v => t.insert v.kind (((t.find? v.kind).getD .empty).insert v.name ())) .empty

/-- The symbol table of a document that was read from `text`. -/
def build (text : List Char) (engine : String) (parse : Grammar.Parse) : SymbolTable :=
  let program := parse.program
  { pipelineNames := .ofNames (program.pipelines.map (·.value.name))
    variableNames := namesByType (program.typedVariables.map (·.value))
    pipelinePlaces := parse.pipelineSites.map (·.nameSpan)
    variablePlaces := parse.variableSites.map (·.nameSpan)
    references := .ofList (Reference.scan text)
    partials := Template.collect program text engine }

/-- The name in the last declaration of the symbol. -/
def declarationOf (t : SymbolTable) : SymbolKey → Option Span
  | .pipeline name => t.pipelinePlaces.find? name
  | .typed kind name => t.variablePlaces.find? (SymbolKey.joinVariable kind name)

/-- The references to the symbol, in order. -/
def referencesOf (t : SymbolTable) : SymbolKey → List Span
  | .pipeline name => (t.references.pipelines.find? name).getD []
  | .typed kind name => (t.references.typed.find? (SymbolKey.joinVariable kind name)).getD []

/-- The names of the variables of a type, in order. -/
def namesOfType (t : SymbolTable) (kind : String) : List String :=
  ((t.variableNames.find? kind).getD .empty).names

def isDeclared (t : SymbolTable) : SymbolKey → Bool
  | .pipeline name => t.pipelineNames.contains name
  | .typed kind name => ((t.variableNames.find? kind).getD .empty).contains name

end SymbolTable
end PipelineLang
