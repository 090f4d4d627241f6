import PipelineLang.Index.Analysis
import PipelineLang.Index.Context
import PipelineLang.Source.Position

/-!
# Occurrences

The occurrences of a symbol are its last declaration and the references to it. A template
variable and the partial of its name are one symbol; an inline partial occurs in its region only.
-/

namespace PipelineLang.Editor

open Template

/-- A text that is open in an editor, with its analysis. -/
structure Document where
  uri : String
  engine : String
  text : List Char
  analysis : Analysis

/-- A place where a symbol is written. -/
structure Occurrence where
  span : Span
  isDeclaration : Bool
  deriving DecidableEq

namespace Occurrence

/-- Occurrences are ordered by their start, a declaration before a reference. -/
def le (a b : Occurrence) : Bool :=
  a.span.start < b.span.start || (a.span.start == b.span.start && (a.isDeclaration || !b.isDeclaration))

/-- The list without occurrences that have the span of the one before them. -/
def dedup : List Occurrence → List Occurrence
  | [] => []
  | a :: rest =>
    match dedup rest with
    | [] => [a]
    | b :: bs => if a.span = b.span then a :: bs else a :: b :: bs

end Occurrence

/-- The declaration of the symbol that the context is about. -/
def definitionSpan (t : SymbolTable) : Context → Option Span
  | .symbol key _ => t.declarationOf key
  | .template name span _ =>
    match t.partials.resolve name span.start with
    | .inline definition _ => some definition.nameSpan
    | .global nameSpan => some nameSpan
    | .unresolved => none

def declarations (spans : Option Span) : List Occurrence := (spans.map (⟨·, true⟩)).toList

def references (spans : List Span) : List Occurrence := spans.map (⟨·, false⟩)

/-- The uses of a template variable as a partial. -/
def partialUses (t : SymbolTable) (engine : String) : SymbolKey → List Span
  | .pipeline _ => []
  | .typed kind name => if kind = engine then t.partials.globalUsages name else []

/-- The occurrences of a pipeline or a variable. -/
def ofKey (t : SymbolTable) (engine : String) (key : SymbolKey) : List Occurrence :=
  declarations (t.declarationOf key)
    ++ references (t.referencesOf key ++ partialUses t engine key)

/-- The occurrences of what the context is about, in no order. -/
def ofContext (t : SymbolTable) (engine : String) : Context → List Occurrence
  | .symbol key _ => ofKey t engine key
  | .template name span _ =>
    match t.partials.resolve name span.start with
    | .inline definition region =>
      declarations (some definition.nameSpan) ++ references (t.partials.regionUsages name region)
    | .global _ => ofKey t engine (.typed engine name)
    | .unresolved => references (t.partials.unresolvedUsages name)

/-- The occurrences of what the context is about, in the order of the document. -/
def occurrences (t : SymbolTable) (engine : String) (context : Context) : List Occurrence :=
  Occurrence.dedup ((ofContext t engine context).mergeSort Occurrence.le)

namespace Document

def symbols (d : Document) : SymbolTable := d.analysis.symbols

/-- What the position is on. -/
def contextAt (d : Document) (p : Position) : Option Context :=
  (p.offset? d.text).bind (Context.resolve d.text · d.symbols)

/-- The occurrences of what the position is on. -/
def occurrencesAt (d : Document) (p : Position) : List Occurrence :=
  match d.contextAt p with
  | some context => occurrences d.symbols d.engine context
  | none => []

def range (d : Document) (s : Span) : Range := .ofSpan d.text s

end Document
end PipelineLang.Editor
