import PipelineLang.Reference.Search
import PipelineLang.Program.Key
import PipelineLang.Text.Table

/-!
# References in a text

References are found by the shapes in which they are written, not through the program, so they
are found in lines that do not parse as well:

* `|> pipeline: name` and `|> type: name`, where `name` stands alone;
* `when executing pipeline name` and `when executing variable type name`, likewise;
* `with mock pipeline name returning` and `with mock type.name returning`, also with `and`.

The span of a reference is that of the name.
-/

namespace PipelineLang

/-- A symbol that is referred to, and where its name stands. -/
structure Reference where
  key : SymbolKey
  span : Span
  deriving DecidableEq

namespace Reference

open Cursor

/-! ## Shapes -/

/-- The symbol that a step refers to: a pipeline in a `pipeline` step, else a variable. -/
def ofStep (kind : String) (name : Token) : Reference :=
  if kind = "pipeline" then ⟨.pipeline name.text, name.span⟩ else ⟨.typed kind name.text, name.span⟩

/-- Matches `|> kind: name`. -/
def stepShape (c : Cursor) : Option (Reference × Cursor) := do
  let (kind, next) ← (← c.chars ['|', '>']).blanks.identifier
  let (name, last) ← (← next.blanks.char ':').blanks.identifier
  return (ofStep kind.text name, last)

/-- Matches `when executing` with the word behind it. -/
def whenExecuting (word : List Char) (c : Cursor) : Option Cursor := do
  if atBoundary c then spaced word (← spaced "executing".toList (← spaced "when".toList c)) else none

/-- Matches `when executing pipeline name`. -/
def whenPipelineShape (c : Cursor) : Option (Reference × Cursor) := do
  let (name, last) ← (← whenExecuting "pipeline".toList c).identifier
  return (⟨.pipeline name.text, name.span⟩, last)

/-- Matches `when executing variable kind name`. -/
def whenVariableShape (c : Cursor) : Option (Reference × Cursor) := do
  let (kind, next) ← (← whenExecuting "variable".toList c).identifier
  let (name, last) ← (← next.someBlanks).identifier
  return (⟨.typed kind.text name.text, name.span⟩, last)

/-- Matches `with mock` or `and mock`. -/
def withMock (c : Cursor) : Option Cursor := do
  if atBoundary c then
    let word ← (c.chars "with".toList).or (c.chars "and".toList)
    spaced "mock".toList (← word.someBlanks)
  else none

/-- Matches `returning` behind the name of what is mocked. -/
def thenReturning (c : Cursor) : Option Cursor := do
  let last ← (← c.someBlanks).chars "returning".toList
  if atBoundary last then some last else none

/-- Matches `with mock pipeline name returning`. -/
def mockPipelineShape (c : Cursor) : Option (Reference × Cursor) := do
  let (name, next) ← (← spaced "pipeline".toList (← withMock c)).identifier
  return (⟨.pipeline name.text, name.span⟩, ← thenReturning next)

/-- Matches `with mock kind.name returning`. -/
def mockVariableShape (c : Cursor) : Option (Reference × Cursor) := do
  let (kind, next) ← (← withMock c).identifier
  let (name, behind) ← (← next.char '.').identifier
  return (⟨.typed kind.text name.text, name.span⟩, ← thenReturning behind)

/-! ## Matches -/

/-- The matches of a shape. -/
def matching (shape : Cursor → Option (Reference × Cursor)) (c : Cursor) : List Reference :=
  (searchAll shape c).map (·.1)

/-- The matches of a shape that end with a name that stands alone. -/
def matchingBare (shape : Cursor → Option (Reference × Cursor)) (c : Cursor) : List Reference :=
  ((searchAll shape c).filter (isBare ·.2)).map (·.1)

/-- The references made by steps. -/
def inSteps (c : Cursor) : List Reference := matchingBare stepShape c

/-- The references made by the clauses of tests. -/
def inTests (c : Cursor) : List Reference :=
  matchingBare whenPipelineShape c ++ matchingBare whenVariableShape c
    ++ matching mockPipelineShape c ++ matching mockVariableShape c

/-- Every reference in a text, in the order of the spans. -/
def scan (text : List Char) : List Reference :=
  let c := Cursor.start 0 text
  (inSteps c ++ inTests c).mergeSort fun r s => r.span.le s.span

def ofPipeline? (r : Reference) : Option (String × Span) :=
  match r.key with
  | .pipeline name => some (name, r.span)
  | .typed .. => none

def ofVariable? (r : Reference) : Option (String × Span) :=
  match r.key with
  | .pipeline _ => none
  | .typed kind name => some (SymbolKey.joinVariable kind name, r.span)

end Reference

/-- The references of a document by the text of their symbol. -/
structure ReferenceTable where
  pipelines : Table (List Span)
  typed : Table (List Span)

def ReferenceTable.ofList (references : List Reference) : ReferenceTable :=
  { pipelines := .group (references.filterMap Reference.ofPipeline?)
    typed := .group (references.filterMap Reference.ofVariable?) }

end PipelineLang
