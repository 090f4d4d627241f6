import PipelineLang.Editor.Navigation

/-!
# Completion

What can be completed at a cursor is read off the text before it on its line: the shapes of
references, broken off where the name starts or inside it. In template text only partials are
offered, an inline one before the global one of its name.
-/

namespace PipelineLang.Editor

open Cursor Reference

/-- What is expected at a cursor. -/
inductive Expected where
  | pipelineName
  | variableName (kind : String)
  | stepType
  /-- A partial, with the offset that decides which ones are seen. -/
  | partialName (offset : Nat)
  | unknown
  deriving DecidableEq

inductive ItemKind where
  | function
  | value
  | keyword
  | module
  deriving DecidableEq

/-- A name that is offered. -/
structure Completion where
  label : String
  kind : ItemKind
  detail : String
  deriving DecidableEq

/-! ## Shapes that are broken off -/

/-- Whether the text ends here, or behind the name that starts here. -/
def endsWithName (c : Cursor) : Bool :=
  match c.identifier with
  | some (_, last) => last.atEnd
  | none => c.atEnd

/-- Accepts the value where the text ends with a name. -/
def openEnd {α : Type} (a : α) (c : Cursor) : Option (α × Cursor) :=
  if endsWithName c then some (a, c) else none

/-- The value of the leftmost match. -/
def leftmost {α : Type} (shape : Cursor → Option (α × Cursor)) (c : Cursor) : Option α :=
  (searchAll shape c).head?.map (·.1)

/-- Matches `|> kind:` with the start of a name. -/
def openStep (c : Cursor) : Option (String × Cursor) := do
  let (kind, next) ← (← c.chars ['|', '>']).blanks.identifier
  openEnd kind.text (← next.blanks.char ':').blanks

/-- Matches `|> pipeline:` with the start of a name. -/
def openPipelineStep (c : Cursor) : Option (Unit × Cursor) :=
  (openStep c).bind fun (kind, last) => if kind = "pipeline" then some ((), last) else none

/-- Matches `when executing pipeline` with the start of a name. -/
def openWhenPipeline (c : Cursor) : Option (Unit × Cursor) :=
  (whenExecuting "pipeline".toList c).bind (openEnd ())

/-- Matches `when executing variable kind` with the start of a name. -/
def openWhenVariable (c : Cursor) : Option (String × Cursor) := do
  let (kind, next) ← (← whenExecuting "variable".toList c).identifier
  openEnd kind.text (← next.someBlanks)

/-- Matches `mock` at the start of a word. -/
def mockWord (c : Cursor) : Option Cursor := if atBoundary c then spaced "mock".toList c else none

/-- Matches `mock pipeline` with the start of a name. -/
def openMockPipeline (c : Cursor) : Option (Unit × Cursor) := do
  openEnd () (← spaced "pipeline".toList (← mockWord c))

/-- Matches `mock kind.` with the start of a name. -/
def openMockVariable (c : Cursor) : Option (String × Cursor) := do
  let (kind, next) ← (← mockWord c).identifier
  openEnd kind.text (← next.char '.')

/-- Matches `|>` with the start of a step type. -/
def openStepType (c : Cursor) : Option (Unit × Cursor) :=
  (c.chars ['|', '>']).bind fun next => openEnd () next.blanks

/-- Matches the use of a partial with the start of its name. -/
def openUsage (c : Cursor) : Option (Unit × Cursor) := do
  let arrow ← (Template.optional '#' (← Template.openTag c)).char '>'
  let last := arrow.blanks.skipWhile fun x => !Blank.isWhite x && x != '\x7d' && x != '~'
  if last.atEnd then some ((), last) else none

/-! ## What is expected -/

/-- What is expected behind the text before a cursor outside template text. -/
def expectedBehind (c : Cursor) : Expected :=
  if (leftmost openPipelineStep c).isSome || (leftmost openWhenPipeline c).isSome
      || (leftmost openMockPipeline c).isSome then .pipelineName
  else
    match (leftmost openStep c).or ((leftmost openWhenVariable c).or (leftmost openMockVariable c)) with
    | some kind => .variableName kind
    | none => if (leftmost openStepType c).isSome then .stepType else .unknown

/-- What is expected at an offset of a text. -/
def expectedAt (text : List Char) (offset : Nat) (t : SymbolTable) : Expected :=
  let line := Cursor.start 0 (Lines.last (Utf8.splitFloor offset text).1)
  if (t.partials.regionAt offset).isSome then
    if (leftmost openUsage line).isSome then .partialName offset else .unknown
  else expectedBehind line

/-! ## What is offered -/

/-- The partials that are seen at the offset; of two with one name the inline one. -/
def partialItems (p : Template.Partials) (offset : Nat) : List Completion :=
  let inline := (p.scopes.filter (·.region.contains offset)).flatMap fun scope =>
    scope.definitions.names.map (⟨·, .module, "inline partial"⟩)
  let global := p.globals.names.map (⟨·, .module, "partial"⟩)
  dedup ((inline ++ global).mergeSort fun a b => a.label ≤ b.label)
where
  /-- The list without items that have the label of the one before them. -/
  dedup : List Completion → List Completion
    | [] => []
    | a :: rest =>
      match dedup rest with
      | [] => [a]
      | b :: bs => if a.label = b.label then a :: bs else a :: b :: bs

/-- The names that are offered where something is expected. -/
def itemsFor (t : SymbolTable) : Expected → List Completion
  | .pipelineName => t.pipelineNames.names.map (⟨·, .function, "pipeline"⟩)
  | .variableName kind => (t.namesOfType kind).map (⟨·, .value, kind⟩)
  | .stepType => ("pipeline" :: t.variableNames.names).map (⟨·, .keyword, "step"⟩)
  | .partialName offset => partialItems t.partials offset
  | .unknown => []

namespace Document

/-- What is expected at the position. -/
def expected (d : Document) (p : Position) : Option Expected :=
  (p.offset? d.text).map fun offset => expectedAt d.text offset d.symbols

/-- What is offered at the position. -/
def completions (d : Document) (p : Position) : Option (List Completion) :=
  (d.expected p).bind fun expected => nonempty (itemsFor d.symbols expected)

end Document
end PipelineLang.Editor
