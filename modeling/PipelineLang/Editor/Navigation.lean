import PipelineLang.Editor.Occurrence

/-!
# Navigation and renaming

What an editor asks about the symbol at a position: its definition, its references, what to
highlight, and the edits that rename it. A new name has to be an identifier.
-/

namespace PipelineLang.Editor

/-- A range of a document. -/
structure Location where
  uri : String
  range : Range
  deriving DecidableEq

/-- A range to highlight; the declaration counts as written, a reference as read. -/
structure Highlight where
  range : Range
  isWrite : Bool
  deriving DecidableEq

/-- A range and what is to stand there. -/
structure TextEdit where
  range : Range
  newText : String
  deriving DecidableEq

/-- The range that is offered for renaming, and the name that stands there. -/
structure RenameTarget where
  range : Range
  placeholder : String
  deriving DecidableEq

/-- The changes to one document. -/
structure WorkspaceEdit where
  uri : String
  edits : List TextEdit
  deriving DecidableEq

/-- Why a symbol is not renamed. -/
inductive RenameError where
  | invalidName (name : String)
  deriving DecidableEq

def RenameError.message : RenameError → String
  | .invalidName name => "'" ++ name ++ "' is not a valid name"

/-- Whether the text is an identifier. -/
def isName (text : String) : Bool :=
  match (Cursor.start 0 text.toList).identifier with
  | some (_, last) => last.atEnd
  | none => false

/-- The list, unless it is empty. -/
def nonempty {α : Type} : List α → Option (List α)
  | [] => none
  | as => some as

namespace Document

def location (d : Document) (s : Span) : Location := ⟨d.uri, d.range s⟩

/-- Where the symbol at the position is declared. -/
def definition (d : Document) (p : Position) : Option Location :=
  ((d.contextAt p).bind (definitionSpan d.symbols)).map d.location

/-- Where the symbol at the position is written. -/
def references (d : Document) (p : Position) (withDeclaration : Bool) : Option (List Location) :=
  nonempty (((d.occurrencesAt p).filter fun o => withDeclaration || !o.isDeclaration).map
    fun o => d.location o.span)

def highlights (d : Document) (p : Position) : Option (List Highlight) :=
  nonempty ((d.occurrencesAt p).map fun o => ⟨d.range o.span, o.isDeclaration⟩)

/-- What can be renamed at the position. -/
def prepareRename (d : Document) (p : Position) : Option RenameTarget :=
  (d.contextAt p).map fun context =>
    ⟨d.range context.span, String.ofList (context.span.text d.text)⟩

/-- The edits that give the symbol at the position a new name. -/
def rename (d : Document) (p : Position) (newName : String) :
    Except RenameError (Option WorkspaceEdit) :=
  if isName newName then
    .ok ((nonempty ((d.occurrencesAt p).map fun o => ⟨d.range o.span, newName⟩)).map (⟨d.uri, ·⟩))
  else .error (.invalidName newName)

end Document
end PipelineLang.Editor
