import PipelineLang.Grammar.Config
import PipelineLang.Grammar.TestBlock
import PipelineLang.Program.Key
import PipelineLang.Text.Table

/-!
# Documents

A document is read item by item: an item is a declaration, or a line that starts none and is
reported. Program, reports and the tables of declared names are all views of the list of items.
-/

namespace PipelineLang.Grammar

open Cursor

/-- The most characters that a report quotes of a line. -/
def snippetLength : Nat := 60

/-- A piece of a document: a declaration with the reports made inside it, or a line that is none. -/
inductive Item where
  | config (value : Spanned Config) (reports : List SyntaxReport)
  | pipeline (value : Spanned NamedPipeline) (reports : List SyntaxReport)
  | typedVariable (value : Spanned Variable)
  | route (value : Spanned Route) (reports : List SyntaxReport)
  | suite (value : Spanned TestSuite) (reports : List SyntaxReport)
  | unrecognized (report : SyntaxReport)

namespace Item

def asConfig? : Item → Option (Spanned Config)
  | .config v _ => some v
  | _ => none

def asPipeline? : Item → Option (Spanned NamedPipeline)
  | .pipeline v _ => some v
  | _ => none

def asVariable? : Item → Option (Spanned Variable)
  | .typedVariable v => some v
  | _ => none

def asRoute? : Item → Option (Spanned Route)
  | .route v _ => some v
  | _ => none

def asSuite? : Item → Option (Spanned TestSuite)
  | .suite v _ => some v
  | _ => none

def reports : Item → List SyntaxReport
  | .config _ rs | .pipeline _ rs | .route _ rs | .suite _ rs => rs
  | .typedVariable _ => []
  | .unrecognized r => [r]

def span : Item → Span
  | .config v _ => v.span
  | .pipeline v _ => v.span
  | .typedVariable v => v.span
  | .route v _ => v.span
  | .suite v _ => v.span
  | .unrecognized r => r.span

end Item

/-- Reads a declaration of any kind. -/
def declaration (c : Cursor) : Option (Item × Cursor) :=
  ((config c).map fun (v, rs, next) => (.config v rs, next))
    |>.or ((namedPipeline c).map fun (v, rs, next) => (.pipeline v rs, next))
    |>.or ((typedVariable c).map fun (v, next) => (.typedVariable v, next))
    |>.or ((route c).map fun (v, rs, next) => (.route v rs, next))
    |>.or ((suite c).map fun (v, rs, next) => (.suite v rs, next))

/-- The line at the cursor as one that starts no declaration. -/
def unrecognizedLine (c : Cursor) : Item × Cursor :=
  let text := Blank.trimEnd c.line
  let fault := .unrecognized (String.ofList (text.take snippetLength))
  (.unrecognized ⟨fault, .ofLength c.offset (Utf8.byteLength text)⟩, c.lineEnd)

/-- Reads the next item behind the layout, unless the document ends there. -/
def item (c : Cursor) : Option (Item × Cursor) :=
  let c := c.layout
  if c.atEnd then none
  else
    match declaration c with
    | some read => some read
    | none => some (unrecognizedLine c)

/-- The items of a document. -/
def items (text : List Char) : List Item := ((Cursor.start 0 text).many item).1

/-- The offset of each backtick. -/
def tickOffsets (offset : Nat) : List Char → List Nat
  | [] => []
  | c :: cs =>
    let later := tickOffsets (offset + c.utf8Size) cs
    if c = tick then offset :: later else later

/-- Of an odd number of backticks the last one is reported as unclosed. -/
def unclosedTick (text : List Char) : List SyntaxReport :=
  let offsets := tickOffsets 0 text
  match offsets.getLast? with
  | some last => if offsets.length % 2 = 1 then [⟨.unclosedBacktick, .ofLength last 1⟩] else []
  | none => []

/-! ## Views of the items -/

def programOfItems (items : List Item) : Program :=
  { configs := items.filterMap Item.asConfig?
    pipelines := items.filterMap Item.asPipeline?
    typedVariables := items.filterMap Item.asVariable?
    routes := items.filterMap Item.asRoute?
    suites := items.filterMap Item.asSuite? }

/-- Where a declaration and its name stand. -/
structure Site where
  span : Span
  nameSpan : Span
  deriving DecidableEq

/-- A named pipeline under its name. -/
def Item.pipelineSite? (i : Item) : Option (String × Site) :=
  i.asPipeline?.map fun v => (v.value.name, ⟨v.span, v.value.nameSpan⟩)

/-- A variable under its type and name. -/
def Item.variableSite? (i : Item) : Option (String × Site) :=
  i.asVariable?.map fun v =>
    (SymbolKey.joinVariable v.value.kind v.value.name, ⟨v.span, v.value.nameSpan⟩)

/-- What reading a document yields. -/
structure Parse where
  program : Program
  reports : List SyntaxReport
  /-- The last declaration of each pipeline name. -/
  pipelineSites : Table Site
  /-- The last declaration of each variable, by type and name. -/
  variableSites : Table Site

/-- Reads a document. -/
def parse (text : List Char) : Parse :=
  let items := items text
  { program := programOfItems items
    reports := items.flatMap Item.reports ++ unclosedTick text
    pipelineSites := .ofList (items.filterMap Item.pipelineSite?)
    variableSites := .ofList (items.filterMap Item.variableSite?) }

end PipelineLang.Grammar
