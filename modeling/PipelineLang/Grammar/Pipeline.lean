import PipelineLang.Grammar.Cursor
import PipelineLang.Program.Basic
import PipelineLang.Program.Diagnostic

/-!
# Pipelines

A pipeline is a run of `|>` steps. Indentation tells to which branch a step or a branch label
belongs: it has to stand to the right of the label of the branch that owns it. Branches nest up
to a fixed number of levels; a `result` step below the last level is reported and stays empty.
-/

namespace PipelineLang.Grammar

open Cursor

/-- How many branches may lie inside one another. -/
def maxNesting : Nat := 64

/-- The largest status that is kept; a longer run of digits stands for it. -/
def maxStatus : Nat := 4294967295

/-- The steps of a pipeline, the reports made on the way, and the cursor behind it. -/
abbrev PipelineReader := Cursor → List Step × List SyntaxReport × Cursor

/-- Whether the cursor is right of the label that owns the text. -/
def isRightOf (label : Option Nat) (c : Cursor) : Bool := label.all (· < c.column)

/-- Reads what a step hands on: a text in backticks or quotes, or a name that is a whole token. -/
def payload (c : Cursor) : Option (Payload × Span × Cursor) :=
  match c.peek with
  | some x =>
    if x = tick then (c.backtickText).map fun (t, next) => (.backtick t.text, t.span, next)
    else if x = '"' then (c.quotedText).map fun (t, next) => (.quoted t.text, t.span, next)
    else do
      let (t, next) ← c.identifier
      if next.atTokenEnd then some (.identifier t.text, t.span, next) else none
  | none => none

/-- Reads `name: payload` behind the arrow of a step that starts at `start`. -/
def call (start : Nat) (c : Cursor) : Option (Step × Cursor) := do
  let (name, next) ← c.identifier
  let colon ← next.blanks.char ':'
  let (value, span, last) ← payload colon.blanks
  return (.call ⟨start, last.offset⟩ name.text value span, last)

/-- Reads the word `result` where it is not the name of a middleware. -/
def resultWord (c : Cursor) : Option Cursor := do
  let next ← c.keyword "result".toList
  if next.blanks.peek = some ':' then none else some next

def statusOfDigits (digits : List Char) : Nat :=
  min maxStatus (digits.foldl (fun n x => 10 * n + Decimal.digitValue x) 0)

/-- The report on a status that no answer can have. -/
def statusReports (status : Nat) (span : Span) : List SyntaxReport :=
  if 100 ≤ status ∧ status ≤ 599 then [] else [⟨.invalidStatus status, span⟩]

/-- Reads a branch; `inner` reads its steps, given the column of its label. -/
def branch (inner : Nat → PipelineReader) (c : Cursor) :
    Option ((Branch × List SyntaxReport) × Cursor) := do
  let (label, next) ← c.identifier
  let opening ← next.blanks.char '('
  let (digits, behind) := opening.blanks.takeWhile Char.isDigit
  if digits.span.isEmpty then none
  else
    let closing ← behind.blanks.char ')'
    let colon ← closing.blanks.char ':'
    let status := statusOfDigits digits.text.toList
    let (steps, reports, last) := inner c.column colon
    return ((.mk (.ofLabel label.text) status digits.span steps,
      statusReports status digits.span ++ reports), last)

/-- Reads a branch that stands right of the label that owns its `result` step. -/
def ownedBranch (inner : Nat → PipelineReader) (label : Option Nat) (c : Cursor) :
    Option ((Branch × List SyntaxReport) × Cursor) :=
  let c := c.layout
  if isRightOf label c then branch inner c else none

/-- The branches of a `result` step that starts at `start`; without a reader for the steps inside
them the rest of the line is dropped and reported. -/
def choice (inner : Option (Nat → PipelineReader)) (label : Option Nat) (start : Nat) (c : Cursor) :
    (Step × List SyntaxReport) × Cursor :=
  match inner with
  | none =>
    let last := c.lineEnd
    ((.result ⟨start, last.offset⟩ [], [⟨.nestedTooDeep maxNesting, ⟨start, last.offset⟩⟩]), last)
  | some inner =>
    let (items, last) := c.many (ownedBranch inner label)
    ((.result ⟨start, last.offset⟩ (items.map (·.1)), items.flatMap (·.2)), last)

/-- Reads a step at the cursor. -/
def step (inner : Option (Nat → PipelineReader)) (label : Option Nat) (c : Cursor) :
    Option ((Step × List SyntaxReport) × Cursor) := do
  let next := (← c.chars ['|', '>']).blanks
  match resultWord next with
  | some behind => some (choice inner label c.offset behind)
  | none => (call c.offset next).map fun (s, last) => ((s, []), last)

/-- Reads a step that stands right of the label that owns it. -/
def ownedStep (inner : Option (Nat → PipelineReader)) (label : Option Nat) (c : Cursor) :
    Option ((Step × List SyntaxReport) × Cursor) :=
  let c := c.layout
  if isRightOf label c then step inner label c else none

/-- The steps from the cursor on that stand right of `label`. -/
def steps (inner : Option (Nat → PipelineReader)) (label : Option Nat) : PipelineReader := fun c =>
  let (items, last) := c.many (ownedStep inner label)
  (items.map (·.1), items.flatMap (·.2), last)

/-- Reads the steps of a branch whose label is at the given column, where `levels` further levels
of branches may open inside. -/
def branchSteps : (levels : Nat) → Nat → PipelineReader
  | 0, label => steps none (some label)
  | levels + 1, label => steps (some (branchSteps levels)) (some label)

/-- Reads a pipeline that no branch owns. -/
def pipeline : PipelineReader := steps (some (branchSteps (maxNesting - 1))) none

end PipelineLang.Grammar
