import PipelineLang.Grammar.Declaration

/-!
# Test blocks

`describe "name"` holds mocks and tests, `it "name"` holds mocks, what the test runs, its input and
its conditions. Clauses come in any order; of two actions or inputs the last counts. A test that
runs nothing is reported and left out.
-/

namespace PipelineLang.Grammar

open Cursor

/-- Reads the value of a clause: a text in backticks or quotes, or the rest of the line. -/
def clauseValue (c : Cursor) : Option (Token × Cursor) :=
  if c.peek = some tick then c.backtickText
  else if c.peek = some '"' then c.quotedText
  else c.restOfLine

/-- Reads a word and the blanks behind it. -/
def spacedWord (word : List Char) (c : Cursor) : Option Cursor := (c.keyword word).bind someBlanks

/-- Reads an identifier and the blanks behind it. -/
def spacedName (c : Cursor) : Option (Token × Cursor) := do
  let (name, next) ← c.identifier
  return (name, ← next.someBlanks)

/-- Reads `pipeline name`. -/
def pipelineTarget (c : Cursor) : Option (Token × Cursor) :=
  (spacedWord "pipeline".toList c).bind identifier

/-- Reads what a mock stands in for: `pipeline name`, `type.name` or a bare name. -/
def mockTarget (c : Cursor) : Option (String × Cursor) :=
  match pipelineTarget c with
  | some (name, next) => some ("pipeline " ++ name.text, next)
  | none => do
    let (head, next) ← c.identifier
    match next.char '.' with
    | none => return (head.text, next)
    | some dot =>
      let (tail, last) ← dot.identifier
      return (head.text ++ "." ++ tail.text, last)

def mock (c : Cursor) : Option (Mock × Cursor) := do
  let next ← (spacedWord "with".toList c).or (spacedWord "and".toList c)
  let (target, behind) ← mockTarget (← spacedWord "mock".toList next)
  let returning ← (← behind.someBlanks).keyword "returning".toList
  let (value, last) ← clauseValue returning.blanks
  return (⟨target, value.text⟩, last)

/-- Reads `calling METHOD path`. -/
def routeAction (c : Cursor) : Option (Action × Cursor) := do
  let (method, next) ← method c
  let (path, last) ← (← next.someBlanks).bareToken
  return (.callRoute method.text path.text, last)

/-- Reads `variable type name`. -/
def variableAction (c : Cursor) : Option (Action × Cursor) := do
  let (kind, next) ← spacedName (← spacedWord "variable".toList c)
  let (name, last) ← next.identifier
  return (.runVariable kind.text name.text, last)

/-- Reads `pipeline name`, or `variable type name` where the word is not `pipeline`. -/
def runAction (c : Cursor) : Option (Action × Cursor) :=
  match c.keyword "pipeline".toList with
  | some next => do
    let (name, last) ← (← next.someBlanks).identifier
    return (.runPipeline name.text, last)
  | none => variableAction c

def action (c : Cursor) : Option (Action × Cursor) := do
  let next ← spacedWord "when".toList c
  match next.keyword "calling".toList with
  | some behind => routeAction (← behind.someBlanks)
  | none => runAction (← spacedWord "executing".toList next)

def input (c : Cursor) : Option (Token × Cursor) := do
  let next ← spacedWord "with".toList c
  clauseValue (← next.keyword "input".toList).blanks

/-- Reads the word that opens a condition. -/
def lead (c : Cursor) : Option (Lead × Cursor) :=
  match c.keyword "then".toList with
  | some next => some (.opening, next)
  | none => (c.keyword "and".toList).map (.continuing, ·)

/-- Reads a query in backticks and the blanks behind it, if a backtick is next. -/
def query (c : Cursor) : Option (Option String × Cursor) :=
  if c.peek = some tick then do
    let (text, next) ← c.backtickText
    return (some text.text, ← next.someBlanks)
  else some (none, c)

/-- Reads a comparison: a word, and `not` behind it if it is there. -/
def comparison (c : Cursor) : Option (String × Cursor) := do
  let (word, next) ← c.identifier
  match next.someBlanks.bind (keyword "not".toList) with
  | some last => return (word.text ++ " not", last)
  | none => return (word.text, next)

def condition (c : Cursor) : Option (Condition × Cursor) := do
  let (lead, next) ← lead c
  let (field, behind) ← spacedName (← next.someBlanks)
  let (query, behind) ← query behind
  let (comparison, behind) ← comparison behind
  let (value, last) ← clauseValue behind.blanks
  return (⟨lead, field.text, query, comparison, value.text⟩, last)

/-! ## Tests -/

/-- A clause of a test. -/
inductive TestClause where
  | mock (value : Mock)
  | action (value : Action)
  | input (value : String)
  | condition (value : Condition)
  deriving DecidableEq

namespace TestClause

def mock? : TestClause → Option Mock
  | .mock m => some m
  | _ => none

def action? : TestClause → Option Action
  | .action a => some a
  | _ => none

def input? : TestClause → Option String
  | .input s => some s
  | _ => none

def condition? : TestClause → Option Condition
  | .condition k => some k
  | _ => none

end TestClause

def testClause (c : Cursor) : Option (TestClause × Cursor) :=
  let c := c.layout
  ((mock c).map fun (m, next) => (.mock m, next))
    |>.or ((action c).map fun (a, next) => (.action a, next))
    |>.or ((input c).map fun (s, next) => (.input s.text, next))
    |>.or ((condition c).map fun (k, next) => (.condition k, next))

/-- The test that the clauses make up, if one of them says what it runs. -/
def testOfClauses (name : String) (clauses : List TestClause) : Option TestCase :=
  (clauses.filterMap TestClause.action?).getLast?.map fun action =>
    { name
      mocks := clauses.filterMap TestClause.mock?
      action
      input := (clauses.filterMap TestClause.input?).getLast?
      conditions := clauses.filterMap TestClause.condition? }

/-- Reads an `it` block. The report tells of a test that runs nothing. -/
def test (c : Cursor) : Option (Except SyntaxReport TestCase × Cursor) := do
  let (name, next) ← (← spacedWord "it".toList c).quotedText
  let (clauses, last) := next.many testClause
  match testOfClauses name.text clauses with
  | some t => return (.ok t, last)
  | none => return (.error ⟨.missingWhen name.text, ⟨c.offset, next.offset⟩⟩, last)

/-- What a suite holds: a mock for all of its tests, a test, or the report of one left out. -/
inductive SuiteItem where
  | mock (value : Mock)
  | test (value : TestCase)
  | fault (report : SyntaxReport)

namespace SuiteItem

def mock? : SuiteItem → Option Mock
  | .mock m => some m
  | _ => none

def test? : SuiteItem → Option TestCase
  | .test t => some t
  | _ => none

def report? : SuiteItem → Option SyntaxReport
  | .fault r => some r
  | _ => none

end SuiteItem

def suiteItem (c : Cursor) : Option (SuiteItem × Cursor) :=
  let c := c.layout
  match mock c with
  | some (m, next) => some (.mock m, next)
  | none =>
    match test c with
    | some (.ok t, next) => some (.test t, next)
    | some (.error r, next) => some (.fault r, next)
    | none => none

/-- Reads a `describe` block. -/
def suite (c : Cursor) : Option (Spanned TestSuite × List SyntaxReport × Cursor) := do
  let (name, next) ← (← spacedWord "describe".toList c).quotedText
  let (items, last) := next.many suiteItem
  let suite := ⟨name.text, items.filterMap SuiteItem.mock?, items.filterMap SuiteItem.test?⟩
  return (⟨suite, ⟨c.offset, last.offset⟩⟩, items.filterMap SuiteItem.report?, last)

end PipelineLang.Grammar
