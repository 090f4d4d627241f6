import PipelineLang.Check.CommandLine
import PipelineLang.Index.Analysis
import PipelineLang.Source.LineColumn
import PipelineLang.Text.JsonValue

/-!
# Checking files

The files are read and analyzed in the order in which they are named. One that cannot be read ends
the check and nothing is reported. Otherwise the check fails if a diagnostic is an error, and the
format decides what is printed: all diagnostics with their number as JSON, or lines of text of
which the last sums up.
-/

namespace PipelineLang.Check

/-- Why a file cannot be read. -/
inductive ReadFault where
  | notFound
  | notUtf8
  | other (reason : String)
  deriving DecidableEq

def ReadFault.message : ReadFault → String
  | .notFound => "No such file or directory (os error 2)"
  | .notUtf8 => "stream did not contain valid UTF-8"
  | .other reason => reason

/-- A file that cannot be read. -/
structure ReadFailure where
  file : String
  fault : ReadFault
  deriving DecidableEq

def ReadFailure.message (f : ReadFailure) : String :=
  "failed to read " ++ f.file ++ ": " ++ f.fault.message

/-- What was found in a file. -/
structure FileReport where
  file : String
  text : List Char
  diagnostics : List Diagnostic

namespace FileReport

/-- Analyzes the text of a file. -/
def ofText (engine file : String) (text : List Char) : FileReport :=
  ⟨file, text, (analyze engine text).diagnostics⟩

/-- Reads and analyzes the files in order, up to the first that cannot be read. -/
def ofFiles (engine : String) (read : String → Except ReadFault (List Char)) :
    List String → Except ReadFailure (List FileReport)
  | [] => .ok []
  | file :: files =>
    match read file with
    | .error fault => .error ⟨file, fault⟩
    | .ok text => do return ofText engine file text :: (← ofFiles engine read files)

/-- A diagnostic as an object, with the first and the last place of its span. -/
def entry (r : FileReport) (d : Diagnostic) : JsonValue :=
  let start := LineColumn.ofOffset r.text d.span.start
  let stop := LineColumn.ofOffset r.text d.span.stop
  .obj [("file", .str r.file), ("line", .nat start.line), ("column", .nat start.column),
    ("end_line", .nat stop.line), ("end_column", .nat stop.column),
    ("severity", .str d.severity.render), ("code", .str d.code), ("message", .str d.message)]

/-- A diagnostic as a line of text, with the first place of its span. -/
def line (r : FileReport) (d : Diagnostic) : String :=
  let start := LineColumn.ofOffset r.text d.span.start
  s!"{r.file}:{start.line}:{start.column}: " ++ d.severity.render ++ " [" ++ d.code ++ "]: "
    ++ d.message

end FileReport

/-- How many errors and warnings there are. -/
structure Tally where
  errors : Nat
  warnings : Nat
  deriving DecidableEq

def Tally.ofReports (reports : List FileReport) : Tally :=
  let diagnostics := reports.flatMap (·.diagnostics)
  ⟨diagnostics.countP (·.severity == .error), diagnostics.countP (·.severity == .warning)⟩

/-- A number of things, in words. -/
def quantity (n : Nat) (noun : String) : String :=
  if n = 1 then s!"{n} {noun}" else s!"{n} {noun}s"

/-- The line that sums up. Of errors and warnings it names those that there are. -/
def Tally.summary (t : Tally) (files : Nat) : String :=
  let found :=
    if t.errors = 0 ∧ t.warnings = 0 then "✓ No problems found"
    else if t.errors = 0 then "⚠ " ++ quantity t.warnings "warning"
    else if t.warnings = 0 then "✗ " ++ quantity t.errors "error"
    else "✗ " ++ quantity t.errors "error" ++ ", " ++ quantity t.warnings "warning"
  found ++ " in " ++ quantity files "file"

/-- What is printed. -/
inductive Output where
  | nothing
  | json (value : JsonValue)
  | lines (lines : List String)

/-- The end of a check of files that could all be read. -/
structure Outcome where
  exitCode : Nat
  output : Output

namespace Outcome

/-- All diagnostics, and the number of files, errors and warnings. -/
def document (reports : List FileReport) : JsonValue :=
  let tally := Tally.ofReports reports
  .obj [("diagnostics", .arr (reports.flatMap fun r => r.diagnostics.map r.entry)),
    ("file_count", .nat reports.length), ("error_count", .nat tally.errors),
    ("warning_count", .nat tally.warnings)]

/-- A line for each diagnostic, and one that sums up. -/
def lines (reports : List FileReport) : List String :=
  (reports.flatMap fun r => r.diagnostics.map r.line)
    ++ [(Tally.ofReports reports).summary reports.length]

/-- To be quiet silences text only. -/
def ofReports (options : Options) (reports : List FileReport) : Outcome :=
  { exitCode := if (Tally.ofReports reports).errors = 0 then 0 else 1
    output :=
      match options.format with
      | .json => .json (document reports)
      | .text => if options.quiet then .nothing else .lines (lines reports) }

end Outcome

/-- Checks the files that the options name. -/
def check (options : Options) (read : String → Except ReadFault (List Char)) :
    Except ReadFailure Outcome := do
  let reports ← FileReport.ofFiles (options.engine.getD defaultEngine) read options.files
  return .ofReports options reports

/-- What a check prints. One that cannot read a file prints nothing. -/
def written : Except ReadFailure Outcome → Output
  | .error _ => .nothing
  | .ok outcome => outcome.output

end PipelineLang.Check
