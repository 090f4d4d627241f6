import PipelineLang.Index.Validation

/-!
# Analyses

An analysis is everything that is known about one text: its program, its symbols and the reports
of both stages, which `diagnostics` lists in one form.
-/

namespace PipelineLang

/-- A report of any stage. -/
structure Diagnostic where
  code : String
  severity : Severity
  span : Span
  message : String
  deriving DecidableEq

def SyntaxReport.diagnostic (r : SyntaxReport) : Diagnostic :=
  ⟨r.fault.code, r.fault.severity, r.span, r.fault.message⟩

def ReferenceReport.diagnostic (r : ReferenceReport) : Diagnostic :=
  ⟨r.fault.code, r.fault.severity, r.span, r.fault.message⟩

/-- What is known about a text. -/
structure Analysis where
  program : Program
  symbols : SymbolTable
  syntaxReports : List SyntaxReport
  referenceReports : List ReferenceReport

/-- The template engine that is assumed where none is named. -/
def defaultEngine : String := "handlebars"

/-- Analyzes a text, with the template engine of the given name. -/
def analyze (engine : String) (text : List Char) : Analysis :=
  let parse := Grammar.parse text
  let symbols := SymbolTable.build text engine parse
  { program := parse.program
    symbols
    syntaxReports := parse.reports
    referenceReports := Validation.validate parse.program symbols }

namespace Analysis

/-- The reports of reading the text, then those on its references. -/
def diagnostics (a : Analysis) : List Diagnostic :=
  a.syntaxReports.map SyntaxReport.diagnostic ++ a.referenceReports.map ReferenceReport.diagnostic

def hasErrors (a : Analysis) : Bool := a.diagnostics.any (·.severity == .error)

end Analysis
end PipelineLang
