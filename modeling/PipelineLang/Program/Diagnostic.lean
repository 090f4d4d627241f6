import PipelineLang.Source.Span

/-!
# Diagnostics of parsing

Parsing never fails. What it cannot read it reports, each report with the span it is about. The
cause decides the code, the severity and the wording.
-/

namespace PipelineLang

inductive Severity where
  | error
  | warning
  | info
  deriving DecidableEq

def Severity.render : Severity → String
  | .error => "error"
  | .warning => "warning"
  | .info => "info"

/-- What is wrong with a document. -/
inductive SyntaxFault where
  /-- A line that starts no declaration, quoted up to a fixed length. -/
  | unrecognized (snippet : String)
  | invalidStatus (status : Nat)
  | unclosedBacktick
  | invalidProperty (key : String)
  | unclosedConfig (name : String)
  /-- A test that runs nothing. -/
  | missingWhen (test : String)
  | nestedTooDeep (levels : Nat)
  deriving DecidableEq

namespace SyntaxFault

def code : SyntaxFault → String
  | .unrecognized _ => "P0001"
  | .invalidStatus _ => "P0002"
  | .unclosedBacktick => "P0003"
  | .invalidProperty _ => "P0004"
  | .unclosedConfig _ => "P0005"
  | .missingWhen _ => "P0006"
  | .nestedTooDeep _ => "P0007"

def severity : SyntaxFault → Severity
  | .invalidStatus _ | .nestedTooDeep _ => .error
  | _ => .warning

def message : SyntaxFault → String
  | .unrecognized snippet => "unrecognized syntax: " ++ snippet
  | .invalidStatus status => s!"invalid HTTP status code {status}: expected 100-599"
  | .unclosedBacktick => "unclosed backtick string"
  | .invalidProperty key => "invalid value for config property '" ++ key ++ "'"
  | .unclosedConfig name => "config block '" ++ name ++ "' is missing its closing '\x7d'"
  | .missingWhen test => "test '" ++ test ++ "' has no 'when' clause"
  | .nestedTooDeep levels => s!"result branches nested deeper than {levels} levels"

end SyntaxFault

/-- A fault and where it is. -/
structure SyntaxReport where
  fault : SyntaxFault
  span : Span
  deriving DecidableEq

def SyntaxReport.render (r : SyntaxReport) : String :=
  r.fault.severity.render ++ ": " ++ r.fault.message ++ " at " ++ r.span.render

end PipelineLang
