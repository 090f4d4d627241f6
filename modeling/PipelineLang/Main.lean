import PipelineLang.Check.Report
import PipelineLang.Text.JsonText

/-!
# The checker

The program reads the files that its command line names and prints what the check finds. It exits
with 0 if there are no errors, with 1 if there are, and with 2 if nothing could be checked.
-/

namespace PipelineLang.Check

/-- What is printed for `--help`. -/
def helpLines : List String := [
  "Validate pipeline documents and report problems",
  "",
  "Usage: check [OPTIONS] <FILE>...",
  "",
  "Options:",
  "  -v, --verbose                 Print how long the check took",
  "  -q, --quiet                   Print no text",
  "  -f, --format <FORMAT>         Print as text or json [default: text]",
  "      --template-engine <NAME>  The type and step that hold templates [default: handlebars]",
  "  -h, --help                    Print help",
  "  -V, --version                 Print version"]

/-- Reads the text of a file. -/
def readFile (name : String) : IO (Except ReadFault (List Char)) := do
  match ← (IO.FS.readBinFile name).toBaseIO with
  | .error (.noFileOrDirectory ..) => return .error .notFound
  | .error e => return .error (.other (toString e))
  | .ok bytes =>
    match String.fromUTF8? bytes with
    | some text => return .ok text.toList
    | none => return .error .notUtf8

/-- Prints lines. -/
def printLines (lines : List String) : IO Unit := lines.forM fun line => IO.println line

/-- Reads the files, checks them and prints the outcome. -/
def runCheck (options : Options) : IO UInt32 := do
  let start ← IO.monoMsNow
  let texts ← options.files.mapM fun file => return (file, ← readFile file)
  let result := check options fun file => (texts.lookup file).getD (.error .notFound)
  match written result with
  | .nothing => pure ()
  | .json value => IO.println value.render
  | .lines lines => printLines lines
  match result with
  | .error failure =>
    IO.eprintln ("error: " ++ failure.message)
    return 2
  | .ok outcome =>
    if options.verbose then
      let stop ← IO.monoMsNow
      IO.eprintln s!"checked {options.files.length} file(s) in {stop - start} ms"
    return outcome.exitCode.toUInt32

end PipelineLang.Check

open PipelineLang.Check in
/-- Does what the command line asks for. -/
def main (args : List String) : IO UInt32 := do
  match Request.ofWords args with
  | .error fault =>
    IO.eprintln ("error: " ++ fault.message)
    return 2
  | .ok .help => do
    printLines helpLines
    return 0
  | .ok .version => do
    IO.println "0.3.0"
    return 0
  | .ok (.check options) => runCheck options
