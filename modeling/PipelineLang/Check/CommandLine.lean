/-!
# The command line of the checker

A command line names the files to check and says how to report. It is first read word by word:
`--name` and `--name=value`, `-x` with several letters in one word and a value behind the last,
plain words, and behind `--` file names only. The items are then taken in order. A setting without
a value waits for the next plain word, and file names are collected while they follow each other;
both take effect only when the next known item is reached, so that an unknown one is reported
before what is wrong with them.
-/

namespace PipelineLang.Check

/-- How the result is printed. -/
inductive Format where
  | text
  | json
  deriving DecidableEq

def Format.ofName? (name : String) : Option Format :=
  if name = "text" then some .text else if name = "json" then some .json else none

/-- A name on the command line that stands for itself. -/
inductive Switch where
  | verbose
  | quiet
  | help
  | version
  deriving DecidableEq

def Switch.name : Switch → String
  | .verbose => "--verbose"
  | .quiet => "--quiet"
  | .help => "--help"
  | .version => "--version"

/-- A name on the command line that takes a value. -/
inductive Setting where
  | format
  | templateEngine
  deriving DecidableEq

def Setting.name : Setting → String
  | .format => "--format"
  | .templateEngine => "--template-engine"

/-- What is wrong with a command line. -/
inductive UsageFault where
  | missingFile
  /-- Two names that exclude each other, or one that is given twice. -/
  | conflict (first second : String)
  | missingValue (setting : Setting)
  | invalidValue (setting : Setting) (value : String)
  | emptyFileName
  | unknownName (name : String)
  | surplusValue (switch : Switch)
  deriving DecidableEq

def UsageFault.message : UsageFault → String
  | .missingFile => "no file is given"
  | .conflict first second => first ++ " cannot be used with " ++ second
  | .missingValue setting => setting.name ++ " needs a value"
  | .invalidValue setting value => "invalid value '" ++ value ++ "' for " ++ setting.name
  | .emptyFileName => "a file name is empty"
  | .unknownName name => "unknown argument '" ++ name ++ "'"
  | .surplusValue switch => switch.name ++ " takes no value"

/-- What is checked, and how it is reported. -/
structure Options where
  files : List String
  verbose : Bool
  quiet : Bool
  format : Format
  /-- The template engine, if one is named. -/
  engine : Option String
  deriving DecidableEq

/-- What a command line asks for. -/
inductive Request where
  | check (options : Options)
  | help
  | version
  deriving DecidableEq

/-! ## Words -/

/-- A part of a command line. -/
inductive Item where
  | switch (switch : Switch)
  /-- A setting whose value has yet to come. -/
  | setting (setting : Setting)
  | assign (setting : Setting) (value : String)
  /-- A word that is a value if a setting waits for one, and a file name otherwise. -/
  | plain (word : String)
  | file (name : String)
  | fault (fault : UsageFault)
  deriving DecidableEq

namespace Item

/-- The item that a known name starts: the switch, or the setting with the value if there is one. -/
def ofSetting (setting : Setting) : Option String → Item
  | none => .setting setting
  | some value => .assign setting value

def ofSwitch (switch : Switch) : Option String → Item
  | none => .switch switch
  | some _ => .fault (.surplusValue switch)

/-- Reads what follows two hyphens: a name, and a value behind the first equals sign. -/
def ofLong (cs : List Char) : Item :=
  let name := String.ofList (cs.takeWhile (· != '='))
  let value :=
    match cs.dropWhile (· != '=') with
    | [] => none
    | _ :: value => some (String.ofList value)
  if name = "verbose" then ofSwitch .verbose value
  else if name = "quiet" then ofSwitch .quiet value
  else if name = "help" then ofSwitch .help value
  else if name = "version" then ofSwitch .version value
  else if name = "format" then ofSetting .format value
  else if name = "template-engine" then ofSetting .templateEngine value
  else .fault (.unknownName ("--" ++ name))

/-- Reads what follows a single hyphen: letters of switches, up to one that is unknown or takes
what is left of the word, less an equals sign in front, as its value. -/
def ofShort : List Char → List Item
  | [] => []
  | 'v' :: cs => .switch .verbose :: ofShort cs
  | 'q' :: cs => .switch .quiet :: ofShort cs
  | 'h' :: cs => .switch .help :: ofShort cs
  | 'V' :: cs => .switch .version :: ofShort cs
  | ['f'] => [.setting .format]
  | 'f' :: '=' :: value => [.assign .format (String.ofList value)]
  | 'f' :: value => [.assign .format (String.ofList value)]
  | c :: _ => [.fault (.unknownName (String.ofList ['-', c]))]

/-- Reads a word. A single hyphen is a plain word. -/
def ofWord (word : String) : List Item :=
  match word.toList with
  | '-' :: '-' :: cs => [ofLong cs]
  | '-' :: c :: cs => ofShort (c :: cs)
  | _ => [.plain word]

/-- Reads the words; behind the first `--` all are file names. -/
def ofWords : List String → List Item
  | [] => []
  | word :: words => if word = "--" then words.map .file else ofWord word ++ ofWords words

end Item

/-! ## Options -/

/-- What has been read and has yet to take effect. -/
inductive Pending where
  | nothing
  | setting (setting : Setting) (value : Option String)
  | files (names : List String)
  deriving DecidableEq

/-- The options as far as they are read. -/
structure Draft where
  files : List String := []
  verbose : Bool := false
  quiet : Bool := false
  format : Option Format := none
  engine : Option String := none
  pending : Pending := .nothing
  deriving DecidableEq

namespace Draft

/-- Gives a setting its value, which may happen once. -/
def assign (d : Draft) (setting : Setting) (value : String) : Except UsageFault Draft :=
  match setting with
  | .format =>
    if d.format.isSome then .error (.conflict setting.name setting.name)
    else
      match Format.ofName? value with
      | some format => .ok { d with format := some format }
      | none => .error (.invalidValue setting value)
  | .templateEngine =>
    if d.engine.isSome then .error (.conflict setting.name setting.name)
    else .ok { d with engine := some value }

/-- Lets what is pending take effect. -/
def settle (d : Draft) : Except UsageFault Draft :=
  match d.pending with
  | .nothing => .ok d
  | .setting setting none => .error (.missingValue setting)
  | .setting setting (some value) => { d with pending := .nothing }.assign setting value
  | .files names =>
    if names.contains "" then .error .emptyFileName
    else .ok { d with files := d.files ++ names, pending := .nothing }

/-- Turns a switch on, which may happen once. -/
def turnOn (d : Draft) (switch : Switch) : Except UsageFault Draft :=
  match switch with
  | .verbose =>
    if d.verbose then .error (.conflict switch.name switch.name) else .ok { d with verbose := true }
  | .quiet =>
    if d.quiet then .error (.conflict switch.name switch.name) else .ok { d with quiet := true }
  | .help | .version => .ok d

/-- Collects a file name. -/
def collect (d : Draft) (name : String) : Except UsageFault Draft :=
  match d.pending with
  | .files names => .ok { d with pending := .files (names ++ [name]) }
  | _ => do return { ← d.settle with pending := .files [name] }

/-- The request, once all is read. -/
def finish (d : Draft) : Except UsageFault Request := do
  let d ← d.settle
  if d.quiet && d.verbose then .error (.conflict Switch.quiet.name Switch.verbose.name)
  else if d.files.isEmpty then .error .missingFile
  else .ok (.check ⟨d.files, d.verbose, d.quiet, d.format.getD .text, d.engine⟩)

/-- Takes the items in order. A wish for help or for the version ends the reading. -/
def take (d : Draft) : List Item → Except UsageFault Request
  | [] => d.finish
  | .switch .help :: _ => do
    let _ ← d.settle
    return .help
  | .switch .version :: _ => do
    let _ ← d.settle
    return .version
  | .switch switch :: items => do
    let d ← (← d.settle).turnOn switch
    d.take items
  | .setting setting :: items => do
    let d ← d.settle
    { d with pending := .setting setting none }.take items
  | .assign setting value :: items => do
    let d ← (← d.settle).assign setting value
    d.take items
  | .plain word :: items =>
    match d.pending with
    | .setting setting none => { d with pending := .setting setting (some word) }.take items
    | _ => do
      let d ← d.collect word
      d.take items
  | .file name :: items => do
    let d ← d.collect name
    d.take items
  | .fault fault :: _ => .error fault

end Draft

/-- What the words of a command line ask for. -/
def Request.ofWords (words : List String) : Except UsageFault Request :=
  ({} : Draft).take (Item.ofWords words)

end PipelineLang.Check
