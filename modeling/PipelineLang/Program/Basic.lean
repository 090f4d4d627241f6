import PipelineLang.Source.Span
import PipelineLang.Text.Decimal

/-!
# Programs

A program is what a document declares: configuration blocks, named pipelines, typed variables,
routes and test suites, each kind in the order of the document. A pipeline is a list of steps; a
`result` step opens branches that hold pipelines of their own, so steps form a tree.
-/

namespace PipelineLang

/-- The value of a configuration property. -/
inductive ConfigValue where
  | text (value : String)
  /-- An environment variable, with what stands in for it when it is unset. -/
  | environment (name : String) (fallback : Option String)
  | boolean (value : Bool)
  | number (value : Decimal)
  deriving DecidableEq

/-- The value as it is written in a configuration block. -/
def ConfigValue.render : ConfigValue → String
  | .text s => "\"" ++ s ++ "\""
  | .environment v none => "$" ++ v
  | .environment v (some d) => "$" ++ v ++ " || \"" ++ d ++ "\""
  | .boolean true => "true"
  | .boolean false => "false"
  | .number n => n.render

structure ConfigProperty where
  key : String
  value : ConfigValue
  deriving DecidableEq

/-- A `config` block. -/
structure Config where
  name : String
  properties : List ConfigProperty
  deriving DecidableEq

/-- A variable: a text of some type, such as a query or a template. -/
structure Variable where
  kind : String
  name : String
  nameSpan : Span
  value : String
  valueSpan : Span
  deriving DecidableEq

/-- What a step hands to its middleware. -/
inductive Payload where
  | backtick (text : String)
  | quoted (text : String)
  | identifier (name : String)
  deriving DecidableEq

def Payload.text : Payload → String
  | .backtick s | .quoted s | .identifier s => s

/-- The name, where the payload is one. -/
def Payload.identifier? : Payload → Option String
  | .identifier name => some name
  | _ => none

/-- The outcome that a result branch is for. -/
inductive Outcome where
  | ok
  | default
  | custom (label : String)
  deriving DecidableEq

def Outcome.ofLabel (label : String) : Outcome :=
  if label = "ok" then .ok else if label = "default" then .default else .custom label

def Outcome.label : Outcome → String
  | .ok => "ok"
  | .default => "default"
  | .custom label => label

theorem Outcome.label_ofLabel (label : String) : (Outcome.ofLabel label).label = label := by
  unfold Outcome.ofLabel
  split
  · rename_i h; exact h.symm
  · split
    · rename_i h; exact h.symm
    · rfl

mutual
/-- A step: a call of a middleware, or a choice of branches by the outcome so far. -/
inductive Step where
  | call (span : Span) (name : String) (payload : Payload) (payloadSpan : Span)
  | result (span : Span) (branches : List Branch)
/-- A branch: an outcome, the status it answers with, and the steps it runs. -/
inductive Branch where
  | mk (outcome : Outcome) (status : Nat) (statusSpan : Span) (steps : List Step)
end

abbrev Pipeline := List Step

namespace Step

def span : Step → Span
  | .call s .. => s
  | .result s _ => s

def branches : Step → List Branch
  | .call .. => []
  | .result _ bs => bs

end Step

namespace Branch

def outcome : Branch → Outcome
  | .mk o _ _ _ => o

def status : Branch → Nat
  | .mk _ n _ _ => n

def statusSpan : Branch → Span
  | .mk _ _ s _ => s

def steps : Branch → Pipeline
  | .mk _ _ _ p => p

end Branch

mutual
/-- The pipelines of the branches below a step, each before the ones nested in it. -/
def Step.nested : Step → List Pipeline
  | .call .. => []
  | .result _ bs => Branch.nestedAll bs
def Branch.nestedAll : List Branch → List Pipeline
  | [] => []
  | b :: bs => b.nested ++ Branch.nestedAll bs
def Branch.nested : Branch → List Pipeline
  | .mk _ _ _ steps => steps :: Step.nestedAll steps
def Step.nestedAll : List Step → List Pipeline
  | [] => []
  | s :: ss => s.nested ++ Step.nestedAll ss
end

/-- The pipeline and those nested in it, each before the ones nested in it. -/
def Pipeline.all (p : Pipeline) : List Pipeline := p :: Step.nestedAll p

mutual
/-- How many branches lie inside one another below a step. -/
def Step.depth : Step → Nat
  | .call .. => 0
  | .result _ bs => Branch.depthAll bs
def Branch.depthAll : List Branch → Nat
  | [] => 0
  | b :: bs => max b.depth (Branch.depthAll bs)
def Branch.depth : Branch → Nat
  | .mk _ _ _ steps => Step.depthAll steps + 1
def Step.depthAll : List Step → Nat
  | [] => 0
  | s :: ss => max s.depth (Step.depthAll ss)
end

/-- How deeply result branches nest in the pipeline. -/
def Pipeline.depth (p : Pipeline) : Nat := Step.depthAll p

structure NamedPipeline where
  name : String
  nameSpan : Span
  steps : Pipeline

/-- What a route runs: steps of its own, or one named pipeline. -/
inductive RouteBody where
  | inline (steps : Pipeline)
  | named (name : String)

structure Route where
  method : String
  path : String
  body : RouteBody

/-- A stand-in for a pipeline or a variable during a test. -/
structure Mock where
  target : String
  returns : String
  deriving DecidableEq

/-- What a test runs. -/
inductive Action where
  | callRoute (method path : String)
  | runPipeline (name : String)
  | runVariable (kind name : String)
  deriving DecidableEq

/-- Whether a condition opens with `then` or goes on with `and`. -/
inductive Lead where
  | opening
  | continuing
  deriving DecidableEq

/-- What a test expects of a field of the answer. -/
structure Condition where
  lead : Lead
  field : String
  /-- A query that is applied to the field before the comparison. -/
  query : Option String
  comparison : String
  value : String
  deriving DecidableEq

/-- An `it` block. -/
structure TestCase where
  name : String
  mocks : List Mock
  action : Action
  input : Option String
  conditions : List Condition
  deriving DecidableEq

/-- A `describe` block. -/
structure TestSuite where
  name : String
  mocks : List Mock
  tests : List TestCase
  deriving DecidableEq

/-- What a document declares. -/
structure Program where
  configs : List (Spanned Config)
  pipelines : List (Spanned NamedPipeline)
  typedVariables : List (Spanned Variable)
  routes : List (Spanned Route)
  suites : List (Spanned TestSuite)

namespace Program

def empty : Program := ⟨[], [], [], [], []⟩

/-- The number of declarations. -/
def size (p : Program) : Nat :=
  p.configs.length + p.pipelines.length + p.typedVariables.length + p.routes.length + p.suites.length

/-- The last pipeline of the name. -/
def findPipeline? (p : Program) (name : String) : Option (Spanned NamedPipeline) :=
  p.pipelines.reverse.find? (·.value.name == name)

/-- The last variable of the type and name. -/
def findVariable? (p : Program) (kind name : String) : Option (Spanned Variable) :=
  p.typedVariables.reverse.find? fun v => v.value.kind == kind && v.value.name == name

/-- Every pipeline: named ones, then route bodies, each followed by those nested in it. -/
def allPipelines (p : Program) : List Pipeline :=
  p.pipelines.flatMap (·.value.steps.all)
    ++ p.routes.flatMap fun r =>
        match r.value.body with
        | .inline steps => steps.all
        | .named _ => []

end Program
end PipelineLang
