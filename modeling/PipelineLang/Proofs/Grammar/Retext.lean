import PipelineLang.Proofs.Grammar.Written

/-!
# Other texts, other places

`retext f` puts `f s` for every text `s` that is stored in a program, and `unplaced` takes all
places away. Both walk over the program and change nothing else, so that two programs have the same
shape and the same texts up to `f` if `q.unplaced = (p.retext f).unplaced`.
-/

namespace PipelineLang

/-! ## Texts -/

def ConfigValue.retext (f : String → String) : ConfigValue → ConfigValue
  | .text s => .text (f s)
  | .environment name fallback => .environment (f name) (fallback.map f)
  | .boolean b => .boolean b
  | .number n => .number n

def ConfigProperty.retext (f : String → String) (p : ConfigProperty) : ConfigProperty :=
  ⟨f p.key, p.value.retext f⟩

def Config.retext (f : String → String) (k : Config) : Config :=
  ⟨f k.name, k.properties.map (ConfigProperty.retext f)⟩

def Variable.retext (f : String → String) (v : Variable) : Variable :=
  ⟨f v.kind, f v.name, v.nameSpan, f v.value, v.valueSpan⟩

def Payload.retext (f : String → String) : Payload → Payload
  | .backtick text => .backtick (f text)
  | .quoted text => .quoted (f text)
  | .identifier name => .identifier (f name)

def Outcome.retext (f : String → String) : Outcome → Outcome
  | .ok => .ok
  | .default => .default
  | .custom label => .custom (f label)

mutual
def Step.retext (f : String → String) : Step → Step
  | .call span name payload payloadSpan => .call span (f name) (payload.retext f) payloadSpan
  | .result span branches => .result span (Branch.retextAll f branches)
def Branch.retextAll (f : String → String) : List Branch → List Branch
  | [] => []
  | b :: bs => b.retext f :: Branch.retextAll f bs
def Branch.retext (f : String → String) : Branch → Branch
  | .mk outcome status statusSpan steps =>
    .mk (outcome.retext f) status statusSpan (Step.retextAll f steps)
def Step.retextAll (f : String → String) : List Step → List Step
  | [] => []
  | s :: ss => s.retext f :: Step.retextAll f ss
end

theorem Branch.retextAll_eq_map (f : String → String) (bs : List Branch) :
    Branch.retextAll f bs = bs.map (Branch.retext f) := by
  induction bs with
  | nil => rfl
  | cons b bs ih => rw [retextAll, List.map_cons, ih]

theorem Step.retextAll_eq_map (f : String → String) (ss : List Step) :
    Step.retextAll f ss = ss.map (Step.retext f) := by
  induction ss with
  | nil => rfl
  | cons s ss ih => rw [retextAll, List.map_cons, ih]

def NamedPipeline.retext (f : String → String) (p : NamedPipeline) : NamedPipeline :=
  ⟨f p.name, p.nameSpan, Step.retextAll f p.steps⟩

def RouteBody.retext (f : String → String) : RouteBody → RouteBody
  | .inline steps => .inline (Step.retextAll f steps)
  | .named name => .named (f name)

def Route.retext (f : String → String) (r : Route) : Route :=
  ⟨f r.method, f r.path, r.body.retext f⟩

def Mock.retext (f : String → String) (m : Mock) : Mock := ⟨f m.target, f m.returns⟩

def Action.retext (f : String → String) : Action → Action
  | .callRoute method path => .callRoute (f method) (f path)
  | .runPipeline name => .runPipeline (f name)
  | .runVariable kind name => .runVariable (f kind) (f name)

def Condition.retext (f : String → String) (k : Condition) : Condition :=
  ⟨k.lead, f k.field, k.query.map f, f k.comparison, f k.value⟩

def TestCase.retext (f : String → String) (t : TestCase) : TestCase :=
  { name := f t.name
    mocks := t.mocks.map (Mock.retext f)
    action := t.action.retext f
    input := t.input.map f
    conditions := t.conditions.map (Condition.retext f) }

def TestSuite.retext (f : String → String) (s : TestSuite) : TestSuite :=
  ⟨f s.name, s.mocks.map (Mock.retext f), s.tests.map (TestCase.retext f)⟩

/-- Changes a value where it stands. -/
def Spanned.mapValue {α : Type} (f : α → α) (v : Spanned α) : Spanned α := ⟨f v.value, v.span⟩

/-- The program with `f s` for each text `s`. -/
def Program.retext (f : String → String) (p : Program) : Program :=
  { configs := p.configs.map (Spanned.mapValue (Config.retext f))
    pipelines := p.pipelines.map (Spanned.mapValue (NamedPipeline.retext f))
    typedVariables := p.typedVariables.map (Spanned.mapValue (Variable.retext f))
    routes := p.routes.map (Spanned.mapValue (Route.retext f))
    suites := p.suites.map (Spanned.mapValue (TestSuite.retext f)) }

/-! ## Places -/

theorem Branch.unplacedAll_eq_map (bs : List Branch) :
    Branch.unplacedAll bs = bs.map Branch.unplaced := by
  induction bs with
  | nil => rfl
  | cons b bs ih => rw [unplacedAll, List.map_cons, ih]

theorem Step.unplacedAll_eq_map (ss : List Step) : Step.unplacedAll ss = ss.map Step.unplaced := by
  induction ss with
  | nil => rfl
  | cons s ss ih => rw [unplacedAll, List.map_cons, ih]

def Variable.unplaced (v : Variable) : Variable := ⟨v.kind, v.name, ⟨0, 0⟩, v.value, ⟨0, 0⟩⟩

def NamedPipeline.unplaced (p : NamedPipeline) : NamedPipeline :=
  ⟨p.name, ⟨0, 0⟩, Step.unplacedAll p.steps⟩

def RouteBody.unplaced : RouteBody → RouteBody
  | .inline steps => .inline (Step.unplacedAll steps)
  | .named name => .named name

def Route.unplaced (r : Route) : Route := ⟨r.method, r.path, r.body.unplaced⟩

/-- Takes the places out of a value by `f`, and its own away. -/
def Spanned.unplaced {α : Type} (f : α → α) (v : Spanned α) : Spanned α := ⟨f v.value, ⟨0, 0⟩⟩

/-- The program with all places in it taken away; configurations and suites hold none but their
own. -/
def Program.unplaced (p : Program) : Program :=
  { configs := p.configs.map (Spanned.unplaced id)
    pipelines := p.pipelines.map (Spanned.unplaced NamedPipeline.unplaced)
    typedVariables := p.typedVariables.map (Spanned.unplaced Variable.unplaced)
    routes := p.routes.map (Spanned.unplaced Route.unplaced)
    suites := p.suites.map (Spanned.unplaced id) }

end PipelineLang
