import PipelineLang.Grammar.Document

/-!
# Shifting

What was read of a text, with all its places moved on by `n` bytes: what is read of the same text
where `n` bytes stand in front of it. Shifting changes spans and nothing else, and by no bytes it
changes nothing (`*_shift_zero`).
-/

namespace PipelineLang

/-! ## Places -/

def Span.shift (n : Nat) (s : Span) : Span := ⟨s.start + n, s.stop + n⟩

def Token.shift (n : Nat) (t : Token) : Token := ⟨t.text, t.span.shift n⟩

def SyntaxReport.shift (n : Nat) (r : SyntaxReport) : SyntaxReport := ⟨r.fault, r.span.shift n⟩

/-- Shifts a value by `f` and its own span by `n`. -/
def Spanned.shift {α : Type} (n : Nat) (f : α → α) (v : Spanned α) : Spanned α :=
  ⟨f v.value, v.span.shift n⟩

theorem Span.isEmpty_shift (n : Nat) (s : Span) : (s.shift n).isEmpty = s.isEmpty := by
  rw [isEmpty, isEmpty, shift, Bool.eq_iff_iff, beq_iff_eq, beq_iff_eq]
  exact Nat.add_right_cancel_iff

theorem Span.ofLength_shift (n start len : Nat) :
    (ofLength start len).shift n = ofLength (start + n) len := by
  rw [shift, ofLength, ofLength, Nat.add_right_comm]

theorem SyntaxReport.map_shift_zero (rs : List SyntaxReport) : rs.map (shift 0) = rs :=
  List.map_id rs

/-! ## Pipelines -/

mutual
def Step.shift (n : Nat) : Step → Step
  | .call span name payload payloadSpan => .call (span.shift n) name payload (payloadSpan.shift n)
  | .result span branches => .result (span.shift n) (Branch.shiftAll n branches)
def Branch.shiftAll (n : Nat) : List Branch → List Branch
  | [] => []
  | b :: bs => b.shift n :: Branch.shiftAll n bs
def Branch.shift (n : Nat) : Branch → Branch
  | .mk outcome status statusSpan steps =>
    .mk outcome status (statusSpan.shift n) (Step.shiftAll n steps)
def Step.shiftAll (n : Nat) : List Step → List Step
  | [] => []
  | s :: ss => s.shift n :: Step.shiftAll n ss
end

theorem Branch.shiftAll_eq_map (n : Nat) (bs : List Branch) :
    Branch.shiftAll n bs = bs.map (Branch.shift n) := by
  induction bs with
  | nil => rfl
  | cons b bs ih => rw [shiftAll, List.map_cons, ih]

theorem Step.shiftAll_eq_map (n : Nat) (ss : List Step) :
    Step.shiftAll n ss = ss.map (Step.shift n) := by
  induction ss with
  | nil => rfl
  | cons s ss ih => rw [shiftAll, List.map_cons, ih]

mutual
theorem Step.shift_zero : ∀ s : Step, s.shift 0 = s
  | .call .. => rfl
  | .result span bs => by rw [Step.shift, Branch.shiftAll_zero bs]; rfl
theorem Branch.shiftAll_zero : ∀ bs : List Branch, Branch.shiftAll 0 bs = bs
  | [] => rfl
  | b :: bs => by rw [Branch.shiftAll, Branch.shift_zero b, Branch.shiftAll_zero bs]
theorem Branch.shift_zero : ∀ b : Branch, b.shift 0 = b
  | .mk outcome status span steps => by rw [Branch.shift, Step.shiftAll_zero steps]; rfl
theorem Step.shiftAll_zero : ∀ ss : List Step, Step.shiftAll 0 ss = ss
  | [] => rfl
  | s :: ss => by rw [Step.shiftAll, Step.shift_zero s, Step.shiftAll_zero ss]
end

/-! ## Declarations -/

def NamedPipeline.shift (n : Nat) (p : NamedPipeline) : NamedPipeline :=
  ⟨p.name, p.nameSpan.shift n, Step.shiftAll n p.steps⟩

def Variable.shift (n : Nat) (v : Variable) : Variable :=
  ⟨v.kind, v.name, v.nameSpan.shift n, v.value, v.valueSpan.shift n⟩

def RouteBody.shift (n : Nat) : RouteBody → RouteBody
  | .inline steps => .inline (Step.shiftAll n steps)
  | .named name => .named name

def Route.shift (n : Nat) (r : Route) : Route := ⟨r.method, r.path, r.body.shift n⟩

/-- The program with all spans shifted; configurations and suites hold none but their own. -/
def Program.shift (n : Nat) (p : Program) : Program :=
  { configs := p.configs.map (Spanned.shift n id)
    pipelines := p.pipelines.map (Spanned.shift n (NamedPipeline.shift n))
    typedVariables := p.typedVariables.map (Spanned.shift n (Variable.shift n))
    routes := p.routes.map (Spanned.shift n (Route.shift n))
    suites := p.suites.map (Spanned.shift n id) }

/-- The declarations of `p`, then those of `q`, kind by kind. -/
def Program.append (p q : Program) : Program :=
  { configs := p.configs ++ q.configs
    pipelines := p.pipelines ++ q.pipelines
    typedVariables := p.typedVariables ++ q.typedVariables
    routes := p.routes ++ q.routes
    suites := p.suites ++ q.suites }

namespace Grammar

def ConfigLine.shift (n : Nat) : ConfigLine → ConfigLine
  | .property p => .property p
  | .fault r => .fault (r.shift n)

def SuiteItem.shift (n : Nat) : SuiteItem → SuiteItem
  | .mock m => .mock m
  | .test t => .test t
  | .fault r => .fault (r.shift n)

def Site.shift (n : Nat) (s : Site) : Site := ⟨s.span.shift n, s.nameSpan.shift n⟩

def Item.shift (n : Nat) : Item → Item
  | .config v rs => .config (v.shift n id) (rs.map (SyntaxReport.shift n))
  | .pipeline v rs => .pipeline (v.shift n (NamedPipeline.shift n)) (rs.map (SyntaxReport.shift n))
  | .typedVariable v => .typedVariable (v.shift n (Variable.shift n))
  | .route v rs => .route (v.shift n (Route.shift n)) (rs.map (SyntaxReport.shift n))
  | .suite v rs => .suite (v.shift n id) (rs.map (SyntaxReport.shift n))
  | .unrecognized r => .unrecognized (r.shift n)

theorem Item.shift_zero (i : Item) : i.shift 0 = i := by
  cases i with
  | config v rs => rw [shift, SyntaxReport.map_shift_zero]; rfl
  | pipeline v rs =>
    rw [shift, SyntaxReport.map_shift_zero, Spanned.shift, NamedPipeline.shift, Step.shiftAll_zero]
    rfl
  | typedVariable v => rfl
  | route v rs =>
    rw [shift, SyntaxReport.map_shift_zero, Spanned.shift, Route.shift]
    cases hbody : v.value.body with
    | inline steps => rw [RouteBody.shift, Step.shiftAll_zero, ← hbody]; rfl
    | named name => rw [RouteBody.shift, ← hbody]; rfl
  | suite v rs => rw [shift, SyntaxReport.map_shift_zero]; rfl
  | unrecognized r => rfl

/-! ## Views of shifted items -/

theorem programOfItems_map_shift (n : Nat) (is : List Item) :
    programOfItems (is.map (Item.shift n)) = (programOfItems is).shift n := by
  simp only [programOfItems, Program.shift, List.filterMap_map, List.map_filterMap,
    Program.mk.injEq]
  refine ⟨?_, ?_, ?_, ?_, ?_⟩ <;>
  · refine congrArg (List.filterMap · is) (funext fun i => ?_)
    cases i <;> rfl

theorem programOfItems_append (is js : List Item) :
    programOfItems (is ++ js) = (programOfItems is).append (programOfItems js) := by
  simp only [programOfItems, Program.append, List.filterMap_append]

theorem Item.reports_shift (n : Nat) (i : Item) :
    (i.shift n).reports = i.reports.map (SyntaxReport.shift n) := by
  cases i <;> rfl

theorem Item.pipelineSite?_shift (n : Nat) (i : Item) :
    (i.shift n).pipelineSite? = i.pipelineSite?.map fun (name, s) => (name, s.shift n) := by
  cases i <;> rfl

theorem Item.variableSite?_shift (n : Nat) (i : Item) :
    (i.shift n).variableSite? = i.variableSite?.map fun (name, s) => (name, s.shift n) := by
  cases i <;> rfl

end Grammar
end PipelineLang
