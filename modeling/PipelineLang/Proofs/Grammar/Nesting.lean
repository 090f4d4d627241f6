import PipelineLang.Proofs.Grammar.Indentation
import PipelineLang.Proofs.Grammar.Placement

/-!
# Derivations with levels and labels

`StepsNested levels label c ss rs d` says what `StepsRead` does, and besides which of its
derivations the reader finds: `levels` is how many branches may still open, and `label` the column
that steps and labels have to stand right of. A list of steps ends only where no step follows that
its owner could have (`done`). Whatever a pipeline reads has such a derivation (`pipeline_nests`),
and so has each pipeline inside it, under a label at least as far right (`StepsNested.all`).
-/

namespace PipelineLang

/-- Every branch in the pipeline, at any depth. -/
def Pipeline.branches (p : Pipeline) : List Branch := p.all.flatMap (·.flatMap Step.branches)

/-- The steps inside exactly `n` branches of the pipeline. -/
def Pipeline.within : Nat → Pipeline → List Step
  | 0, p => p
  | n + 1, p => p.flatMap fun s => s.branches.flatMap fun b => within n b.steps

/-- The steps of a route that does not name a pipeline. -/
def RouteBody.inline? : RouteBody → Option Pipeline
  | .inline steps => some steps
  | .named _ => none

/-- The pipelines that lie in no branch: those with a name, and those of routes. -/
def Program.bodies (p : Program) : List Pipeline :=
  p.pipelines.map (·.value.steps) ++ p.routes.filterMap (·.value.body.inline?)

/-- The branches of the program in the order of the document. -/
def Program.branches (p : Program) : List Branch :=
  (p.bodies.flatMap Pipeline.branches).mergeSort fun a b => a.statusSpan.start ≤ b.statusSpan.start

/-- The steps inside exactly `n` branches of the program in the order of the document. -/
def Program.within (n : Nat) (p : Program) : List Step :=
  (p.bodies.flatMap (Pipeline.within n)).mergeSort fun s t => s.span.start ≤ t.span.start

namespace Grammar

/-- The pipeline of a declaration that has one. -/
def Item.body? : Item → Option Pipeline
  | .pipeline v _ => some v.value.steps
  | .route v _ => v.value.body.inline?
  | _ => none

open Cursor

variable {c d : Cursor} {levels : Nat} {label : Option Nat} {rs : List SyntaxReport}

/-! ## Owners -/

/-- Whether a step can be read depends neither on its owner nor on what may open inside. -/
theorem step_eq_none {inner : Option (Nat → PipelineReader)} (h : step inner label c = none)
    (inner' : Option (Nat → PipelineReader)) (owner : Option Nat) : step inner' owner c = none := by
  simp only [step, bind, Option.bind_eq_none_iff] at h ⊢
  intro arrow harrow
  have harrow := h arrow harrow
  split
  · next hword => simp [hword] at harrow
  · next hword => simpa [hword] using harrow

/-- What stands right of the label `inner` stands right of `label`. -/
def Owns (label inner : Option Nat) : Prop :=
  ∀ c, isRightOf inner c = true → isRightOf label c = true

theorem Owns.refl (label : Option Nat) : Owns label label := fun _ h => h

theorem Owns.trans {label inner deeper : Option Nat} (h : Owns label inner)
    (h' : Owns inner deeper) : Owns label deeper := fun c hc => h c (h' c hc)

/-- A label that stands right of another one owns less. -/
theorem owns_of_isRightOf (h : isRightOf label c = true) : Owns label (some c.column) := by
  intro d hd
  cases label with
  | none => rfl
  | some column =>
    simp only [isRightOf, Option.all_some, decide_eq_true_eq] at h hd ⊢
    omega

/-! ## Derivations -/

mutual
/-- Steps behind one another, each right of the label that owns them, up to where no such step
follows. -/
inductive StepsNested :
    Nat → Option Nat → Cursor → Pipeline → List SyntaxReport → Cursor → Prop where
  | done {levels : Nat} {label : Option Nat} {c : Cursor}
      (hstop : isRightOf label c.layout = true → ∀ inner owner, step inner owner c.layout = none) :
      StepsNested levels label c [] [] c
  | next {levels : Nat} {label : Option Nat} {c d e : Cursor} {s : Step} {ss : Pipeline}
      {rs rs' : List SyntaxReport} (hright : isRightOf label c.layout = true)
      (hs : StepNested levels label c.layout s rs d) (hss : StepsNested levels label d ss rs' e) :
      StepsNested levels label c (s :: ss) (rs ++ rs') e
/-- A step; only where no branch may open any more, a `result` step goes without its branches. -/
inductive StepNested :
    Nat → Option Nat → Cursor → Step → List SyntaxReport → Cursor → Prop where
  | call {levels : Nat} {label : Option Nat} {c arrow d : Cursor} {s : Step}
      (harrow : c.chars ['|', '>'] = some arrow) (hcall : call c.offset arrow.blanks = some (s, d)) :
      StepNested levels label c s [] d
  | tooDeep {label : Option Nat} {c arrow behind : Cursor}
      (harrow : c.chars ['|', '>'] = some arrow) (hword : resultWord arrow.blanks = some behind) :
      StepNested 0 label c (.result ⟨c.offset, behind.lineEnd.offset⟩ [])
        [⟨.nestedTooDeep maxNesting, ⟨c.offset, behind.lineEnd.offset⟩⟩] behind.lineEnd
  | result {levels : Nat} {label : Option Nat} {c arrow behind d : Cursor} {bs : List Branch}
      {rs : List SyntaxReport} (harrow : c.chars ['|', '>'] = some arrow)
      (hword : resultWord arrow.blanks = some behind)
      (hbs : BranchesNested levels label behind bs rs d) :
      StepNested (levels + 1) label c (.result ⟨c.offset, d.offset⟩ bs) rs d
/-- Branches behind one another, each with its label right of the one that owns the `result` step,
and with the steps that its own label owns. -/
inductive BranchesNested :
    Nat → Option Nat → Cursor → List Branch → List SyntaxReport → Cursor → Prop where
  | done {levels : Nat} {label : Option Nat} (c : Cursor) : BranchesNested levels label c [] [] c
  | next {levels : Nat} {label : Option Nat} {c colon d e : Cursor} {name digits : Token}
      {ss : Pipeline} {bs : List Branch} {rs rs' : List SyntaxReport}
      (hright : isRightOf label c.layout = true)
      (hhead : branchHead c.layout = some ((name, digits), colon))
      (hss : StepsNested levels (some c.layout.column) colon ss rs d)
      (hbs : BranchesNested levels label d bs rs' e) :
      BranchesNested levels label c
        (.mk (.ofLabel name.text) (statusOfDigits digits.text.toList) digits.span ss :: bs)
        (statusReports (statusOfDigits digits.text.toList) digits.span ++ rs ++ rs') e
end

mutual
theorem StepsNested.read : ∀ {levels : Nat} {label : Option Nat} {c d : Cursor} {ss : Pipeline}
    {rs : List SyntaxReport}, StepsNested levels label c ss rs d → StepsRead c ss rs d
  | _, _, _, _, _, _, .done _ => .done _
  | _, _, _, _, _, _, .next _ hs hss => .next hs.read hss.read
theorem StepNested.read : ∀ {levels : Nat} {label : Option Nat} {c d : Cursor} {s : Step}
    {rs : List SyntaxReport}, StepNested levels label c s rs d → StepRead c s rs d
  | _, _, _, _, _, _, .call harrow hcall => .call harrow hcall
  | _, _, _, _, _, _, .tooDeep harrow hword => .tooDeep harrow hword
  | _, _, _, _, _, _, .result harrow hword hbs => .result harrow hword hbs.read
theorem BranchesNested.read : ∀ {levels : Nat} {label : Option Nat} {c d : Cursor}
    {bs : List Branch} {rs : List SyntaxReport}, BranchesNested levels label c bs rs d →
      BranchesRead c bs rs d
  | _, _, _, _, _, _, .done c => .done c
  | _, _, _, _, _, _, .next _ hhead hss hbs => .next hhead hss.read hbs.read
end

/-! ## What is read has such a derivation -/

/-- Whatever the reader reads is a run of steps that `label` owns. -/
def Nests (levels : Nat) (label : Option Nat) (read : PipelineReader) : Prop :=
  ∀ c, StepsNested levels label c (read c).1 (read c).2.1 (read c).2.2

theorem branches_nest {inner : Nat → PipelineReader} (honward : ∀ column, Onward (inner column))
    (hinner : ∀ column, Nests levels (some column) (inner column)) (label : Option Nat)
    (c : Cursor) :
    BranchesNested levels label c ((c.many (ownedBranch inner label)).1.map (·.1))
      ((c.many (ownedBranch inner label)).1.flatMap (·.2))
      (c.many (ownedBranch inner label)).2 := by
  refine many_induction
    (motive := fun c r => BranchesNested levels label c (r.1.map (·.1)) (r.1.flatMap (·.2)) r.2)
    (fun _ _ _ => ownedBranch_lt honward) ?_ ?_ c
  · intro c _
    exact .done c
  · intro c b d hread _ ih
    simp only [ownedBranch] at hread
    split at hread
    · next hright =>
      rw [branch_eq] at hread
      obtain ⟨⟨⟨name, digits⟩, colon⟩, hhead, heq⟩ := Option.map_eq_some_iff.1 hread
      cases heq
      exact .next hright hhead (hinner _ colon) ih
    · cases hread

/-- A step has a derivation if the steps inside its branches have one. -/
theorem step_nests
    (hinner : ∀ k, levels = k + 1 → ∀ column, Nests k (some column) (branchSteps k column))
    {s : Step × List SyntaxReport} (h : step (branchReader levels) label c = some (s, d)) :
    StepNested levels label c s.1 s.2 d := by
  simp only [step, bind, Option.bind_eq_some_iff] at h
  obtain ⟨arrow, harrow, h⟩ := h
  split at h
  · next behind hword =>
    cases levels with
    | zero =>
      cases h
      exact .tooDeep harrow hword
    | succ levels =>
      have hbranches := branches_nest (onward_branchSteps levels) (hinner levels rfl) label behind
      cases h
      exact .result harrow hword hbranches
  · obtain ⟨⟨t, last⟩, hcall, heq⟩ := Option.map_eq_some_iff.1 h
    cases heq
    exact .call harrow hcall

theorem nests_steps
    (hinner : ∀ k, levels = k + 1 → ∀ column, Nests k (some column) (branchSteps k column))
    (label : Option Nat) : Nests levels label (steps (branchReader levels) label) := by
  intro c
  refine many_induction
    (motive := fun c r => StepsNested levels label c (r.1.map (·.1)) (r.1.flatMap (·.2)) r.2)
    (fun _ _ _ => ownedStep_lt (onward_branchReader levels)) ?_ ?_ c
  · intro c hstop
    refine .done fun hright inner owner => ?_
    rw [ownedStep, if_pos hright] at hstop
    exact step_eq_none hstop inner owner
  · intro c s d hread _ ih
    simp only [ownedStep] at hread
    split at hread
    · next hright => exact .next hright (step_nests hinner hread) ih
    · cases hread

theorem nests_branchSteps (levels column : Nat) :
    Nests levels (some column) (branchSteps levels column) := by
  induction levels generalizing column with
  | zero =>
    rw [branchSteps_eq]
    exact nests_steps (fun k hk => by omega) _
  | succ levels ih =>
    rw [branchSteps_eq]
    refine nests_steps ?_ _
    rintro k ⟨⟩
    exact ih

/-- What a pipeline reads has a derivation that leaves room for every level and has no owner. -/
theorem pipeline_nests : Nests maxNesting none pipeline :=
  nests_steps (fun k _ => nests_branchSteps k) none

/-! ## Depth -/

mutual
theorem StepsNested.depth_le : ∀ {levels : Nat} {label : Option Nat} {c d : Cursor}
    {ss : Pipeline} {rs : List SyntaxReport}, StepsNested levels label c ss rs d →
      Step.depthAll ss ≤ levels
  | _, _, _, _, _, _, .done _ => Nat.zero_le _
  | _, _, _, _, _, _, .next _ hs hss => Nat.max_le.2 ⟨hs.depth_le, hss.depth_le⟩
theorem StepNested.depth_le : ∀ {levels : Nat} {label : Option Nat} {c d : Cursor} {s : Step}
    {rs : List SyntaxReport}, StepNested levels label c s rs d → s.depth ≤ levels
  | _, _, _, _, _, _, .call _ hcall => by
    obtain ⟨name, next, colon, value, span, -, -, -, rfl⟩ := call_spec hcall
    exact Nat.zero_le _
  | _, _, _, _, _, _, .tooDeep _ _ => Nat.zero_le _
  | _, _, _, _, _, _, .result _ _ hbs => hbs.depth_le
theorem BranchesNested.depth_le : ∀ {levels : Nat} {label : Option Nat} {c d : Cursor}
    {bs : List Branch} {rs : List SyntaxReport}, BranchesNested levels label c bs rs d →
      Branch.depthAll bs ≤ levels + 1
  | _, _, _, _, _, _, .done _ => Nat.zero_le _
  | _, _, _, _, _, _, .next _ _ hss hbs =>
    Nat.max_le.2 ⟨Nat.succ_le_succ hss.depth_le, hbs.depth_le⟩
end

/-! ## Pipelines inside a tree -/

/-- The pipeline is read somewhere between the two cursors, right of what `label` owns, where at
most `levels` branches may still open. -/
def NestedWithin (levels : Nat) (label : Option Nat) (c d : Cursor) (p : Pipeline) : Prop :=
  ∃ levels' inner c' rs d', levels' ≤ levels ∧ Owns label inner ∧ c ≤ c' ∧ d' ≤ d ∧
    StepsNested levels' inner c' p rs d'

theorem NestedWithin.mono {levels' : Nat} {inner : Option Nat} {c' d' : Cursor} {p : Pipeline}
    (h : NestedWithin levels' inner c d p) (hlevels : levels' ≤ levels) (hlabel : Owns label inner)
    (hc : c' ≤ c) (hd : d ≤ d') : NestedWithin levels label c' d' p := by
  obtain ⟨k, deeper, e, rs, f, hk, howns, he, hf, hread⟩ := h
  exact ⟨k, deeper, e, rs, f, Nat.le_trans hk hlevels, hlabel.trans howns, hc.trans he,
    hf.trans hd, hread⟩

mutual
theorem StepsNested.nested : ∀ {levels : Nat} {label : Option Nat} {c d : Cursor}
    {ss : Pipeline} {rs : List SyntaxReport}, StepsNested levels label c ss rs d →
      ∀ p ∈ Step.nestedAll ss, NestedWithin levels label c d p
  | _, _, _, _, _, _, .done _, p, hp => by cases hp
  | _, label, c, _, _, _, .next _ hs hss, p, hp => by
    rcases List.mem_append.1 hp with hp | hp
    · exact (hs.nested p hp).mono (Nat.le_refl _) (.refl label) (le_layout c) hss.read.le
    · exact (hss.nested p hp).mono (Nat.le_refl _) (.refl label) ((le_layout c).trans hs.read.lt.le) le_rfl
theorem StepNested.nested : ∀ {levels : Nat} {label : Option Nat} {c d : Cursor} {s : Step}
    {rs : List SyntaxReport}, StepNested levels label c s rs d →
      ∀ p ∈ s.nested, NestedWithin levels label c d p
  | _, _, _, _, _, _, .call _ hcall, p, hp => by
    obtain ⟨name, next, colon, value, span, -, -, -, rfl⟩ := call_spec hcall
    simp [Step.nested] at hp
  | _, _, _, _, _, _, .tooDeep _ _, p, hp => by simp [Step.nested, Branch.nestedAll] at hp
  | _, label, _, _, _, _, .result harrow hword hbs, p, hp => by
    rw [Step.nested] at hp
    exact (hbs.nested p hp).mono (Nat.le_succ _) (.refl label)
      ((arrow_lt harrow).trans (resultWord_lt hword)).le le_rfl
theorem BranchesNested.nested : ∀ {levels : Nat} {label : Option Nat} {c d : Cursor}
    {bs : List Branch} {rs : List SyntaxReport}, BranchesNested levels label c bs rs d →
      ∀ p ∈ Branch.nestedAll bs, NestedWithin levels label c d p
  | _, _, _, _, _, _, .done _, p, hp => by cases hp
  | _, label, c, _, _, _, .next hright hhead hss hbs, p, hp => by
    have hcolon := (le_layout c).trans (branchHead_lt hhead).le
    have howns := owns_of_isRightOf hright
    rw [Branch.nestedAll, Branch.nested, List.cons_append, List.mem_cons, List.mem_append] at hp
    rcases hp with rfl | hp | hp
    · exact ⟨_, _, _, _, _, Nat.le_refl _, howns, hcolon, hbs.read.le, hss⟩
    · exact (hss.nested p hp).mono (Nat.le_refl _) howns hcolon hbs.read.le
    · exact (hbs.nested p hp).mono (Nat.le_refl _) (.refl label) (hcolon.trans hss.read.le) le_rfl
end

/-- Each pipeline of a tree is read on its own, within what the tree is read of. -/
theorem StepsNested.all {ss : Pipeline} (h : StepsNested levels label c ss rs d) :
    ∀ p ∈ Pipeline.all ss, NestedWithin levels label c d p := by
  intro p hp
  rcases List.mem_cons.1 hp with rfl | hp
  · exact ⟨levels, label, c, rs, d, Nat.le_refl _, .refl label, le_rfl, le_rfl, h⟩
  · exact h.nested p hp

/-! ## Declarations with pipelines -/

theorem namedPipeline_nests {v : Spanned NamedPipeline}
    (h : namedPipeline c = some (v, rs, d)) :
    ∃ e, c ≤ e ∧ StepsNested maxNesting none e v.value.steps rs d := by
  simp only [namedPipeline, bind, Option.bind_eq_some_iff] at h
  obtain ⟨word, hword, ⟨name, equals⟩, hname, heq⟩ := h
  cases heq
  exact ⟨equals, ((keyword_lt (by decide) hword).trans (declaredName_lt hname)).le,
    pipeline_nests equals⟩

/-- The steps of a route nest; a lone step that names a pipeline has nothing to report. -/
theorem route_nests {v : Spanned Route} (h : route c = some (v, rs, d)) :
    (∃ ss e, v.value.body.inline? = some ss ∧ c ≤ e ∧ StepsNested maxNesting none e ss rs d) ∨
      v.value.body.inline? = none ∧ rs = [] := by
  simp only [route, bind, Option.bind_eq_some_iff] at h
  obtain ⟨⟨word, next⟩, hword, pathStart, hblank, h⟩ := h
  split at h
  · simp only [Option.bind_eq_some_iff] at h
    obtain ⟨⟨path, behind⟩, hpath, heq⟩ := h
    have hbehind := (method_lt hword).trans ((someBlanks_lt hblank).trans (bareToken_lt hpath))
    have hread := pipeline_nests behind
    cases heq
    rcases routeBody_cases (pipeline behind).1 with hbody | ⟨span, name, payloadSpan, hss, hbody⟩
    · exact Or.inl ⟨_, behind, by rw [hbody]; rfl, hbehind.le, hread⟩
    · refine Or.inr ⟨by rw [hbody]; rfl, ?_⟩
      generalize pipeline behind = r at hread hss
      obtain ⟨ss, rs, last⟩ := r
      subst hss
      cases hread with
      | next _ hs hss =>
        cases hs
        cases hss
        rfl
  · cases h

/-- The reports of an item are those of its pipeline, or none of them is about a branch. -/
theorem item_body {i : Item} (h : item c = some (i, d)) :
    (∃ ss e, i.body? = some ss ∧ c ≤ e ∧ StepsNested maxNesting none e ss i.reports d) ∨
      i.body? = none ∧ ∀ r ∈ i.reports, ¬ IsBranchFault r.fault := by
  have hblock : ∀ {rs : List SyntaxReport}, (∀ r ∈ rs, IsBlockFault r.fault) →
      ∀ r ∈ rs, ¬ IsBranchFault r.fault := by
    intro rs hrs r hr hbranch
    have hr := hrs r hr
    cases hfault : r.fault <;> simp_all [IsBlockFault, IsBranchFault]
  obtain ⟨-, hread | ⟨-, hline⟩⟩ := item_cases h
  · rcases declaration_cases hread with ⟨v, rs, rfl, hr⟩ | ⟨v, rs, rfl, hr⟩ | ⟨v, rfl, hr⟩ |
      ⟨v, rs, rfl, hr⟩ | ⟨v, rs, rfl, hr⟩
    · exact Or.inr ⟨rfl, hblock (config_reports hr)⟩
    · obtain ⟨e, he, hss⟩ := namedPipeline_nests hr
      exact Or.inl ⟨_, e, rfl, (le_layout c).trans he, hss⟩
    · exact Or.inr ⟨rfl, nofun⟩
    · rcases route_nests hr with ⟨ss, e, hbody, he, hss⟩ | ⟨hbody, rfl⟩
      · exact Or.inl ⟨ss, e, hbody, (le_layout c).trans he, hss⟩
      · exact Or.inr ⟨hbody, nofun⟩
    · exact Or.inr ⟨rfl, hblock (suite_reports hr)⟩
  · cases hline
    exact Or.inr ⟨rfl, by simp [Item.reports, IsBranchFault]⟩

/-- The pipelines of a program are those of its items. -/
theorem perm_bodies (is : List Item) :
    (programOfItems is).bodies.Perm (is.filterMap Item.body?) := by
  simp only [Program.bodies, programOfItems]
  induction is with
  | nil => rfl
  | cons i is ih =>
    cases i with
    | pipeline v rs => exact ih.cons _
    | route v rs =>
      simp only [List.filterMap_cons, Item.asPipeline?, Item.asRoute?, Item.body?] at ih ⊢
      cases v.value.body.inline? with
      | none => exact ih
      | some ss => exact List.perm_middle.trans (ih.cons ss)
    | _ => exact ih

theorem mem_bodies {text : List Char} {p : Pipeline} (h : p ∈ (parse text).program.bodies) :
    ∃ c rs d, start 0 text ≤ c ∧ StepsNested maxNesting none c p rs d := by
  obtain ⟨i, hi, hp⟩ := List.mem_filterMap.1 ((perm_bodies (items text)).mem_iff.1 h)
  obtain ⟨c, d, hc, hread⟩ := mem_items hi
  rcases item_body hread with ⟨ss, e, hss, he, hread⟩ | ⟨hnone, -⟩
  · rw [hss] at hp
    cases hp
    exact ⟨e, _, d, hc.trans he, hread⟩
  · rw [hnone] at hp
    cases hp

/-- The branches of a program are those of the steps in all its pipelines. -/
theorem mem_branches {p : Program} {b : Branch} (h : b ∈ p.branches) :
    ∃ body ∈ p.bodies, ∃ q ∈ body.all, ∃ s ∈ q, b ∈ s.branches := by
  simpa only [Program.branches, List.mem_mergeSort, Pipeline.branches, List.mem_flatMap] using h

theorem mem_allPipelines_iff {p : Program} {q : Pipeline} :
    q ∈ p.allPipelines ↔ ∃ body ∈ p.bodies, q ∈ body.all := by
  rw [mem_allPipelines]
  simp only [Program.bodies, List.mem_append, List.mem_map, List.mem_filterMap]
  constructor
  · rintro (⟨v, hv, hq⟩ | ⟨v, hv, steps, hsteps, hq⟩)
    · exact ⟨_, Or.inl ⟨v, hv, rfl⟩, hq⟩
    · exact ⟨steps, Or.inr ⟨v, hv, by rw [hsteps]; rfl⟩, hq⟩
  · rintro ⟨body, ⟨v, hv, rfl⟩ | ⟨v, hv, hbody⟩, hq⟩
    · exact Or.inl ⟨v, hv, hq⟩
    · refine Or.inr ⟨v, hv, body, ?_, hq⟩
      cases hv' : v.value.body with
      | inline steps => rw [hv'] at hbody; cases hbody; rfl
      | named name => rw [hv'] at hbody; cases hbody

end Grammar
end PipelineLang
