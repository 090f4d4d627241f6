import PipelineLang.Proofs.Grammar.Movement

/-!
# Derivations of pipelines

How the steps of a tree stand one behind the other: `StepsRead c ss rs d` says that `ss` are read
from the cursor `c` on, with the reports `rs`, and that `d` is the cursor behind them. Columns and
levels of nesting decide which of these derivations the reader finds, and are left out; what it
finds is one (`pipeline_derives`). A statement about all steps of a tree is then an induction on the
derivation, and each pipeline inside the tree has a derivation of its own (`StepsRead.all`).
-/

namespace PipelineLang.Grammar

open Cursor

variable {c d : Cursor}

mutual
/-- Steps behind one another, each behind layout. -/
inductive StepsRead : Cursor → Pipeline → List SyntaxReport → Cursor → Prop where
  | done (c : Cursor) : StepsRead c [] [] c
  | next {c d e : Cursor} {s : Step} {ss : Pipeline} {rs rs' : List SyntaxReport}
      (hs : StepRead c.layout s rs d) (hss : StepsRead d ss rs' e) :
      StepsRead c (s :: ss) (rs ++ rs') e
/-- A step: the call of a middleware, a `result` step inside too many branches, or one with its
branches. -/
inductive StepRead : Cursor → Step → List SyntaxReport → Cursor → Prop where
  | call {c arrow d : Cursor} {s : Step} (harrow : c.chars ['|', '>'] = some arrow)
      (hcall : call c.offset arrow.blanks = some (s, d)) : StepRead c s [] d
  | tooDeep {c arrow behind : Cursor} (harrow : c.chars ['|', '>'] = some arrow)
      (hword : resultWord arrow.blanks = some behind) :
      StepRead c (.result ⟨c.offset, behind.lineEnd.offset⟩ [])
        [⟨.nestedTooDeep maxNesting, ⟨c.offset, behind.lineEnd.offset⟩⟩] behind.lineEnd
  | result {c arrow behind d : Cursor} {bs : List Branch} {rs : List SyntaxReport}
      (harrow : c.chars ['|', '>'] = some arrow) (hword : resultWord arrow.blanks = some behind)
      (hbs : BranchesRead behind bs rs d) : StepRead c (.result ⟨c.offset, d.offset⟩ bs) rs d
/-- Branches behind one another, each behind layout: a label with its status, and steps. -/
inductive BranchesRead : Cursor → List Branch → List SyntaxReport → Cursor → Prop where
  | done (c : Cursor) : BranchesRead c [] [] c
  | next {c colon d e : Cursor} {label digits : Token} {ss : Pipeline} {bs : List Branch}
      {rs rs' : List SyntaxReport} (hhead : branchHead c.layout = some ((label, digits), colon))
      (hss : StepsRead colon ss rs d) (hbs : BranchesRead d bs rs' e) :
      BranchesRead c
        (.mk (.ofLabel label.text) (statusOfDigits digits.text.toList) digits.span ss :: bs)
        (statusReports (statusOfDigits digits.text.toList) digits.span ++ rs ++ rs') e
end

/-! ## Movement -/

/-- The parts of a call: a name, a colon and a payload. -/
theorem call_spec {start : Nat} {s : Step} (h : call start c = some (s, d)) :
    ∃ name next colon value span, c.identifier = some (name, next) ∧
      next.blanks.char ':' = some colon ∧ payload colon.blanks = some (value, span, d) ∧
      s = .call ⟨start, d.offset⟩ name.text value span := by
  simp only [call, bind, Option.bind_eq_some_iff] at h
  obtain ⟨⟨name, next⟩, hname, colon, hcolon, ⟨value, span, last⟩, hpayload, heq⟩ := h
  cases heq
  exact ⟨name, next, colon, value, span, hname, hcolon, hpayload, rfl⟩

theorem arrow_lt {arrow : Cursor} (h : c.chars ['|', '>'] = some arrow) : c < arrow.blanks :=
  (chars_lt (List.cons_ne_nil _ _) h).trans_le (le_blanks arrow)

/-! ## Induction -/

/-- What holds where nothing is read, and of whatever is read if it holds of the parts: `P` of
steps, `Q` of one step, `R` of branches. -/
structure Hereditary (P : Cursor → Pipeline → List SyntaxReport → Cursor → Prop)
    (Q : Cursor → Step → List SyntaxReport → Cursor → Prop)
    (R : Cursor → List Branch → List SyntaxReport → Cursor → Prop) : Prop where
  noStep (c : Cursor) : P c [] [] c
  nextStep {c d e : Cursor} {s : Step} {ss : Pipeline} {rs rs' : List SyntaxReport} :
    StepRead c.layout s rs d → StepsRead d ss rs' e → Q c.layout s rs d → P d ss rs' e →
      P c (s :: ss) (rs ++ rs') e
  ofCall {c arrow d : Cursor} {s : Step} : c.chars ['|', '>'] = some arrow →
    call c.offset arrow.blanks = some (s, d) → Q c s [] d
  ofTooDeep {c arrow behind : Cursor} : c.chars ['|', '>'] = some arrow →
    resultWord arrow.blanks = some behind →
      Q c (.result ⟨c.offset, behind.lineEnd.offset⟩ [])
        [⟨.nestedTooDeep maxNesting, ⟨c.offset, behind.lineEnd.offset⟩⟩] behind.lineEnd
  ofResult {c arrow behind d : Cursor} {bs : List Branch} {rs : List SyntaxReport} :
    c.chars ['|', '>'] = some arrow → resultWord arrow.blanks = some behind →
      BranchesRead behind bs rs d → R behind bs rs d → Q c (.result ⟨c.offset, d.offset⟩ bs) rs d
  noBranch (c : Cursor) : R c [] [] c
  nextBranch {c colon d e : Cursor} {label digits : Token} {ss : Pipeline} {bs : List Branch}
    {rs rs' : List SyntaxReport} : branchHead c.layout = some ((label, digits), colon) →
      StepsRead colon ss rs d → BranchesRead d bs rs' e → P colon ss rs d → R d bs rs' e →
      R c (.mk (.ofLabel label.text) (statusOfDigits digits.text.toList) digits.span ss :: bs)
        (statusReports (statusOfDigits digits.text.toList) digits.span ++ rs ++ rs') e

section
variable {P : Cursor → Pipeline → List SyntaxReport → Cursor → Prop}
  {Q : Cursor → Step → List SyntaxReport → Cursor → Prop}
  {R : Cursor → List Branch → List SyntaxReport → Cursor → Prop}

mutual
theorem StepsRead.induct (h : Hereditary P Q R) :
    ∀ {c d : Cursor} {ss : Pipeline} {rs : List SyntaxReport}, StepsRead c ss rs d → P c ss rs d
  | _, _, _, _, .done c => h.noStep c
  | _, _, _, _, .next hs hss => h.nextStep hs hss (hs.induct h) (hss.induct h)
theorem StepRead.induct (h : Hereditary P Q R) :
    ∀ {c d : Cursor} {s : Step} {rs : List SyntaxReport}, StepRead c s rs d → Q c s rs d
  | _, _, _, _, .call harrow hcall => h.ofCall harrow hcall
  | _, _, _, _, .tooDeep harrow hword => h.ofTooDeep harrow hword
  | _, _, _, _, .result harrow hword hbs => h.ofResult harrow hword hbs (hbs.induct h)
theorem BranchesRead.induct (h : Hereditary P Q R) :
    ∀ {c d : Cursor} {bs : List Branch} {rs : List SyntaxReport}, BranchesRead c bs rs d →
      R c bs rs d
  | _, _, _, _, .done c => h.noBranch c
  | _, _, _, _, .next hhead hss hbs => h.nextBranch hhead hss hbs (hss.induct h) (hbs.induct h)
end

/-- Induction along steps, not into them. -/
theorem StepsRead.along (hdone : ∀ c, P c [] [] c)
    (hnext : ∀ {c d e s ss rs rs'}, StepRead c.layout s rs d → StepsRead d ss rs' e →
      P d ss rs' e → P c (s :: ss) (rs ++ rs') e)
    {ss : Pipeline} {rs : List SyntaxReport} (h : StepsRead c ss rs d) : P c ss rs d :=
  h.induct (Q := fun _ _ _ _ => True) (R := fun _ _ _ _ => True)
    { noStep := hdone
      nextStep := fun hs hss _ hrest => hnext hs hss hrest
      ofCall := fun _ _ => trivial
      ofTooDeep := fun _ _ => trivial
      ofResult := fun _ _ _ _ => trivial
      noBranch := fun _ => trivial
      nextBranch := fun _ _ _ _ _ => trivial }

/-- Induction along branches, not into their steps. -/
theorem BranchesRead.along (hdone : ∀ c, R c [] [] c)
    (hnext : ∀ {c colon d e label digits ss bs rs rs'},
      branchHead c.layout = some ((label, digits), colon) → StepsRead colon ss rs d →
      BranchesRead d bs rs' e → R d bs rs' e →
      R c (.mk (.ofLabel label.text) (statusOfDigits digits.text.toList) digits.span ss :: bs)
        (statusReports (statusOfDigits digits.text.toList) digits.span ++ rs ++ rs') e)
    {bs : List Branch} {rs : List SyntaxReport} (h : BranchesRead c bs rs d) : R c bs rs d :=
  h.induct (P := fun _ _ _ _ => True) (Q := fun _ _ _ _ => True)
    { noStep := fun _ => trivial
      nextStep := fun _ _ _ _ => trivial
      ofCall := fun _ _ => trivial
      ofTooDeep := fun _ _ => trivial
      ofResult := fun _ _ _ _ => trivial
      noBranch := hdone
      nextBranch := fun hhead hss hbs _ hrest => hnext hhead hss hbs hrest }

end

/-- Every step moves on. -/
theorem hereditary_le : Hereditary (fun c _ _ d => c ≤ d) (fun c _ _ d => c < d)
    (fun c _ _ d => c ≤ d) where
  noStep c := le_refl c
  nextStep := by
    intro c d e s ss rs rs' _ _ hs hss
    exact (le_layout c).trans (hs.le.trans hss)
  ofCall harrow hcall := (arrow_lt harrow).trans (call_lt hcall)
  ofTooDeep harrow hword := (arrow_lt harrow).trans ((resultWord_lt hword).trans_le (le_lineEnd _))
  ofResult harrow hword _ hbs := (arrow_lt harrow).trans ((resultWord_lt hword).trans_le hbs)
  noBranch c := le_refl c
  nextBranch := by
    intro c colon d e label digits ss bs rs rs' hhead _ _ hss hbs
    exact (le_layout c).trans ((branchHead_lt hhead).le.trans (hss.trans hbs))

theorem StepsRead.le {ss : Pipeline} {rs : List SyntaxReport} (h : StepsRead c ss rs d) : c ≤ d :=
  h.induct hereditary_le

theorem StepRead.lt {s : Step} {rs : List SyntaxReport} (h : StepRead c s rs d) : c < d :=
  h.induct hereditary_le

theorem BranchesRead.le {bs : List Branch} {rs : List SyntaxReport} (h : BranchesRead c bs rs d) :
    c ≤ d :=
  h.induct hereditary_le

/-! ## What is read has a derivation -/

/-- Whatever the reader reads is a run of steps. -/
def Derives (read : PipelineReader) : Prop :=
  ∀ c, StepsRead c (read c).1 (read c).2.1 (read c).2.2

theorem branches_derive {inner : Nat → PipelineReader} (honward : ∀ label, Onward (inner label))
    (hinner : ∀ label, Derives (inner label)) (label : Option Nat) (c : Cursor) :
    BranchesRead c ((c.many (ownedBranch inner label)).1.map (·.1))
      ((c.many (ownedBranch inner label)).1.flatMap (·.2))
      (c.many (ownedBranch inner label)).2 := by
  refine many_induction
    (motive := fun c r => BranchesRead c (r.1.map (·.1)) (r.1.flatMap (·.2)) r.2)
    (fun _ _ _ => ownedBranch_lt honward) ?_ ?_ c
  · intro c _
    exact .done c
  · intro c b d hread _ ih
    simp only [ownedBranch] at hread
    split at hread
    · rw [branch_eq] at hread
      obtain ⟨⟨⟨l, digits⟩, colon⟩, hhead, heq⟩ := Option.map_eq_some_iff.1 hread
      cases heq
      exact .next hhead (hinner _ colon) ih
    · cases hread

theorem choice_derives {inner : Option (Nat → PipelineReader)}
    (honward : ∀ read ∈ inner, ∀ label, Onward (read label))
    (hinner : ∀ read ∈ inner, ∀ label, Derives (read label)) (label : Option Nat)
    {arrow behind : Cursor} (harrow : c.chars ['|', '>'] = some arrow)
    (hword : resultWord arrow.blanks = some behind) :
    StepRead c (choice inner label c.offset behind).1.1 (choice inner label c.offset behind).1.2
      (choice inner label c.offset behind).2 := by
  cases inner with
  | none => exact .tooDeep harrow hword
  | some read =>
    exact .result harrow hword (branches_derive (honward read rfl) (hinner read rfl) label behind)

theorem step_derives {inner : Option (Nat → PipelineReader)}
    (honward : ∀ read ∈ inner, ∀ label, Onward (read label))
    (hinner : ∀ read ∈ inner, ∀ label, Derives (read label)) {label : Option Nat}
    {s : Step × List SyntaxReport} (h : step inner label c = some (s, d)) :
    StepRead c s.1 s.2 d := by
  simp only [step, bind, Option.bind_eq_some_iff] at h
  obtain ⟨arrow, harrow, h⟩ := h
  split at h
  · next behind hword =>
    have hchoice := choice_derives honward hinner label harrow hword
    rw [Option.some.inj h] at hchoice
    exact hchoice
  · obtain ⟨⟨t, last⟩, hcall, heq⟩ := Option.map_eq_some_iff.1 h
    cases heq
    exact .call harrow hcall

theorem derives_steps {inner : Option (Nat → PipelineReader)}
    (honward : ∀ read ∈ inner, ∀ label, Onward (read label))
    (hinner : ∀ read ∈ inner, ∀ label, Derives (read label)) (label : Option Nat) :
    Derives (steps inner label) := by
  intro c
  refine many_induction
    (motive := fun c r => StepsRead c (r.1.map (·.1)) (r.1.flatMap (·.2)) r.2)
    (fun _ _ _ => ownedStep_lt honward) ?_ ?_ c
  · intro c _
    exact .done c
  · intro c s d hread _ ih
    simp only [ownedStep] at hread
    split at hread
    · exact .next (step_derives honward hinner hread) ih
    · cases hread

theorem derives_branchSteps (levels label : Nat) : Derives (branchSteps levels label) := by
  induction levels generalizing label with
  | zero =>
    apply derives_steps
    · rintro read ⟨⟩
    · rintro read ⟨⟩
  | succ levels ih =>
    apply derives_steps
    · rintro read ⟨⟩
      exact onward_branchSteps levels
    · rintro read ⟨⟩
      exact ih

/-- What a pipeline reads has a derivation. -/
theorem pipeline_derives : Derives pipeline := by
  apply derives_steps
  · rintro read ⟨⟩
    exact onward_branchSteps (maxNesting - 1)
  · rintro read ⟨⟩
    exact derives_branchSteps (maxNesting - 1)

/-! ## Pipelines inside a tree -/

/-- The pipeline is read somewhere between the two cursors. -/
def ReadWithin (c d : Cursor) (p : Pipeline) : Prop :=
  ∃ c' rs d', c ≤ c' ∧ d' ≤ d ∧ StepsRead c' p rs d'

theorem ReadWithin.mono {c c' d d' : Cursor} {p : Pipeline} (h : ReadWithin c d p) (hc : c' ≤ c)
    (hd : d ≤ d') : ReadWithin c' d' p := by
  obtain ⟨e, rs, f, he, hf, hread⟩ := h
  exact ⟨e, rs, f, hc.trans he, hf.trans hd, hread⟩

theorem hereditary_nested : Hereditary
    (fun c ss _ d => ∀ p ∈ Step.nestedAll ss, ReadWithin c d p)
    (fun c s _ d => ∀ p ∈ s.nested, ReadWithin c d p)
    (fun c bs _ d => ∀ p ∈ Branch.nestedAll bs, ReadWithin c d p) where
  noStep _ := nofun
  nextStep := by
    intro c d e s ss rs rs' hs hss hfirst hrest p hp
    rcases List.mem_append.1 hp with hp | hp
    · exact (hfirst p hp).mono (le_layout c) hss.le
    · exact (hrest p hp).mono ((le_layout c).trans hs.lt.le) le_rfl
  ofCall := by
    intro c arrow d s _ hcall p hp
    obtain ⟨name, next, colon, value, span, -, -, -, rfl⟩ := call_spec hcall
    simp [Step.nested] at hp
  ofTooDeep := by
    intro c arrow behind _ _ p hp
    simp [Step.nested, Branch.nestedAll] at hp
  ofResult := by
    intro c arrow behind d bs rs harrow hword _ hbs p hp
    rw [Step.nested] at hp
    exact (hbs p hp).mono ((arrow_lt harrow).trans (resultWord_lt hword)).le le_rfl
  noBranch _ := nofun
  nextBranch := by
    intro c colon d e label digits ss bs rs rs' hhead hss hbs hsteps hrest p hp
    have hcolon := (le_layout c).trans (branchHead_lt hhead).le
    rw [Branch.nestedAll, Branch.nested, List.cons_append, List.mem_cons, List.mem_append] at hp
    rcases hp with rfl | hp | hp
    · exact ⟨_, _, _, hcolon, hbs.le, hss⟩
    · exact (hsteps p hp).mono hcolon hbs.le
    · exact (hrest p hp).mono (hcolon.trans hss.le) le_rfl

/-- Each pipeline of a tree is read on its own, within what the tree is read of. -/
theorem StepsRead.all {ss : Pipeline} {rs : List SyntaxReport} (h : StepsRead c ss rs d) :
    ∀ p ∈ Pipeline.all ss, ReadWithin c d p := by
  intro p hp
  rcases List.mem_cons.1 hp with rfl | hp
  · exact ⟨c, rs, d, le_rfl, le_rfl, h⟩
  · exact h.induct hereditary_nested p hp

/-! ## Declarations with pipelines -/

/-- The parts of a named pipeline: the word, a name before an equals sign, and steps. -/
theorem namedPipeline_spec {v : Spanned NamedPipeline} {rs : List SyntaxReport}
    (h : namedPipeline c = some (v, rs, d)) :
    ∃ word name equals, c < word ∧ declaredName word = some (name, equals) ∧
      v.value.name = name.text ∧ v.value.nameSpan = name.span ∧
      StepsRead equals v.value.steps rs d := by
  simp only [namedPipeline, bind, Option.bind_eq_some_iff] at h
  obtain ⟨word, hword, ⟨name, equals⟩, hname, heq⟩ := h
  cases heq
  exact ⟨word, name, equals, keyword_lt (by decide) hword, hname, rfl, rfl, pipeline_derives equals⟩

/-- A route runs the steps it has, or the pipeline that its only step names. -/
theorem routeBody_cases (ss : Pipeline) :
    routeBody ss = .inline ss ∨ ∃ span name payloadSpan,
      ss = [.call span "pipeline" (.identifier name) payloadSpan] ∧ routeBody ss = .named name := by
  unfold routeBody
  split
  · next span word name payloadSpan =>
    by_cases hword : word = "pipeline"
    · subst hword
      exact Or.inr ⟨span, name, payloadSpan, rfl, if_pos rfl⟩
    · exact Or.inl (if_neg hword)
  · exact Or.inl rfl

/-- Behind the path of a route stand its steps. -/
theorem route_spec {v : Spanned Route} {rs : List SyntaxReport} (h : route c = some (v, rs, d)) :
    ∃ behind ss, c < behind ∧ StepsRead behind ss rs d ∧ v.value.body = routeBody ss := by
  simp only [route, bind, Option.bind_eq_some_iff] at h
  obtain ⟨⟨word, next⟩, hword, pathStart, hblank, h⟩ := h
  split at h
  · simp only [Option.bind_eq_some_iff] at h
    obtain ⟨⟨path, behind⟩, hpath, heq⟩ := h
    cases heq
    refine ⟨behind, _, ?_, pipeline_derives behind, rfl⟩
    exact (method_lt hword).trans ((someBlanks_lt hblank).trans (bareToken_lt hpath))
  · cases h

end PipelineLang.Grammar
