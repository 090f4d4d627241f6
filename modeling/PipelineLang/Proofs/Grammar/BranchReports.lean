import PipelineLang.Proofs.Grammar.Nesting

/-!
# The reports on branches match the tree

Reading a pipeline reports two things: a branch with a status that no answer can have, and a
`result` step in which no branch may open any more. Reports come in the order of the text
(`InOrder`), and those of one kind are those of the nodes they are about, one for each
(`perm_statusReports`, `tooDeepReports_eq`). Nodes taken in the order of the document therefore give
the list of reports itself (`branchReports_match`).
-/

namespace PipelineLang

open Grammar

/-! ## Nodes and their reports -/

def SyntaxReport.isInvalidStatus (r : SyntaxReport) : Bool :=
  match r.fault with
  | .invalidStatus _ => true
  | _ => false

def SyntaxReport.isNestedTooDeep (r : SyntaxReport) : Bool :=
  match r.fault with
  | .nestedTooDeep _ => true
  | _ => false

/-- Whether the status is outside of those that an answer can have. -/
def Branch.hasInvalidStatus (b : Branch) : Bool := b.status < 100 || 599 < b.status

def Branch.statusReport (b : Branch) : SyntaxReport := ⟨.invalidStatus b.status, b.statusSpan⟩

def Step.isResult : Step → Bool
  | .call .. => false
  | .result .. => true

def Step.tooDeepReport (s : Step) : SyntaxReport := ⟨.nestedTooDeep maxNesting, s.span⟩

/-! ## Depth -/

theorem Step.depth_le_of_mem {s : Step} {ss : List Step} (h : s ∈ ss) :
    s.depth ≤ Step.depthAll ss := by
  induction ss with
  | nil => cases h
  | cons t ss ih =>
    rw [Step.depthAll]
    rcases List.mem_cons.1 h with rfl | h
    · exact Nat.le_max_left ..
    · exact (ih h).trans (Nat.le_max_right ..)

theorem Branch.depth_le_of_mem {b : Branch} {bs : List Branch} (h : b ∈ bs) :
    b.depth ≤ Branch.depthAll bs := by
  induction bs with
  | nil => cases h
  | cons b' bs ih =>
    rw [Branch.depthAll]
    rcases List.mem_cons.1 h with rfl | h
    · exact Nat.le_max_left ..
    · exact (ih h).trans (Nat.le_max_right ..)

/-- A branch of a step nests less deeply than the step. -/
theorem Step.depth_steps_lt {s : Step} {b : Branch} (h : b ∈ s.branches) :
    Step.depthAll b.steps < s.depth := by
  cases s with
  | call span name payload payloadSpan => cases h
  | result span bs =>
    obtain ⟨outcome, status, statusSpan, steps⟩ := b
    have hdepth := Branch.depth_le_of_mem h
    rw [Branch.depth] at hdepth
    rw [Step.depth]
    exact hdepth

/-- Inside as many branches as nest in a pipeline, no step has branches. -/
theorem Pipeline.branches_eq_nil_of_mem_within {n : Nat} {p : Pipeline} (hp : p.depth ≤ n)
    {s : Step} (h : s ∈ p.within n) : s.branches = [] := by
  induction n generalizing p with
  | zero =>
    refine List.eq_nil_iff_forall_not_mem.2 fun b hb => ?_
    have hlt := Step.depth_steps_lt hb
    have hle := (Step.depth_le_of_mem h).trans hp
    omega
  | succ n ih =>
    simp only [Pipeline.within, List.mem_flatMap] at h
    obtain ⟨t, ht, b, hb, h⟩ := h
    refine ih ?_ h
    have hlt := Step.depth_steps_lt hb
    have hle := (Step.depth_le_of_mem ht).trans hp
    rw [Pipeline.depth]
    omega

theorem Pipeline.within_cons (n : Nat) (s : Step) (p : Pipeline) :
    within n (s :: p) = within n [s] ++ within n p := by
  cases n <;> simp [within]

namespace Grammar

open Cursor

variable {c d e : Cursor} {levels : Nat} {label : Option Nat} {rs : List SyntaxReport}

/-! ## Reports on statuses -/

/-- The reports on those of the branches that have an invalid status. -/
def statusReportsOf (bs : List Branch) : List SyntaxReport :=
  (bs.filter Branch.hasInvalidStatus).map Branch.statusReport

@[simp] theorem statusReportsOf_append (bs bs' : List Branch) :
    statusReportsOf (bs ++ bs') = statusReportsOf bs ++ statusReportsOf bs' := by
  simp [statusReportsOf]

theorem statusReportsOf_cons (b : Branch) (bs : List Branch) :
    statusReportsOf (b :: bs) = statusReportsOf [b] ++ statusReportsOf bs :=
  statusReportsOf_append [b] bs

theorem filter_statusReports (b : Branch) :
    (statusReports b.status b.statusSpan).filter SyntaxReport.isInvalidStatus
      = statusReportsOf [b] := by
  simp only [statusReports, statusReportsOf, List.filter_cons, List.filter_nil]
  by_cases h : 100 ≤ b.status ∧ b.status ≤ 599
  · have hvalid : b.hasInvalidStatus = false := by
      simp only [Branch.hasInvalidStatus, Bool.or_eq_false_iff, decide_eq_false_iff_not]
      omega
    simp [h, hvalid]
  · have hinvalid : b.hasInvalidStatus = true := by
      simp only [Branch.hasInvalidStatus, Bool.or_eq_true, decide_eq_true_eq]
      omega
    simp [h, hinvalid, SyntaxReport.isInvalidStatus, Branch.statusReport]

/-- The branches of the steps in the given pipelines. -/
def branchesIn (ps : List Pipeline) : List Branch := ps.flatMap (·.flatMap Step.branches)

@[simp] theorem branchesIn_cons (p : Pipeline) (ps : List Pipeline) :
    branchesIn (p :: ps) = p.flatMap Step.branches ++ branchesIn ps := rfl

@[simp] theorem branchesIn_append (ps qs : List Pipeline) :
    branchesIn (ps ++ qs) = branchesIn ps ++ branchesIn qs :=
  List.flatMap_append

theorem hereditary_perm_statusReports : Hereditary
    (fun _ ss rs _ => (rs.filter SyntaxReport.isInvalidStatus).Perm
      (statusReportsOf (ss.flatMap Step.branches ++ branchesIn (Step.nestedAll ss))))
    (fun _ s rs _ => (rs.filter SyntaxReport.isInvalidStatus).Perm
      (statusReportsOf (s.branches ++ branchesIn s.nested)))
    (fun _ bs rs _ => (rs.filter SyntaxReport.isInvalidStatus).Perm
      (statusReportsOf (bs ++ branchesIn (Branch.nestedAll bs)))) where
  noStep _ := .nil
  nextStep := by
    intro c d e s ss rs rs' _ _ hs hss
    rw [List.perm_iff_count] at hs hss ⊢
    intro r
    have hs := hs r
    have hss := hss r
    simp only [List.filter_append, List.flatMap_cons, Step.nestedAll, statusReportsOf_append,
      branchesIn_append, List.count_append] at hs hss ⊢
    omega
  ofCall := by
    intro c arrow d s _ hcall
    obtain ⟨name, next, colon, value, span, -, -, -, rfl⟩ := call_spec hcall
    exact .nil
  ofTooDeep := by
    intro c arrow behind _ _
    exact .nil
  ofResult := by
    intro c arrow behind d bs rs _ _ _ hbs
    exact hbs
  noBranch _ := .nil
  nextBranch := by
    intro c colon d e label digits ss bs rs rs' _ _ _ hss hbs
    have hstatus := filter_statusReports
      (.mk (.ofLabel label.text) (statusOfDigits digits.text.toList) digits.span ss)
    simp only [Branch.status, Branch.statusSpan] at hstatus
    rw [List.perm_iff_count] at hss hbs ⊢
    intro r
    have hss := hss r
    have hbs := hbs r
    rw [List.cons_append, statusReportsOf_cons, Branch.nestedAll, Branch.nested]
    simp only [List.filter_append, hstatus, statusReportsOf_append, branchesIn_append,
      branchesIn_cons, List.count_append] at hss hbs ⊢
    omega

/-- A tree is read with one report for each branch that has an invalid status. -/
theorem perm_statusReports {ss : Pipeline} (h : StepsRead c ss rs d) :
    (rs.filter SyntaxReport.isInvalidStatus).Perm
      ((ss.branches.filter Branch.hasInvalidStatus).map Branch.statusReport) :=
  h.induct hereditary_perm_statusReports

/-! ## Reports on nesting -/

/-- The reports on those of the steps that would open branches. -/
def tooDeepReportsOf (ss : List Step) : List SyntaxReport :=
  (ss.filter Step.isResult).map Step.tooDeepReport

@[simp] theorem tooDeepReportsOf_append (ss ts : List Step) :
    tooDeepReportsOf (ss ++ ts) = tooDeepReportsOf ss ++ tooDeepReportsOf ts := by
  simp [tooDeepReportsOf]

theorem filter_isNestedTooDeep_statusReports (status : Nat) (span : Span) :
    (statusReports status span).filter SyntaxReport.isNestedTooDeep = [] := by
  unfold statusReports
  split <;> rfl

mutual
/-- A tree is read with one report for each `result` step inside as many branches as may open. -/
theorem StepsNested.tooDeepReports_eq : ∀ {levels : Nat} {label : Option Nat} {c d : Cursor}
    {ss : Pipeline} {rs : List SyntaxReport}, StepsNested levels label c ss rs d →
      rs.filter SyntaxReport.isNestedTooDeep = tooDeepReportsOf (ss.within levels)
  | levels, _, _, _, _, _, .done _ => by cases levels <;> rfl
  | levels, _, _, _, _, _, .next _ hs hss => by
    rw [List.filter_append, hs.tooDeepReports_eq, hss.tooDeepReports_eq,
      ← tooDeepReportsOf_append, ← Pipeline.within_cons]
theorem StepNested.tooDeepReports_eq : ∀ {levels : Nat} {label : Option Nat} {c d : Cursor}
    {s : Step} {rs : List SyntaxReport}, StepNested levels label c s rs d →
      rs.filter SyntaxReport.isNestedTooDeep = tooDeepReportsOf (Pipeline.within levels [s])
  | levels, _, _, _, _, _, .call _ hcall => by
    obtain ⟨name, next, colon, value, span, -, -, -, rfl⟩ := call_spec hcall
    cases levels <;> rfl
  | _, _, _, _, _, _, .tooDeep _ _ => rfl
  | _, _, _, _, _, _, .result _ _ hbs => by
    simpa [Pipeline.within, Step.branches] using hbs.tooDeepReports_eq
theorem BranchesNested.tooDeepReports_eq : ∀ {levels : Nat} {label : Option Nat} {c d : Cursor}
    {bs : List Branch} {rs : List SyntaxReport}, BranchesNested levels label c bs rs d →
      rs.filter SyntaxReport.isNestedTooDeep
        = tooDeepReportsOf (bs.flatMap fun b => b.steps.within levels)
  | _, _, _, _, _, _, .done _ => rfl
  | _, _, _, _, _, _, .next _ _ hss hbs => by
    rw [List.filter_append, List.filter_append, filter_isNestedTooDeep_statusReports,
      hss.tooDeepReports_eq, hbs.tooDeepReports_eq, List.flatMap_cons, tooDeepReportsOf_append]
    rfl
end

/-! ## The order of reports -/

/-- The reports are on pieces between the two cursors, none empty, one behind the other. -/
structure InOrder (c d : Cursor) (rs : List SyntaxReport) : Prop where
  inside : ∀ r ∈ rs, Span.encloses ⟨c.offset, d.offset⟩ r.span = true
  nonempty : ∀ r ∈ rs, r.span.start < r.span.stop
  apart : rs.Pairwise fun r s => r.span.stop ≤ s.span.start

namespace InOrder

theorem nil (c d : Cursor) : InOrder c d [] := ⟨nofun, nofun, .nil⟩

theorem mono {c' d' : Cursor} (h : InOrder c d rs) (hc : c' ≤ c) (hd : d ≤ d') :
    InOrder c' d' rs :=
  ⟨fun r hr => encloses_mono hc hd (h.inside r hr), h.nonempty, h.apart⟩

theorem append {rs' : List SyntaxReport} (h : InOrder c d rs) (h' : InOrder d e rs') (hc : c ≤ d)
    (hd : d ≤ e) : InOrder c e (rs ++ rs') where
  inside r hr := (List.mem_append.1 hr).elim
    (fun hr => encloses_mono le_rfl hd (h.inside r hr))
    fun hr => encloses_mono hc le_rfl (h'.inside r hr)
  nonempty r hr := (List.mem_append.1 hr).elim (h.nonempty r) (h'.nonempty r)
  apart := by
    refine List.pairwise_append.2 ⟨h.apart, h'.apart, fun r hr s hs => ?_⟩
    have hstop := (Span.encloses_iff.1 (h.inside r hr)).2
    have hstart := (Span.encloses_iff.1 (h'.inside s hs)).1
    exact hstop.trans hstart

theorem filter (h : InOrder c d rs) (p : SyntaxReport → Bool) : InOrder c d (rs.filter p) where
  inside r hr := h.inside r (List.mem_filter.1 hr).1
  nonempty r hr := h.nonempty r (List.mem_filter.1 hr).1
  apart := h.apart.filter p

theorem singleton {r : SyntaxReport} {a b : Cursor} (hspan : r.span = ⟨a.offset, b.offset⟩)
    (hc : c ≤ a) (hab : a < b) (hd : b ≤ d) : InOrder c d [r] where
  inside s hs := by
    rw [List.mem_singleton.1 hs, hspan]
    exact encloses_of_le hc hd
  nonempty s hs := by
    rw [List.mem_singleton.1 hs, hspan]
    exact offset_lt hab
  apart := List.pairwise_singleton ..

end InOrder

/-- A status is reported where its digits stand. -/
theorem inOrder_statusReports {label digits : Token} (h : branchHead c = some ((label, digits), d))
    (status : Nat) : InOrder c d (statusReports status digits.span) := by
  obtain ⟨a, b, ha, hrun, hb, hspan, hne, -⟩ := branchHead_spec h
  unfold statusReports
  split
  · exact .nil c d
  · exact .singleton hspan ha (hrun.lt hne) hb

theorem hereditary_inOrder : Hereditary (fun c _ rs d => InOrder c d rs)
    (fun c _ rs d => InOrder c d rs) (fun c _ rs d => InOrder c d rs) where
  noStep c := .nil c c
  nextStep := by
    intro c d e s ss rs rs' hs hss hfirst hrest
    exact (hfirst.append hrest hs.lt.le hss.le).mono (le_layout c) le_rfl
  ofCall _ _ := .nil _ _
  ofTooDeep harrow hword := .singleton rfl le_rfl (StepRead.tooDeep harrow hword).lt le_rfl
  ofResult harrow hword _ hbs := hbs.mono ((arrow_lt harrow).trans (resultWord_lt hword)).le le_rfl
  noBranch c := .nil c c
  nextBranch := by
    intro c colon d e label digits ss bs rs rs' hhead hss hbs hsteps hrest
    have hcolon := (branchHead_lt hhead).le
    exact (((inOrder_statusReports hhead _).append hsteps hcolon hss.le).append hrest
      (hcolon.trans hss.le) hbs.le).mono (le_layout c) le_rfl

/-- Reports with increasing starts are the only way to sort them. -/
theorem sorted_eq {rs' : List SyntaxReport} (hperm : rs.Perm rs')
    (hrs : rs.Pairwise fun r s => r.span.start < s.span.start)
    (hrs' : rs'.Pairwise fun r s => r.span.start ≤ s.span.start) : rs = rs' := by
  refine hperm.eq_of_pairwise (fun r s hr hs hle hge => ?_) (hrs.imp Nat.le_of_lt) hrs'
  have hdistinct : (rs.map (·.span.start)).Nodup := List.pairwise_map.2 (hrs.imp Nat.ne_of_lt)
  exact List.inj_on_of_nodup_map hdistinct hr (hperm.mem_iff.2 hs) (Nat.le_antisymm hle hge)

/-! ## Documents -/

/-- A kind of report that pipelines make, with the nodes of a pipeline that it is about. -/
structure NodeReports (α : Type) where
  kind : SyntaxReport → Bool
  nodes : Pipeline → List α
  keep : α → Bool
  report : α → SyntaxReport
  isBranchFault : ∀ r, kind r = true → IsBranchFault r.fault
  perm : ∀ {c d : Cursor} {ss : Pipeline} {rs : List SyntaxReport},
    StepsNested maxNesting none c ss rs d →
      (rs.filter kind).Perm (((nodes ss).filter keep).map report)

namespace NodeReports

variable {α : Type} (n : NodeReports α)

/-- The reports of the kind that are made of the nodes of the given pipelines. -/
def reportsOf (ps : List Pipeline) : List SyntaxReport :=
  ((ps.flatMap n.nodes).filter n.keep).map n.report

theorem filter_eq_nil (hrs : ∀ r ∈ rs, ¬ IsBranchFault r.fault) : rs.filter n.kind = [] :=
  List.filter_eq_nil_iff.2 fun r hr hkind => hrs r hr (n.isBranchFault r hkind)

theorem item_perm {i : Item} (h : item c = some (i, d)) :
    (i.reports.filter n.kind).Perm (n.reportsOf i.body?.toList) := by
  rcases item_body h with ⟨ss, e, hbody, -, hss⟩ | ⟨hbody, hrs⟩
  · rw [hbody, reportsOf, Option.toList_some, List.flatMap_singleton]
    exact n.perm hss
  · rw [hbody, n.filter_eq_nil hrs]
    exact .nil

theorem item_inOrder {i : Item} (h : item c = some (i, d)) :
    InOrder c d (i.reports.filter n.kind) := by
  rcases item_body h with ⟨ss, e, -, he, hss⟩ | ⟨-, hrs⟩
  · exact ((hss.read.induct hereditary_inOrder).mono he le_rfl).filter n.kind
  · rw [n.filter_eq_nil hrs]
    exact .nil c d

theorem items_perm {is : List Item} (his : ∀ i ∈ is, ∃ c d, item c = some (i, d)) :
    ((is.flatMap Item.reports).filter n.kind).Perm (n.reportsOf (is.filterMap Item.body?)) := by
  induction is with
  | nil => exact .nil
  | cons i is ih =>
    obtain ⟨c, d, hi⟩ := his i List.mem_cons_self
    have hfirst := n.item_perm hi
    have hrest := ih fun j hj => his j (List.mem_cons_of_mem i hj)
    have hbodies : (i :: is).filterMap Item.body? = i.body?.toList ++ is.filterMap Item.body? := by
      cases hbody : i.body? with
      | none => rw [List.filterMap_cons_none hbody]; rfl
      | some ss => rw [List.filterMap_cons_some hbody]; rfl
    rw [hbodies, List.flatMap_cons, List.filter_append]
    simpa [reportsOf] using hfirst.append hrest

theorem items_inOrder (c : Cursor) :
    InOrder c (c.many item).2 (((c.many item).1.flatMap Item.reports).filter n.kind) := by
  refine many_induction
    (motive := fun c r => InOrder c r.2 ((r.1.flatMap Item.reports).filter n.kind))
    (fun _ _ _ => item_lt) ?_ ?_ c
  · intro c _
    exact .nil c c
  · intro c i d hread hlt ih
    rw [List.flatMap_cons, List.filter_append]
    exact (n.item_inOrder hread).append ih hlt.le (le_many (fun _ _ _ => item_lt) d)

theorem filter_unclosedTick (text : List Char) : (unclosedTick text).filter n.kind = [] := by
  refine n.filter_eq_nil fun r hr => ?_
  simp only [unclosedTick] at hr
  split at hr
  · split at hr
    · rw [List.mem_singleton.1 hr]
      exact id
    · cases hr
  · cases hr

/-- The nodes in the order of the document, one report of the kind for each that is kept, are the
reports of the kind in the order that they are made. -/
theorem filter_reports_eq (text : List Char) :
    (parse text).reports.filter n.kind =
      ((((parse text).program.bodies.flatMap n.nodes).mergeSort
        fun a b => (n.report a).span.start ≤ (n.report b).span.start).filter n.keep).map
          n.report := by
  have hreports : (parse text).reports.filter n.kind
      = ((items text).flatMap Item.reports).filter n.kind := by
    rw [parse, List.filter_append, n.filter_unclosedTick, List.append_nil]
  have horder := n.items_inOrder (start 0 text)
  have hnodes : (n.reportsOf ((items text).filterMap Item.body?)).Perm
      (n.reportsOf (parse text).program.bodies) :=
    (((perm_bodies (items text)).flatMap_right n.nodes).filter n.keep).map n.report |>.symm
  have hitems := n.items_perm fun i hi => mem_many (fun _ _ _ => item_lt) (start 0 text) hi
  have hsort := ((List.mergeSort_perm ((parse text).program.bodies.flatMap n.nodes) fun a b =>
    decide ((n.report a).span.start ≤ (n.report b).span.start)).filter n.keep).map n.report
  rw [hreports]
  refine sorted_eq (hitems.trans (hnodes.trans hsort.symm)) ?_ ?_
  · exact horder.apart.imp_of_mem fun hr _ hrs => Nat.lt_of_lt_of_le (horder.nonempty _ hr) hrs
  · have hsorted := List.pairwise_mergeSort'
      (Order.Preimage (fun a => (n.report a).span.start) (· ≤ ·))
      ((parse text).program.bodies.flatMap n.nodes)
    exact List.pairwise_map.2 (hsorted.filter _)

end NodeReports

/-- Invalid statuses, with the branches that have them. -/
def invalidStatusReports : NodeReports Branch where
  kind := SyntaxReport.isInvalidStatus
  nodes := Pipeline.branches
  keep := Branch.hasInvalidStatus
  report := Branch.statusReport
  isBranchFault r hkind := by
    unfold SyntaxReport.isInvalidStatus at hkind
    split at hkind
    · next hfault => rw [hfault]; trivial
    · cases hkind
  perm h := perm_statusReports h.read

/-- Branches that may not open, with the steps that would open them. -/
def nestedTooDeepReports : NodeReports Step where
  kind := SyntaxReport.isNestedTooDeep
  nodes := Pipeline.within maxNesting
  keep := Step.isResult
  report := Step.tooDeepReport
  isBranchFault r hkind := by
    unfold SyntaxReport.isNestedTooDeep at hkind
    split at hkind
    · next hfault => rw [hfault]; trivial
    · cases hkind
  perm h := .of_eq h.tooDeepReports_eq

theorem depth_le_of_mem_allPipelines {text : List Char} {p : Pipeline}
    (h : p ∈ (parse text).program.allPipelines) : p.depth ≤ maxNesting := by
  obtain ⟨body, hbody, hp⟩ := mem_allPipelines_iff.1 h
  obtain ⟨c, rs, d, -, hread⟩ := mem_bodies hbody
  obtain ⟨levels, label, c', rs', d', hlevels, -, -, -, hread⟩ := hread.all p hp
  exact hread.depth_le.trans hlevels

/-- **Reports on branches match the tree.** For every document, no pipeline nests more branches
inside one another than may open. The reports on invalid statuses are, in their order, one for each
branch of the program in the order of the document whose status is below 100 or above 599, with that
status and the span of its digits. The reports on too deep nesting are one for each `result` step
inside as many branches as may open, with the span of the step, and these steps have no branches. -/
theorem branchReports_match (text : List Char) :
    (∀ p ∈ (parse text).program.allPipelines, p.depth ≤ maxNesting) ∧
    (parse text).reports.filter SyntaxReport.isInvalidStatus
      = ((parse text).program.branches.filter Branch.hasInvalidStatus).map Branch.statusReport ∧
    (parse text).reports.filter SyntaxReport.isNestedTooDeep
      = (((parse text).program.within maxNesting).filter Step.isResult).map Step.tooDeepReport ∧
    ∀ s ∈ (parse text).program.within maxNesting, s.branches = [] := by
  refine ⟨fun p hp => depth_le_of_mem_allPipelines hp, invalidStatusReports.filter_reports_eq text,
    nestedTooDeepReports.filter_reports_eq text, fun s hs => ?_⟩
  rw [Program.within, List.mem_mergeSort, List.mem_flatMap] at hs
  obtain ⟨body, hbody, hs⟩ := hs
  have hall : body ∈ (parse text).program.allPipelines :=
    mem_allPipelines_iff.2 ⟨body, hbody, List.mem_cons_self⟩
  exact Pipeline.branches_eq_nil_of_mem_within (depth_le_of_mem_allPipelines hall) hs

end Grammar
end PipelineLang
