import Mathlib.Data.List.Pairwise
import PipelineLang.Proofs.Grammar.Placement
import PipelineLang.Template.Partials

/-!
# Regions of template text

Each region stands between the backticks of a variable or of a step. So within a document regions
are apart by a backtick at least, those of steps in branches included (`StepsRead.laid`,
`laid_regionsOf`), and sorting and sifting them loses none (`regionsOf_perm`).
-/

namespace PipelineLang

open Cursor Grammar

/-! ## Spans apart from one another -/

/-- Some byte lies between the spans. -/
def Span.Apart (s t : Span) : Prop := s.stop < t.start ∨ t.stop < s.start

instance : Std.Symm Span.Apart := ⟨fun _ _ => Or.symm⟩

/-- The spans lie strictly between the offsets, and apart from one another. -/
structure Laid (a b : Nat) (ss : List Span) : Prop where
  inside : ∀ s ∈ ss, a < s.start ∧ s.start ≤ s.stop ∧ s.stop < b
  apart : ss.Pairwise Span.Apart

namespace Laid

variable {a b m : Nat} {ss ts : List Span}

theorem nil (a b : Nat) : Laid a b [] := ⟨nofun, .nil⟩

theorem singleton {s : Span} (hstart : a < s.start) (hs : s.start ≤ s.stop) (hstop : s.stop < b) :
    Laid a b [s] where
  inside := by
    intro t ht
    rw [List.mem_singleton.1 ht]
    exact ⟨hstart, hs, hstop⟩
  apart := List.pairwise_singleton _ _

theorem mono {a' b' : Nat} (h : Laid a b ss) (ha : a' ≤ a) (hb : b ≤ b') : Laid a' b' ss where
  inside := by
    intro s hs
    have := h.inside s hs
    omega
  apart := h.apart

theorem append (h : Laid a m ss) (h' : Laid m b ts) (ha : a ≤ m) (hb : m ≤ b) :
    Laid a b (ss ++ ts) where
  inside := by
    intro s hs
    rcases List.mem_append.1 hs with hs | hs
    · have := h.inside s hs
      omega
    · have := h'.inside s hs
      omega
  apart := by
    refine List.pairwise_append.2 ⟨h.apart, h'.apart, fun s hs t ht => Or.inl ?_⟩
    have hs := h.inside s hs
    have ht := h'.inside t ht
    omega

theorem perm (h : Laid a b ss) (hperm : ss.Perm ts) : Laid a b ts where
  inside := fun s hs => h.inside s (hperm.mem_iff.2 hs)
  apart := hperm.pairwise h.apart Or.symm

theorem nodup (h : Laid a b ss) : ss.Nodup := by
  refine h.apart.imp_of_mem ?_
  rintro s t hs - (hapart | hapart) rfl
  · have := h.inside s hs
    omega
  · have := h.inside s hs
    omega

end Laid

/-! ## Regions of pipelines -/

namespace Template

/-- The regions in the steps of the pipelines. -/
def regionsIn (engine : String) (ps : List Pipeline) : List Span :=
  ps.flatMap (·.filterMap (regionOfStep engine))

theorem regionsIn_append (engine : String) (ps qs : List Pipeline) :
    regionsIn engine (ps ++ qs) = regionsIn engine ps ++ regionsIn engine qs :=
  List.flatMap_append

/-- The regions below a list of steps are those below its first step and those below the others. -/
theorem perm_regionsIn_cons (engine : String) (s : Step) (ss : Pipeline) :
    ((regionOfStep engine s).toList ++ regionsIn engine s.nested
      ++ regionsIn engine (Pipeline.all ss)).Perm (regionsIn engine (Pipeline.all (s :: ss))) := by
  have hcons (p : Pipeline) (ps : List Pipeline) :
      regionsIn engine (p :: ps) = p.filterMap (regionOfStep engine) ++ regionsIn engine ps :=
    List.flatMap_cons
  have hfirst : (s :: ss).filterMap (regionOfStep engine)
      = (regionOfStep engine s).toList ++ ss.filterMap (regionOfStep engine) := by
    cases h : regionOfStep engine s with
    | none => rw [List.filterMap_cons_none h]; rfl
    | some region => rw [List.filterMap_cons_some h]; rfl
  rw [Pipeline.all, Pipeline.all, Step.nestedAll, hcons, hcons, regionsIn_append, hfirst]
  refine List.perm_iff_count.2 fun t => ?_
  simp only [List.count_append]
  omega

end Template

namespace Grammar

open Template

variable {c d : Cursor} (engine : String)

/-- The region of a step that hands on a text in backticks stands inside the step. -/
theorem call_laid {start : Nat} {s : Step} (h : call start c = some (s, d)) :
    Laid c.offset d.offset (regionOfStep engine s).toList := by
  obtain ⟨name, next, colon, value, span, hname, hcolon, hpayload, rfl⟩ := call_spec h
  cases value with
  | quoted text => exact Laid.nil _ _
  | identifier name => exact Laid.nil _ _
  | backtick text =>
    rw [regionOfStep]
    split
    · unfold payload at hpayload
      split at hpayload
      · split at hpayload
        · obtain ⟨⟨t, last⟩, ht, heq⟩ := Option.map_eq_some_iff.1 hpayload
          cases heq
          obtain ⟨inner, close, hinner, hrun, hclose, hspan⟩ := backtickText_spec ht
          have hle := (identifier_lt hname).le.trans <| (le_blanks next).trans <|
            (char_lt hcolon).le.trans (le_blanks colon)
          have hstart := offset_lt (hle.trans_lt hinner)
          rw [hspan]
          exact Laid.singleton hstart (offset_le hrun.le) (offset_lt hclose)
        · split at hpayload
          · obtain ⟨⟨t, last⟩, ht, heq⟩ := Option.map_eq_some_iff.1 hpayload
            cases heq
          · simp only [bind, Option.bind_eq_some_iff] at hpayload
            obtain ⟨⟨t, last⟩, ht, heq⟩ := hpayload
            split at heq <;> cases heq
      · cases hpayload
    · exact Laid.nil _ _

/-- The regions below what is read are laid out between its ends. -/
theorem hereditary_laid : Hereditary
    (fun c ss _ d => Laid c.offset d.offset (regionsIn engine (Pipeline.all ss)))
    (fun c s _ d =>
      Laid c.offset d.offset ((regionOfStep engine s).toList ++ regionsIn engine s.nested))
    (fun c bs _ d => Laid c.offset d.offset (regionsIn engine (Branch.nestedAll bs))) where
  noStep _ := Laid.nil _ _
  nextStep := by
    intro c d e s ss rs rs' hs hss hfirst hrest
    have hstart := offset_le ((le_layout c).trans hs.lt.le)
    refine ((hfirst.mono (offset_le (le_layout c)) le_rfl).append hrest hstart
      (offset_le hss.le)).perm ?_
    exact perm_regionsIn_cons engine s ss
  ofCall := by
    intro c arrow d s harrow hcall
    have hlaid := (call_laid engine hcall).mono (offset_le (arrow_lt harrow).le) le_rfl
    obtain ⟨name, next, colon, value, span, -, -, -, rfl⟩ := call_spec hcall
    rw [Step.nested, show regionsIn engine [] = [] from rfl, List.append_nil]
    exact hlaid
  ofTooDeep := by
    intro c arrow behind _ _
    rw [Step.nested, Branch.nestedAll]
    exact Laid.nil _ _
  ofResult := by
    intro c arrow behind d bs rs harrow hword _ hbs
    rw [Step.nested]
    exact hbs.mono (offset_le ((arrow_lt harrow).trans (resultWord_lt hword)).le) le_rfl
  noBranch _ := by
    rw [Branch.nestedAll]
    exact Laid.nil _ _
  nextBranch := by
    intro c colon d e label digits ss bs rs rs' hhead hss hbs hsteps hrest
    have hcolon := (le_layout c).trans (branchHead_lt hhead).le
    rw [Branch.nestedAll, Branch.nested, regionsIn_append]
    exact (hsteps.mono (offset_le hcolon) le_rfl).append hrest
      (offset_le (hcolon.trans hss.le)) (offset_le hbs.le)

theorem StepsRead.laid {ss : Pipeline} {rs : List SyntaxReport} (h : StepsRead c ss rs d) :
    Laid c.offset d.offset (regionsIn engine (Pipeline.all ss)) :=
  h.induct (hereditary_laid engine)

/-! ## Regions of documents -/

/-- The regions in an item. -/
def Item.regions : Item → List Span
  | .typedVariable v => if v.value.kind = engine then [v.value.valueSpan] else []
  | .pipeline v _ => regionsIn engine v.value.steps.all
  | .route v _ =>
    match v.value.body with
    | .inline steps => regionsIn engine (Pipeline.all steps)
    | .named _ => []
  | _ => []

theorem item_laid {i : Item} (h : item c = some (i, d)) :
    Laid c.offset d.offset (i.regions engine) := by
  have hlayout := offset_le (le_layout c)
  obtain ⟨-, hread | ⟨-, hline⟩⟩ := item_cases h
  · have hread := declaration_read hread
    cases i with
    | config v rs => exact Laid.nil _ _
    | pipeline v rs =>
      obtain ⟨word, name, equals, hword, hname, -, -, hsteps⟩ := namedPipeline_spec hread
      have hequals := offset_le (hword.le.trans (declaredName_lt hname).le)
      exact (hsteps.laid engine).mono (hlayout.trans hequals) le_rfl
    | typedVariable v =>
      obtain ⟨kind, next, name, equals, value, hkind, hname, hvalue, hv⟩ := typedVariable_spec hread
      obtain ⟨inner, close, hinner, hrun, hclose, hspan⟩ := backtickText_spec hvalue
      have hle := (identifier_lt hkind).le.trans <|
        (declaredName_lt hname).le.trans (le_layout equals)
      have hstart := offset_lt (hle.trans_lt hinner)
      rw [Item.regions]
      split
      · rw [hv]
        simp only [hspan]
        exact Laid.singleton (hlayout.trans_lt hstart) (offset_le hrun.le) (offset_lt hclose)
      · exact Laid.nil _ _
    | route v rs =>
      obtain ⟨behind, ss, hbehind, hsteps, hbody⟩ := route_spec hread
      rw [Item.regions, hbody]
      rcases routeBody_cases ss with hinline | ⟨span, name, payloadSpan, -, hnamed⟩
      · rw [hinline]
        exact (hsteps.laid engine).mono (hlayout.trans (offset_le hbehind.le)) le_rfl
      · rw [hnamed]
        exact Laid.nil _ _
    | suite v rs => exact Laid.nil _ _
    | unrecognized r => exact hread.elim
  · cases hline
    exact Laid.nil _ _

theorem many_item_laid (c : Cursor) :
    Laid c.offset (c.many item).2.offset ((c.many item).1.flatMap (Item.regions engine)) := by
  refine (many_induction
    (motive := fun c r => c ≤ r.2 ∧ Laid c.offset r.2.offset (r.1.flatMap (Item.regions engine)))
    (fun _ _ _ => item_lt) (fun c _ => ⟨le_rfl, Laid.nil _ _⟩) (fun c i d hread hlt ih => ?_) c).2
  obtain ⟨hle, hlaid⟩ := ih
  refine ⟨hlt.le.trans hle, ?_⟩
  rw [List.flatMap_cons]
  exact (item_laid engine hread).append hlaid (offset_le hlt.le) (offset_le hle)

end Grammar

namespace Template

variable (engine : String)

/-- The regions of a program: those of its template variables, then those of its steps. -/
def regionsOfProgram (p : Program) : List Span :=
  (templates p engine).map (·.valueSpan) ++ regionsIn engine p.allPipelines

/-- The lists of a program hold the regions of each item once. -/
theorem perm_regionsOfProgram (is : List Item) :
    (is.flatMap (Item.regions engine)).Perm (regionsOfProgram engine (programOfItems is)) := by
  refine List.perm_iff_count.2 fun t => ?_
  induction is with
  | nil => rfl
  | cons i is ih =>
    simp only [regionsOfProgram, templates, programOfItems, Program.allPipelines, regionsIn_append,
      List.count_append] at ih ⊢
    rw [List.flatMap_cons, List.count_append, ih]
    simp only [List.filterMap_cons]
    cases i with
    | typedVariable v =>
      simp only [Item.regions, Item.asVariable?, Item.asPipeline?, Item.asRoute?, List.map_cons]
      by_cases hkind : v.value.kind = engine
      · rw [if_pos hkind, List.filter_cons_of_pos (by simpa using hkind), List.map_cons]
        simp only [List.count_cons, List.count_nil]
        omega
      · rw [if_neg hkind, List.filter_cons_of_neg (by simpa using hkind), List.count_nil]
        omega
    | pipeline v rs =>
      simp only [Item.regions, Item.asVariable?, Item.asPipeline?, Item.asRoute?,
        List.flatMap_cons, regionsIn_append, List.count_append]
      omega
    | route v rs =>
      simp only [Item.regions, Item.asVariable?, Item.asPipeline?, Item.asRoute?,
        List.flatMap_cons, regionsIn_append, List.count_append]
      cases v.value.body with
      | inline steps =>
        simp only
        omega
      | named name =>
        simp only [regionsIn, List.flatMap_nil, List.count_nil]
        omega
    | config v rs => exact Nat.zero_add _
    | suite v rs => exact Nat.zero_add _
    | unrecognized r => exact Nat.zero_add _

/-- A list without repetitions is sifted to itself. -/
theorem dedup_of_nodup {ss : List Span} (h : ss.Nodup) : dedup ss = ss := by
  induction ss with
  | nil => rfl
  | cons s ss ih =>
    cases ss with
    | nil => rfl
    | cons t ss =>
      obtain ⟨hs, hss⟩ := List.nodup_cons.1 h
      have hne : s ≠ t := fun heq => hs (heq ▸ List.mem_cons_self)
      rw [dedup, if_neg hne, ih hss]

variable (text : List Char)

/-- The regions of a document lie apart from one another. -/
theorem laid_regionsOfProgram :
    ∃ b, Laid 0 b (regionsOfProgram engine (parse text).program) :=
  ⟨_, (many_item_laid engine (Cursor.start 0 text)).perm (perm_regionsOfProgram engine _)⟩

/-- **No region is lost.** The regions that are searched are those of the template variables and of
the steps, each once. -/
theorem regionsOf_perm :
    (regionsOf (parse text).program engine).Perm
      (regionsOfProgram engine (parse text).program) := by
  obtain ⟨b, hlaid⟩ := laid_regionsOfProgram engine text
  have hperm := List.mergeSort_perm (regionsOfProgram engine (parse text).program) Span.le
  have hnodup := hperm.nodup_iff.2 hlaid.nodup
  change (dedup ((regionsOfProgram engine (parse text).program).mergeSort Span.le)).Perm _
  rw [dedup_of_nodup hnodup]
  exact hperm

theorem laid_regionsOf : ∃ b, Laid 0 b (regionsOf (parse text).program engine) := by
  obtain ⟨b, hlaid⟩ := laid_regionsOfProgram engine text
  exact ⟨b, hlaid.perm (regionsOf_perm engine text).symm⟩

/-- Regions fit the document. -/
theorem regionsOf_fit : ∀ r ∈ regionsOf (parse text).program engine, r.Fits text := by
  intro r hr
  have hfaithful := program_faithful text
  rcases List.mem_append.1 ((regionsOf_perm engine text).mem_iff.1 hr) with hr | hr
  · obtain ⟨v, hv, rfl⟩ := List.mem_map.1 hr
    obtain ⟨w, hw, rfl⟩ := List.mem_map.1 (List.mem_filter.1 hv).1
    exact (hfaithful.typedVariables w hw).2.2.1.toFits
  · obtain ⟨p, hp, hr⟩ := List.mem_flatMap.1 hr
    obtain ⟨s, hs, hr⟩ := List.mem_filterMap.1 hr
    have hstep := (hfaithful.allPipelines p hp).2 s hs
    unfold regionOfStep at hr
    split at hr
    · split at hr
      · cases hr
        exact hstep.2.1.toFits
      · cases hr
    · cases hr

end Template
end PipelineLang
