import PipelineLang.Proofs.Grammar.Coverage
import PipelineLang.Proofs.Grammar.Derivation
import PipelineLang.Proofs.Grammar.QuotedText
import PipelineLang.Proofs.Table

/-!
# Spans are faithful

Every span in what is read of a document fits the document, and the document spells under it what
the span is said to be of: a name, a value, a payload, the digits of a status. Spans nest as what
they are of does: a declaration encloses its name and its steps, a step its payload or all that its
branches hold, and the steps of a pipeline stand one behind the other (`parse_faithful`).
-/

namespace PipelineLang

open Cursor

variable {document : List Char}

/-! ## What faithful means -/

/-- The document spells the payload under the span. Under the span of a quoted one it spells units,
and the payload is what they stand for: a backslash is taken away before each quote. -/
def Payload.StandsAt (document : List Char) (s : Span) : Payload → Prop
  | .backtick text => s.Spells document text.toList
  | .quoted text => text.toList = unescapeQuotes (s.text document) ∧
    ∃ units : List QuotedUnit, s.Spells document (units.flatMap QuotedUnit.written) ∧
      text.toList = units.flatMap QuotedUnit.value
  | .identifier name => s.Spells document name.toList

/-- The document spells decimal digits under the span of the status, and the status is their value,
or the largest number of 32 bits if that is less. -/
def Branch.StatusStands (document : List Char) (b : Branch) : Prop :=
  b.statusSpan.Fits document ∧ b.statusSpan.text document ≠ [] ∧
    (∀ x ∈ b.statusSpan.text document, x.isDigit = true) ∧
    b.status = min (2 ^ 32 - 1) (Nat.ofDigitChars 10 (b.statusSpan.text document) 0)

/-- The span of the step fits the document and encloses what the step holds, which stands there. -/
def Step.Faithful (document : List Char) : Step → Prop
  | .call span _ payload payloadSpan =>
    span.Fits document ∧ payload.StandsAt document payloadSpan ∧ span.encloses payloadSpan = true
  | .result span branches =>
    span.Fits document ∧ ∀ b ∈ branches, b.StatusStands document ∧
      span.encloses b.statusSpan = true ∧ ∀ s ∈ b.steps, span.encloses s.span = true

/-- The steps are faithful, and each ends before the next one starts. -/
def Pipeline.Faithful (document : List Char) (p : Pipeline) : Prop :=
  p.Pairwise (fun s t => s.span.stop ≤ t.span.start) ∧ ∀ s ∈ p, s.Faithful document

/-- All spans of the program are faithful, those of the pipelines inside other ones included. -/
structure Program.Faithful (document : List Char) (p : Program) : Prop where
  configs : ∀ v ∈ p.configs, v.span.Fits document
  pipelines : ∀ v ∈ p.pipelines, v.span.Fits document ∧
    v.value.nameSpan.Spells document v.value.name.toList ∧
    v.span.encloses v.value.nameSpan = true ∧ ∀ s ∈ v.value.steps, v.span.encloses s.span = true
  typedVariables : ∀ v ∈ p.typedVariables, v.span.Fits document ∧
    v.value.nameSpan.Spells document v.value.name.toList ∧
    v.value.valueSpan.Spells document v.value.value.toList ∧
    v.span.encloses v.value.nameSpan = true ∧ v.span.encloses v.value.valueSpan = true
  routes : ∀ v ∈ p.routes, v.span.Fits document ∧
    ∀ steps, v.value.body = .inline steps → ∀ s ∈ steps, v.span.encloses s.span = true
  suites : ∀ v ∈ p.suites, v.span.Fits document
  allPipelines : ∀ q ∈ p.allPipelines, q.Faithful document

/-- The spans of the site fit the document, which spells the name under the inner one. -/
def Grammar.Site.Faithful (document : List Char) (name : String) (s : Site) : Prop :=
  s.span.Fits document ∧ s.nameSpan.Spells document name.toList ∧
    s.span.encloses s.nameSpan = true

namespace Grammar

variable {c d : Cursor}

/-! ## Steps -/

theorem payload_stands {p : Payload} {s : Span} (hc : start 0 document ≤ c)
    (h : payload c = some (p, s, d)) :
    p.StandsAt document s ∧ Span.encloses ⟨c.offset, d.offset⟩ s = true := by
  unfold payload at h
  split at h
  · split at h
    · obtain ⟨⟨t, next⟩, ht, heq⟩ := Option.map_eq_some_iff.1 h
      cases heq
      obtain ⟨inner, close, hinner, hrun, hclose, hspan⟩ := backtickText_spec ht
      rw [hspan]
      exact ⟨hrun.spells (hc.trans hinner.le), encloses_of_le hinner.le hclose.le⟩
    · split at h
      · obtain ⟨⟨t, next⟩, ht, heq⟩ := Option.map_eq_some_iff.1 h
        cases heq
        obtain ⟨inner, units, close, hinner, hrun, hclose, hspan, htext⟩ := quotedText_spec ht
        have hspells := hrun.spells (hc.trans hinner)
        rw [hspan]
        refine ⟨⟨?_, units, hspells, ?_⟩, encloses_of_le hinner hclose⟩
        · rw [hspells.text_eq, htext, String.toList_ofList, unescapeQuotes_written]
        · rw [htext, String.toList_ofList]
      · simp only [bind, Option.bind_eq_some_iff] at h
        obtain ⟨⟨t, next⟩, ht, h⟩ := h
        split at h
        · cases h
          obtain ⟨hrun, hspan, -, -⟩ := identifier_spec ht
          rw [hspan]
          exact ⟨hrun.spells hc, encloses_of_le le_rfl le_rfl⟩
        · cases h
  · cases h

/-- The digits of a status stand between a name and a colon. -/
theorem branchHead_spec {label digits : Token} (h : branchHead c = some ((label, digits), d)) :
    ∃ a b, c ≤ a ∧ Between a digits.text.toList b ∧ b ≤ d ∧ digits.span = ⟨a.offset, b.offset⟩ ∧
      digits.text.toList ≠ [] ∧ ∀ x ∈ digits.text.toList, x.isDigit = true := by
  simp only [branchHead, bind, Option.bind_eq_some_iff] at h
  obtain ⟨⟨l, next⟩, hlabel, opening, hopening, h⟩ := h
  split at h
  · cases h
  · next hempty =>
    have hlt := lt_of_span_not_empty (by simpa using hempty)
    generalize hread : opening.blanks.takeWhile Char.isDigit = r at h hlt
    obtain ⟨t, behind⟩ := r
    simp only [Option.bind_eq_some_iff] at h
    obtain ⟨closing, hclosing, colon, hcolon, heq⟩ := h
    cases heq
    obtain ⟨hrun, hspan, hdigits, -⟩ := takeWhile_spec hread
    refine ⟨opening.blanks, behind, ?_, hrun, ?_, hspan, ?_, hdigits⟩
    · exact (identifier_lt hlabel).le.trans <| (le_blanks next).trans <|
        (char_lt hopening).le.trans (le_blanks opening)
    · exact (le_blanks behind).trans <| (char_lt hclosing).le.trans <|
        (le_blanks closing).trans (char_lt hcolon).le
    · intro hnil
      rw [hnil] at hrun
      exact lt_irrefl _ (hrun.2 ▸ hlt)

theorem StepRead.span_eq {s : Step} {rs : List SyntaxReport} (h : StepRead c s rs d) :
    s.span = ⟨c.offset, d.offset⟩ := by
  cases h with
  | call harrow hcall =>
    obtain ⟨name, next, colon, value, span, -, -, -, rfl⟩ := call_spec hcall
    rfl
  | tooDeep harrow hword => rfl
  | result harrow hword hbs => rfl

/-- Steps stand between the cursors that they are read between, one behind the other. -/
theorem StepsRead.spans {ss : Pipeline} {rs : List SyntaxReport} (h : StepsRead c ss rs d) :
    (∀ s ∈ ss, Span.encloses ⟨c.offset, d.offset⟩ s.span = true) ∧
      ss.Pairwise fun s t => s.span.stop ≤ t.span.start := by
  refine h.along (P := fun c ss _ d =>
    (∀ s ∈ ss, Span.encloses ⟨c.offset, d.offset⟩ s.span = true) ∧
      ss.Pairwise fun s t => s.span.stop ≤ t.span.start) (fun c => ⟨nofun, .nil⟩) ?_
  rintro c d e s ss rs rs' hs hss ⟨hinside, hpairwise⟩
  constructor
  · intro t ht
    rcases List.mem_cons.1 ht with rfl | ht
    · rw [hs.span_eq]
      exact encloses_of_le (le_layout c) hss.le
    · exact encloses_mono ((le_layout c).trans hs.lt.le) le_rfl (hinside t ht)
  · refine List.pairwise_cons.2 ⟨fun t ht => ?_, hpairwise⟩
    rw [hs.span_eq]
    exact (Span.encloses_iff.1 (hinside t ht)).1

theorem BranchesRead.faithful {bs : List Branch} {rs : List SyntaxReport}
    (h : BranchesRead c bs rs d) : start 0 document ≤ c → ∀ b ∈ bs, b.StatusStands document ∧
      Span.encloses ⟨c.offset, d.offset⟩ b.statusSpan = true ∧
      ∀ s ∈ b.steps, Span.encloses ⟨c.offset, d.offset⟩ s.span = true := by
  refine h.along (R := fun c bs _ d => start 0 document ≤ c → ∀ b ∈ bs, b.StatusStands document ∧
    Span.encloses ⟨c.offset, d.offset⟩ b.statusSpan = true ∧
    ∀ s ∈ b.steps, Span.encloses ⟨c.offset, d.offset⟩ s.span = true) (fun c _ => nofun) ?_
  intro c colon d e label digits ss bs rs rs' hhead hss hbs ih hc b hb
  have hcolon := (le_layout c).trans (branchHead_lt hhead).le
  rcases List.mem_cons.1 hb with rfl | hb
  · obtain ⟨x, y, hx, hrun, hy, hspan, hne, hdigits⟩ := branchHead_spec hhead
    have hcx := (le_layout c).trans hx
    have hspells := hrun.spells (hc.trans hcx)
    simp only [Branch.StatusStands, Branch.statusSpan, Branch.status, Branch.steps, hspan]
    rw [hspells.text_eq]
    refine ⟨⟨hspells.toFits, hne, hdigits, rfl⟩,
      encloses_of_le hcx (hy.trans (hss.le.trans hbs.le)), fun s hs => ?_⟩
    exact encloses_mono hcolon hbs.le (hss.spans.1 s hs)
  · have hd := hcolon.trans hss.le
    obtain ⟨hstatus, hspan, hsteps⟩ := ih (hc.trans hd) b hb
    exact ⟨hstatus, encloses_mono hd le_rfl hspan,
      fun s hs => encloses_mono hd le_rfl (hsteps s hs)⟩

theorem StepRead.faithful {s : Step} {rs : List SyntaxReport} (hc : start 0 document ≤ c)
    (h : StepRead c s rs d) : s.Faithful document := by
  have hfits := fits_of_le hc h.lt.le
  cases h with
  | call harrow hcall =>
    obtain ⟨name, next, colon, value, span, hname, hcolon, hpayload, rfl⟩ := call_spec hcall
    have hvalue := (arrow_lt harrow).le.trans <| (identifier_lt hname).le.trans <|
      (le_blanks next).trans <| (char_lt hcolon).le.trans (le_blanks colon)
    obtain ⟨hstands, hspan⟩ := payload_stands (hc.trans hvalue) hpayload
    exact ⟨hfits, hstands, encloses_mono hvalue le_rfl hspan⟩
  | tooDeep harrow hword => exact ⟨hfits, nofun⟩
  | result harrow hword hbs =>
    have hbehind := ((arrow_lt harrow).trans (resultWord_lt hword)).le
    refine ⟨hfits, fun b hb => ?_⟩
    obtain ⟨hstatus, hspan, hsteps⟩ := hbs.faithful (hc.trans hbehind) b hb
    exact ⟨hstatus, encloses_mono hbehind le_rfl hspan,
      fun s hs => encloses_mono hbehind le_rfl (hsteps s hs)⟩

/-- Each of the steps is read on its own. -/
theorem StepsRead.mem {ss : Pipeline} {rs : List SyntaxReport} (h : StepsRead c ss rs d) :
    ∀ s ∈ ss, ∃ e rs' f, c ≤ e ∧ StepRead e s rs' f ∧ f ≤ d := by
  refine h.along (P := fun c ss _ d => ∀ s ∈ ss, ∃ e rs' f, c ≤ e ∧ StepRead e s rs' f ∧ f ≤ d)
    (fun c => nofun) ?_
  intro c d e s ss rs rs' hs hss ih t ht
  rcases List.mem_cons.1 ht with rfl | ht
  · exact ⟨_, _, _, le_layout c, hs, hss.le⟩
  · obtain ⟨a, rs', b, ha, hread, hb⟩ := ih t ht
    exact ⟨a, rs', b, (le_layout c).trans (hs.lt.le.trans ha), hread, hb⟩

theorem StepsRead.faithful {ss : Pipeline} {rs : List SyntaxReport} (hc : start 0 document ≤ c)
    (h : StepsRead c ss rs d) : ∀ s ∈ ss, s.Faithful document := by
  intro s hs
  obtain ⟨e, rs', f, he, hread, -⟩ := h.mem s hs
  exact hread.faithful (hc.trans he)

/-- Every pipeline of a tree that is read of a document is faithful to it. -/
theorem StepsRead.all_faithful {ss : Pipeline} {rs : List SyntaxReport}
    (hc : start 0 document ≤ c) (h : StepsRead c ss rs d) :
    ∀ p ∈ Pipeline.all ss, p.Faithful document := by
  intro p hp
  obtain ⟨e, rs', f, he, -, hread⟩ := h.all p hp
  exact ⟨hread.spans.2, StepsRead.faithful (hc.trans he) hread⟩

/-! ## Reports -/

theorem hereditary_reports_fit : Hereditary
    (fun c _ rs _ => start 0 document ≤ c → ∀ r ∈ rs, r.span.Fits document)
    (fun c _ rs _ => start 0 document ≤ c → ∀ r ∈ rs, r.span.Fits document)
    (fun c _ rs _ => start 0 document ≤ c → ∀ r ∈ rs, r.span.Fits document) where
  noStep _ _ := nofun
  nextStep := by
    intro c d e s ss rs rs' hs _ hfirst hrest hc r hr
    have hlayout := hc.trans (le_layout c)
    rcases List.mem_append.1 hr with hr | hr
    · exact hfirst hlayout r hr
    · exact hrest (hlayout.trans hs.lt.le) r hr
  ofCall _ _ _ := nofun
  ofTooDeep := by
    intro c arrow behind harrow hword hc r hr
    rw [List.mem_singleton.1 hr]
    exact fits_of_le hc (StepRead.tooDeep harrow hword).lt.le
  ofResult harrow hword _ hbs hc :=
    hbs (hc.trans ((arrow_lt harrow).trans (resultWord_lt hword)).le)
  noBranch _ _ := nofun
  nextBranch := by
    intro c colon d e label digits ss bs rs rs' hhead hss _ hsteps hrest hc r hr
    have hlayout := hc.trans (le_layout c)
    have hcolon := hlayout.trans (branchHead_lt hhead).le
    rcases List.mem_append.1 hr with hr | hr
    · rcases List.mem_append.1 hr with hr | hr
      · obtain ⟨x, y, hx, hrun, -, hspan, -, -⟩ := branchHead_spec hhead
        unfold statusReports at hr
        split at hr
        · cases hr
        · rw [List.mem_singleton.1 hr, hspan]
          exact (hrun.spells (hlayout.trans hx)).toFits
      · exact hsteps hcolon r hr
    · exact hrest (hcolon.trans hss.le) r hr

/-- What is left of a line without the white characters at its end fits the document. -/
theorem trimmedLine_fits (hc : start 0 document ≤ c) :
    (Span.ofLength c.offset (Utf8.byteLength (Blank.trimEnd c.line))).Fits document := by
  have hfits := ((trimmedLine_between c).spells hc).toFits
  rwa [(trimmedLine_between c).offset_eq] at hfits

theorem configLine_report_fits {r : SyntaxReport} (hc : start 0 document ≤ c)
    (h : configLine c = some (.fault r, d)) : r.span.Fits document := by
  simp only [configLine] at h
  split at h
  · cases h
  · obtain ⟨⟨r', e⟩, hfault, heq⟩ := Option.map_eq_some_iff.1 h
    cases heq
    simp only [faultyProperty, bind, Option.bind_eq_some_iff] at hfault
    obtain ⟨key, -, heq⟩ := hfault
    cases heq
    exact trimmedLine_fits (hc.trans (le_layout c))

theorem config_reports_fit {v : Spanned Config} {rs : List SyntaxReport}
    (hc : start 0 document ≤ c) (h : config c = some (v, rs, d)) :
    ∀ r ∈ rs, r.span.Fits document := by
  simp only [config, bind, Option.bind_eq_some_iff] at h
  obtain ⟨word, hword, behind, hbehind, ⟨name, next⟩, hname, inside, hinside, h⟩ := h
  have hnext : c ≤ next :=
    (keyword_lt (by decide) hword).le.trans <| (someBlanks_lt hbehind).le.trans <|
      (identifier_lt hname).le
  have hlines : ∀ r ∈ (inside.many configLine).1.filterMap ConfigLine.report?,
      r.span.Fits document := by
    intro r hr
    obtain ⟨l, hl, hr⟩ := List.mem_filterMap.1 hr
    obtain ⟨c', d', hc', -, hread⟩ := mem_many_within (fun _ _ _ => configLine_lt) inside hl
    cases l with
    | property p => cases hr
    | fault r' =>
      cases hr
      refine configLine_report_fits (hc.trans (hnext.trans ?_)) hread
      exact (le_blanks next).trans ((char_lt hinside).le.trans hc')
  split at h
  · cases h
    exact hlines
  · cases h
    intro r hr
    rcases List.mem_append.1 hr with hr | hr
    · exact hlines r hr
    · obtain ⟨-, hspan, -, -⟩ := identifier_spec hname
      rw [List.mem_singleton.1 hr, hspan]
      exact fits_of_le hc hnext

theorem suite_reports_fit {v : Spanned TestSuite} {rs : List SyntaxReport}
    (hc : start 0 document ≤ c) (h : suite c = some (v, rs, d)) :
    ∀ r ∈ rs, r.span.Fits document := by
  simp only [suite, bind, Option.bind_eq_some_iff] at h
  obtain ⟨word, hword, ⟨name, next⟩, hname, heq⟩ := h
  cases heq
  intro r hr
  obtain ⟨i, hi, hr⟩ := List.mem_filterMap.1 hr
  obtain ⟨c', d', hc', -, hread⟩ := mem_many_within (fun _ _ _ => suiteItem_lt) next hi
  have hlayout : start 0 document ≤ c'.layout :=
    hc.trans <| (spacedWord_lt (by decide) hword).le.trans <| (quotedText_lt hname).le.trans <|
      hc'.trans (le_layout c')
  simp only [suiteItem] at hread
  split at hread
  · cases hread
    cases hr
  · split at hread
    · cases hread
      cases hr
    · next htest =>
      cases hread
      cases hr
      simp only [test, bind, Option.bind_eq_some_iff] at htest
      obtain ⟨it, hit, ⟨title, behind⟩, htitle, htest⟩ := htest
      split at htest
      · cases htest
      · cases htest
        exact fits_of_le hlayout ((spacedWord_lt (by decide) hit).trans (quotedText_lt htitle)).le
    · cases hread

theorem mem_tickOffsets {n m : Nat} : ∀ {text : List Char}, m ∈ tickOffsets n text →
    ∃ front back, text = front ++ tick :: back ∧ m = n + Utf8.byteLength front := by
  intro text h
  induction text generalizing n with
  | nil => cases h
  | cons x xs ih =>
    simp only [tickOffsets] at h
    have hlater : m ∈ tickOffsets (n + x.utf8Size) xs →
        ∃ front back, x :: xs = front ++ tick :: back ∧ m = n + Utf8.byteLength front := by
      intro hm
      obtain ⟨front, back, hxs, hoffset⟩ := ih hm
      refine ⟨x :: front, back, by rw [hxs]; rfl, ?_⟩
      rw [hoffset, Utf8.byteLength, Nat.add_assoc]
    split at h
    · next hx =>
      rcases List.mem_cons.1 h with rfl | h
      · exact ⟨[], xs, by rw [hx]; rfl, rfl⟩
      · exact hlater h
    · exact hlater h

theorem unclosedTick_fits (text : List Char) : ∀ r ∈ unclosedTick text, r.span.Fits text := by
  intro r hr
  simp only [unclosedTick] at hr
  split at hr
  · next last hlast =>
    split at hr
    · obtain ⟨front, back, htext, hoffset⟩ := mem_tickOffsets (List.mem_of_getLast? hlast)
      have hspells := Span.spells_append front [tick] back
      rw [List.append_assoc, List.singleton_append, ← htext] at hspells
      rw [List.mem_singleton.1 hr, Span.ofLength, hoffset, Nat.zero_add]
      rw [Utf8.byteLength_append] at hspells
      exact hspells.toFits
    · cases hr
  · cases hr

/-! ## Declarations -/

theorem declaredName_spec {t : Token} (h : declaredName c = some (t, d)) :
    ∃ a b, c < a ∧ Between a t.text.toList b ∧ b < d ∧ t.span = ⟨a.offset, b.offset⟩ ∧
      IsIdentifier t.text := by
  simp only [declaredName, bind, Option.bind_eq_some_iff] at h
  obtain ⟨blank, hblank, ⟨name, next⟩, hname, equals, hequals, heq⟩ := h
  cases heq
  obtain ⟨hrun, hspan, hidentifier, -⟩ := identifier_spec hname
  exact ⟨blank, next, someBlanks_lt hblank, hrun, (le_blanks next).trans_lt (char_lt hequals),
    hspan, hidentifier⟩

theorem typedVariable_spec {v : Spanned Variable} (h : typedVariable c = some (v, d)) :
    ∃ kind next name equals value, c.identifier = some (kind, next) ∧
      declaredName next = some (name, equals) ∧ equals.layout.backtickText = some (value, d) ∧
      v.value = ⟨kind.text, name.text, name.span, value.text, value.span⟩ := by
  simp only [typedVariable, bind, Option.bind_eq_some_iff] at h
  obtain ⟨⟨kind, next⟩, hkind, h⟩ := h
  split at h
  · cases h
  · simp only [Option.bind_eq_some_iff] at h
    obtain ⟨⟨name, equals⟩, hname, ⟨value, last⟩, hvalue, heq⟩ := h
    cases heq
    exact ⟨kind, next, name, equals, value, hkind, hname, hvalue, rfl⟩

/-- A declared name stands where its span says, inside what is read from `c` to `d`. -/
theorem declaredName_stands {before : Cursor} {t : Token} (hc : start 0 document ≤ c)
    (hbefore : c ≤ before) {equals : Cursor} (h : declaredName before = some (t, equals))
    (hd : equals ≤ d) :
    t.span.Spells document t.text.toList ∧
      Span.encloses ⟨c.offset, d.offset⟩ t.span = true := by
  obtain ⟨a, b, ha, hrun, hb, hspan, -⟩ := declaredName_spec h
  have hca := hbefore.trans ha.le
  rw [hspan]
  exact ⟨hrun.spells (hc.trans hca), encloses_of_le hca (hb.le.trans hd)⟩

theorem namedPipeline_faithful {v : Spanned NamedPipeline} {rs : List SyntaxReport}
    (hc : start 0 document ≤ c) (h : namedPipeline c = some (v, rs, d)) :
    (v.value.nameSpan.Spells document v.value.name.toList ∧
      Span.encloses ⟨c.offset, d.offset⟩ v.value.nameSpan = true ∧
      ∀ s ∈ v.value.steps, Span.encloses ⟨c.offset, d.offset⟩ s.span = true) ∧
    (∀ p ∈ v.value.steps.all, p.Faithful document) ∧ ∀ r ∈ rs, r.span.Fits document := by
  obtain ⟨word, name, equals, hword, hname, htext, hspan, hread⟩ := namedPipeline_spec h
  obtain ⟨hstands, hinside⟩ := declaredName_stands hc hword.le hname hread.le
  have hequals := hword.le.trans (declaredName_lt hname).le
  rw [htext, hspan]
  exact ⟨⟨hstands, hinside, fun s hs => encloses_mono hequals le_rfl (hread.spans.1 s hs)⟩,
    hread.all_faithful (hc.trans hequals), hread.induct hereditary_reports_fit (hc.trans hequals)⟩

theorem typedVariable_faithful {v : Spanned Variable} (hc : start 0 document ≤ c)
    (h : typedVariable c = some (v, d)) :
    v.value.nameSpan.Spells document v.value.name.toList ∧
      v.value.valueSpan.Spells document v.value.value.toList ∧
      Span.encloses ⟨c.offset, d.offset⟩ v.value.nameSpan = true ∧
      Span.encloses ⟨c.offset, d.offset⟩ v.value.valueSpan = true := by
  obtain ⟨kind, next, name, equals, value, hkind, hname, hvalue, hv⟩ := typedVariable_spec h
  have hnext := (identifier_lt hkind).le
  have hequals := (le_layout equals).trans (backtickText_lt hvalue).le
  obtain ⟨hstands, hinside⟩ := declaredName_stands hc hnext hname hequals
  obtain ⟨inner, close, hinner, hrun, hclose, hspan⟩ := backtickText_spec hvalue
  have hcinner := hnext.trans <| (declaredName_lt hname).le.trans <|
    (le_layout equals).trans hinner.le
  rw [hv]
  refine ⟨hstands, ?_, hinside, ?_⟩
  · simp only [hspan]
    exact hrun.spells (hc.trans hcinner)
  · simp only [hspan]
    exact encloses_of_le hcinner hclose.le

theorem route_faithful {v : Spanned Route} {rs : List SyntaxReport} (hc : start 0 document ≤ c)
    (h : route c = some (v, rs, d)) :
    (∀ steps, v.value.body = .inline steps →
      (∀ s ∈ steps, Span.encloses ⟨c.offset, d.offset⟩ s.span = true) ∧
      ∀ p ∈ Pipeline.all steps, p.Faithful document) ∧ ∀ r ∈ rs, r.span.Fits document := by
  obtain ⟨behind, ss, hbehind, hread, hbody⟩ := route_spec h
  refine ⟨fun steps hsteps => ?_, hread.induct hereditary_reports_fit (hc.trans hbehind.le)⟩
  rcases routeBody_cases ss with hinline | ⟨span, name, payloadSpan, -, hnamed⟩
  · rw [hbody, hinline] at hsteps
    cases hsteps
    exact ⟨fun s hs => encloses_mono hbehind.le le_rfl (hread.spans.1 s hs),
      hread.all_faithful (hc.trans hbehind.le)⟩
  · rw [hbody, hnamed] at hsteps
    cases hsteps

/-! ## Documents -/

variable {text : List Char}

/-- Each item of a document is read at one of its cursors. -/
theorem mem_items {i : Item} (h : i ∈ items text) :
    ∃ c d, start 0 text ≤ c ∧ item c = some (i, d) := by
  obtain ⟨c, d, hc, -, hread⟩ := mem_many_within (fun _ _ _ => item_lt) _ h
  exact ⟨c, d, hc, hread⟩

/-- The reader for declarations of its kind reads the item between the cursors. -/
def DeclarationRead (c d : Cursor) : Item → Prop
  | .config v rs => config c = some (v, rs, d)
  | .pipeline v rs => namedPipeline c = some (v, rs, d)
  | .typedVariable v => typedVariable c = some (v, d)
  | .route v rs => route c = some (v, rs, d)
  | .suite v rs => suite c = some (v, rs, d)
  | .unrecognized _ => False

theorem declaration_read {i : Item} (h : declaration c = some (i, d)) : DeclarationRead c d i := by
  rcases declaration_cases h with ⟨v, rs, rfl, hread⟩ | ⟨v, rs, rfl, hread⟩ | ⟨v, rfl, hread⟩ |
      ⟨v, rs, rfl, hread⟩ | ⟨v, rs, rfl, hread⟩
  all_goals exact hread

/-- An item that is a declaration is read as one. -/
theorem mem_items_declaration {i : Item} (h : i ∈ items text) (hi : i.unrecognizedSpan? = none) :
    ∃ c d, start 0 text ≤ c ∧ c < d ∧ DeclarationRead c d i ∧ i.span = ⟨c.offset, d.offset⟩ := by
  obtain ⟨c, d, hc, hread⟩ := mem_items h
  obtain ⟨-, hread | ⟨-, hline⟩⟩ := item_cases hread
  · exact ⟨c.layout, d, hc.trans (le_layout c), declaration_lt hread, declaration_read hread,
      declaration_span hread⟩
  · cases hline
    cases hi

theorem mem_pipelines {v : Spanned NamedPipeline} (h : v ∈ (parse text).program.pipelines) :
    ∃ c rs d, start 0 text ≤ c ∧ namedPipeline c = some (v, rs, d) ∧
      v.span = ⟨c.offset, d.offset⟩ := by
  obtain ⟨i, hi, hv⟩ := List.mem_filterMap.1 h
  cases i <;> cases hv
  obtain ⟨c, d, hc, -, hread, hspan⟩ := mem_items_declaration hi rfl
  exact ⟨c, _, d, hc, hread, hspan⟩

theorem mem_typedVariables {v : Spanned Variable} (h : v ∈ (parse text).program.typedVariables) :
    ∃ c d, start 0 text ≤ c ∧ typedVariable c = some (v, d) ∧ v.span = ⟨c.offset, d.offset⟩ := by
  obtain ⟨i, hi, hv⟩ := List.mem_filterMap.1 h
  cases i <;> cases hv
  obtain ⟨c, d, hc, -, hread, hspan⟩ := mem_items_declaration hi rfl
  exact ⟨c, d, hc, hread, hspan⟩

theorem mem_routes {v : Spanned Route} (h : v ∈ (parse text).program.routes) :
    ∃ c rs d, start 0 text ≤ c ∧ route c = some (v, rs, d) ∧ v.span = ⟨c.offset, d.offset⟩ := by
  obtain ⟨i, hi, hv⟩ := List.mem_filterMap.1 h
  cases i <;> cases hv
  obtain ⟨c, d, hc, -, hread, hspan⟩ := mem_items_declaration hi rfl
  exact ⟨c, _, d, hc, hread, hspan⟩

/-- The span of a declaration fits the document. -/
theorem span_fits {i : Item} (h : i ∈ items text) (hi : i.unrecognizedSpan? = none) :
    i.span.Fits text := by
  obtain ⟨c, d, hc, hlt, -, hspan⟩ := mem_items_declaration h hi
  rw [hspan]
  exact fits_of_le hc hlt.le

/-- The reports that are made of an item fit the document. -/
theorem item_reports_fit {i : Item} (h : i ∈ items text) :
    ∀ r ∈ i.reports, r.span.Fits text := by
  obtain ⟨c, d, hc, hread⟩ := mem_items h
  have hlayout := hc.trans (le_layout c)
  obtain ⟨-, hread | ⟨-, hline⟩⟩ := item_cases hread
  · have hread := declaration_read hread
    cases i with
    | config v rs => exact config_reports_fit hlayout hread
    | pipeline v rs => exact (namedPipeline_faithful hlayout hread).2.2
    | typedVariable v => exact nofun
    | route v rs => exact (route_faithful hlayout hread).2
    | suite v rs => exact suite_reports_fit hlayout hread
    | unrecognized r => exact hread.elim
  · cases hline
    intro r hr
    rw [List.mem_singleton.1 hr]
    exact trimmedLine_fits hlayout

theorem reports_fit (text : List Char) : ∀ r ∈ (parse text).reports, r.span.Fits text := by
  intro r hr
  rcases List.mem_append.1 hr with hr | hr
  · obtain ⟨i, hi, hr⟩ := List.mem_flatMap.1 hr
    exact item_reports_fit hi r hr
  · exact unclosedTick_fits text r hr

/-- The pipelines of a program are those below a named pipeline or below the steps of a route. -/
theorem mem_allPipelines {p : Program} {q : Pipeline} :
    q ∈ p.allPipelines ↔ (∃ v ∈ p.pipelines, q ∈ v.value.steps.all) ∨
      ∃ v ∈ p.routes, ∃ steps, v.value.body = .inline steps ∧ q ∈ Pipeline.all steps := by
  simp only [Program.allPipelines, List.mem_append, List.mem_flatMap]
  refine or_congr_right (exists_congr fun v => and_congr_right fun _ => ?_)
  cases v.value.body with
  | inline steps => simp
  | named name => simp

theorem program_faithful (text : List Char) : (parse text).program.Faithful text where
  configs := by
    intro v hv
    obtain ⟨i, hi, hv⟩ := List.mem_filterMap.1 hv
    cases i <;> cases hv
    exact span_fits hi rfl
  pipelines := by
    intro v hv
    obtain ⟨c, rs, d, hc, hread, hspan⟩ := mem_pipelines hv
    rw [hspan]
    exact ⟨fits_of_le hc (namedPipeline_lt hread).le, (namedPipeline_faithful hc hread).1⟩
  typedVariables := by
    intro v hv
    obtain ⟨c, d, hc, hread, hspan⟩ := mem_typedVariables hv
    rw [hspan]
    exact ⟨fits_of_le hc (typedVariable_lt hread).le, typedVariable_faithful hc hread⟩
  routes := by
    intro v hv
    obtain ⟨c, rs, d, hc, hread, hspan⟩ := mem_routes hv
    rw [hspan]
    exact ⟨fits_of_le hc (route_lt hread).le,
      fun steps hsteps => ((route_faithful hc hread).1 steps hsteps).1⟩
  suites := by
    intro v hv
    obtain ⟨i, hi, hv⟩ := List.mem_filterMap.1 hv
    cases i <;> cases hv
    exact span_fits hi rfl
  allPipelines := by
    intro q hq
    rcases mem_allPipelines.1 hq with ⟨v, hv, hq⟩ | ⟨v, hv, steps, hsteps, hq⟩
    · obtain ⟨c, rs, d, hc, hread, -⟩ := mem_pipelines hv
      exact (namedPipeline_faithful hc hread).2.1 q hq
    · obtain ⟨c, rs, d, hc, hread, -⟩ := mem_routes hv
      exact ((route_faithful hc hread).1 steps hsteps).2 q hq

/-- Where the table of pipelines has a name, a pipeline of that name is declared. -/
theorem mem_pipelineSites {e : String × Site} (h : e ∈ (parse text).pipelineSites.entries) :
    ∃ v ∈ (parse text).program.pipelines,
      e = (v.value.name, ⟨v.span, v.value.nameSpan⟩) := by
  obtain ⟨i, hi, he⟩ := List.mem_filterMap.1 (Table.mem_ofList h)
  obtain ⟨v, hv, rfl⟩ := Option.map_eq_some_iff.1 he
  exact ⟨v, List.mem_filterMap.2 ⟨i, hi, hv⟩, rfl⟩

/-- Where the table of variables has a type and a name, a variable of these is declared. -/
theorem mem_variableSites {e : String × Site} (h : e ∈ (parse text).variableSites.entries) :
    ∃ v ∈ (parse text).program.typedVariables,
      e = (SymbolKey.joinVariable v.value.kind v.value.name, ⟨v.span, v.value.nameSpan⟩) := by
  obtain ⟨i, hi, he⟩ := List.mem_filterMap.1 (Table.mem_ofList h)
  obtain ⟨v, hv, rfl⟩ := Option.map_eq_some_iff.1 he
  exact ⟨v, List.mem_filterMap.2 ⟨i, hi, hv⟩, rfl⟩

/-- **Spans are valid, faithful and nested.** For every document, the spans of the program fit the
document and have under them what they are spans of, and they nest as these do. The spans of reports
fit it too, and so do those in the tables of declared names, with the name under the inner one. -/
theorem parse_faithful (text : List Char) :
    (parse text).program.Faithful text ∧
    (∀ r ∈ (parse text).reports, r.span.Fits text) ∧
    (∀ e ∈ (parse text).pipelineSites.entries, e.2.Faithful text e.1) ∧
    ∀ e ∈ (parse text).variableSites.entries, ∃ kind name,
      e.1 = SymbolKey.joinVariable kind name ∧ e.2.Faithful text name := by
  have hprogram := program_faithful text
  refine ⟨hprogram, reports_fit text, ?_, ?_⟩
  · intro e he
    obtain ⟨v, hv, rfl⟩ := mem_pipelineSites he
    obtain ⟨hfits, hname, hinside, -⟩ := hprogram.pipelines v hv
    exact ⟨hfits, hname, hinside⟩
  · intro e he
    obtain ⟨v, hv, rfl⟩ := mem_variableSites he
    obtain ⟨hfits, hname, -, hinside, -⟩ := hprogram.typedVariables v hv
    exact ⟨v.value.kind, v.value.name, rfl, hfits, hname, hinside⟩

end Grammar
end PipelineLang
