import PipelineLang.Proofs.Grammar.Placement
import PipelineLang.Proofs.Reference.Shapes
import PipelineLang.Proofs.Table

/-!
# The references made by steps

The references of a text are found by searching it, without the program. Still no step is missed:
where the grammar reads `|> type: name`, the shape of a step matches as well (`StepRead.matched`), a
token that ends for the grammar is bare for the search, and as no match starts inside another one
the search finds it (`mem_scan_of_match`). As names stand at distinct places it is found once
(`steps_recorded`).
-/

namespace PipelineLang

open Cursor Grammar

/-! ## Tables of references -/

/-- The symbol that a step refers to by a name. -/
def Step.target (kind name : String) : SymbolKey :=
  if kind = "pipeline" then .pipeline name else .typed kind name

namespace ReferenceTable

/-- The spans recorded for a symbol. -/
def spansOf (t : ReferenceTable) : SymbolKey → List Span
  | .pipeline name => (t.pipelines.find? name).getD []
  | .typed kind name => (t.typed.find? (SymbolKey.joinVariable kind name)).getD []

/-- All spans recorded, for whatever symbol. -/
def allSpans (t : ReferenceTable) : List Span :=
  t.pipelines.values.map (·.2) ++ t.typed.values.map (·.2)

variable (rs : List Reference)

/-- A reference is to a pipeline or to a variable. -/
theorem perm_spans : ((rs.filterMap Reference.ofPipeline?).map (·.2)
    ++ (rs.filterMap Reference.ofVariable?).map (·.2)).Perm (rs.map (·.span)) := by
  induction rs with
  | nil => exact .nil
  | cons r rs ih =>
    obtain ⟨key, span⟩ := r
    cases key with
    | pipeline name => exact ih.cons span
    | typed kind name => exact List.perm_middle.trans (ih.cons span)

theorem allSpans_perm : (ofList rs).allSpans.Perm (rs.map (·.span)) :=
  (((Table.group_entries_perm _).map _).append ((Table.group_entries_perm _).map _)).trans
    (perm_spans rs)

/-- Of references to distinct places, those recorded for one symbol are distinct. -/
theorem spansOf_nodup (h : (rs.map (·.span)).Nodup) (k : SymbolKey) :
    ((ofList rs).spansOf k).Nodup := by
  obtain ⟨hpipelines, htyped, -⟩ := List.nodup_append.1 ((perm_spans rs).nodup_iff.2 h)
  cases k with
  | pipeline name =>
    rw [spansOf, ofList, Table.getD_find?_group]
    exact hpipelines.sublist (List.filter_sublist.map _)
  | typed kind name =>
    rw [spansOf, ofList, Table.getD_find?_group]
    exact htyped.sublist (List.filter_sublist.map _)

variable {rs}

/-- A reference is recorded for its symbol. -/
theorem mem_spansOf {r : Reference} (h : r ∈ rs) : r.span ∈ (ofList rs).spansOf r.key := by
  obtain ⟨key, span⟩ := r
  cases key with
  | pipeline name =>
    rw [spansOf, ofList, Table.getD_find?_group]
    refine List.mem_map.2 ⟨(name, span), List.mem_filter.2 ⟨?_, beq_self_eq_true _⟩, rfl⟩
    exact List.mem_filterMap.2 ⟨_, h, rfl⟩
  | typed kind name =>
    rw [spansOf, ofList, Table.getD_find?_group]
    refine List.mem_map.2 ⟨(SymbolKey.joinVariable kind name, span),
      List.mem_filter.2 ⟨?_, beq_self_eq_true _⟩, rfl⟩
    exact List.mem_filterMap.2 ⟨_, h, rfl⟩

theorem mem_pipelines {name : String} {s : Span} :
    s ∈ ((ofList rs).pipelines.find? name).getD [] ↔ ⟨.pipeline name, s⟩ ∈ rs := by
  constructor
  · intro h
    rw [ofList, Table.getD_find?_group] at h
    obtain ⟨⟨name', s⟩, hentry, rfl⟩ := List.mem_map.1 h
    obtain ⟨hentry, hname⟩ := List.mem_filter.1 hentry
    obtain ⟨⟨key, span⟩, hr, heq⟩ := List.mem_filterMap.1 hentry
    cases key with
    | pipeline name'' =>
      obtain rfl : name' = name := eq_of_beq hname
      cases heq
      exact hr
    | typed => cases heq
  · exact fun h => mem_spansOf h

theorem mem_typed {key : String} {s : Span} : s ∈ ((ofList rs).typed.find? key).getD [] ↔
    ∃ kind name, ⟨.typed kind name, s⟩ ∈ rs ∧ SymbolKey.joinVariable kind name = key := by
  constructor
  · intro h
    rw [ofList, Table.getD_find?_group] at h
    obtain ⟨⟨key', s⟩, hentry, rfl⟩ := List.mem_map.1 h
    obtain ⟨hentry, hkey⟩ := List.mem_filter.1 hentry
    obtain ⟨⟨key'', span⟩, hr, heq⟩ := List.mem_filterMap.1 hentry
    cases key'' with
    | pipeline => cases heq
    | typed kind name =>
      cases heq
      exact ⟨kind, name, hr, eq_of_beq hkey⟩
  · rintro ⟨kind, name, h, rfl⟩
    exact mem_spansOf h

end ReferenceTable

namespace Reference

variable {c d : Cursor} {text : List Char} {r : Reference}

/-! ## Searching for steps -/

/-- A match of a step has no bar but the first character, so none starts inside it. -/
theorem separate_step : Separate stepShape := by
  intro c r d b hmatch hcb hbd
  obtain ⟨run, x, kind, n, hrun, hbar, hname, -, -, -⟩ := stepShape_spec hmatch
  obtain ⟨hn, -, hidentifier, -⟩ := identifier_spec hname
  obtain ⟨front, hfront⟩ := exists_run hcb.le
  obtain ⟨back, hback⟩ := exists_run hbd.le
  have hwhole := (hfront.trans hback).run_eq (hrun.trans hn)
  cases front with
  | nil => exact absurd hcb (hfront.2 ▸ lt_irrefl c)
  | cons y front =>
    cases back with
    | nil => exact absurd hbd (hback.2 ▸ lt_irrefl b)
    | cons z back =>
      rw [List.cons_append, List.cons_append, List.cons.injEq] at hwhole
      have hz : z ≠ '|' := by
        rintro rfl
        have hmem : '|' ∈ run ++ n.text.toList := by
          rw [← hwhole.2]
          exact List.mem_append_right _ List.mem_cons_self
        rcases List.mem_append.1 hmem with hmem | hmem
        · exact hbar hmem
        · exact absurd (hidentifier.2 '|' hmem) (by decide)
      have hchar : b.char '|' = none := by
        rw [char, hback.rest_eq, List.cons_append]
        exact if_neg hz
      rw [stepShape, chars, hchar]
      rfl

/-- A match of a step whose name is bare is among the references of the text. -/
theorem mem_scan_of_match (hc : start 0 text ≤ c) (h : stepShape c = some (r, d))
    (hbare : isBare d = true) : r ∈ scan text := by
  have hmem := mem_searchAll_of_match namesBehind_step.moves separate_step hc h
  refine List.mem_mergeSort.2 (List.mem_append_left _ ?_)
  exact List.mem_map.2 ⟨(r, d), List.mem_filter.2 ⟨hmem, hbare⟩, rfl⟩

end Reference

namespace Grammar

variable {c d : Cursor} {text : List Char} {rs : List SyntaxReport}

/-- A payload that is a name is read as one, and the token ends there. -/
theorem payload_identifier {name : String} {s : Span}
    (h : payload c = some (.identifier name, s, d)) :
    ∃ t, c.identifier = some (t, d) ∧ t.text = name ∧ t.span = s ∧ d.atTokenEnd = true := by
  unfold payload at h
  split at h
  · split at h
    · obtain ⟨⟨t, next⟩, -, heq⟩ := Option.map_eq_some_iff.1 h
      cases heq
    · split at h
      · obtain ⟨⟨t, next⟩, -, heq⟩ := Option.map_eq_some_iff.1 h
        cases heq
      · simp only [bind, Option.bind_eq_some_iff] at h
        obtain ⟨⟨t, next⟩, ht, h⟩ := h
        split at h
        · next hend =>
          cases h
          exact ⟨t, ht, rfl, rfl, hend⟩
        · cases h
  · cases h

theorem isBare_of_atTokenEnd (h : d.atTokenEnd = true) : Reference.isBare d = true := by
  rw [atTokenEnd] at h
  rw [Reference.isBare]
  cases hpeek : d.peek with
  | none => rfl
  | some x =>
    rw [hpeek] at h
    exact Blank.isWhite_of_isAscii h

/-- A step with a name as its payload matches the shape of a step. -/
theorem StepRead.matched {span s : Span} {kind name : String}
    (h : StepRead c (.call span kind (.identifier name) s) rs d) :
    Reference.stepShape c = some (⟨Step.target kind name, s⟩, d) ∧
      Reference.isBare d = true := by
  cases h with
  | call harrow hcall =>
    obtain ⟨word, next, colon, value, payloadSpan, hword, hcolon, hpayload, heq⟩ := call_spec hcall
    cases heq
    obtain ⟨t, ht, rfl, rfl, hend⟩ := payload_identifier hpayload
    refine ⟨?_, isBare_of_atTokenEnd hend⟩
    rw [Reference.stepShape, harrow]
    simp only [bind, Option.bind_some, hword, hcolon, ht, Reference.ofStep, Step.target]
    split
    · rfl
    · rfl

/-- Every pipeline of a document is read somewhere in it. -/
theorem read_of_mem_allPipelines {p : Pipeline} (h : p ∈ (parse text).program.allPipelines) :
    ∃ c rs d, start 0 text ≤ c ∧ StepsRead c p rs d := by
  have hall {c d : Cursor} {ss : Pipeline} {rs : List SyntaxReport} (hc : start 0 text ≤ c)
      (hread : StepsRead c ss rs d) (hp : p ∈ Pipeline.all ss) :
      ∃ c rs d, start 0 text ≤ c ∧ StepsRead c p rs d := by
    obtain ⟨e, rs', f, he, -, hread'⟩ := hread.all p hp
    exact ⟨e, rs', f, hc.trans he, hread'⟩
  rcases mem_allPipelines.1 h with ⟨v, hv, hp⟩ | ⟨v, hv, steps, hsteps, hp⟩
  · obtain ⟨c, rs, d, hc, hread, -⟩ := mem_pipelines hv
    obtain ⟨word, name, equals, hword, hname, -, -, hsteps⟩ := namedPipeline_spec hread
    exact hall (hc.trans (hword.le.trans (declaredName_lt hname).le)) hsteps hp
  · obtain ⟨c, rs, d, hc, hread, -⟩ := mem_routes hv
    obtain ⟨behind, ss, hbehind, hss, hbody⟩ := route_spec hread
    rcases routeBody_cases ss with hinline | ⟨span, name, payloadSpan, -, hnamed⟩
    · rw [hbody, hinline] at hsteps
      cases hsteps
      exact hall (hc.trans hbehind.le) hss hp
    · rw [hbody, hnamed] at hsteps
      cases hsteps

/-- A step with a name as its payload is among the references of the text. -/
theorem StepRead.mem_scan {span s : Span} {kind name : String} (hc : start 0 text ≤ c)
    (h : StepRead c (.call span kind (.identifier name) s) rs d) :
    ⟨Step.target kind name, s⟩ ∈ Reference.scan text := by
  obtain ⟨hmatch, hbare⟩ := h.matched
  exact Reference.mem_scan_of_match hc hmatch hbare

/-- The references of a text, by their symbols. -/
def recorded (text : List Char) : ReferenceTable := .ofList (Reference.scan text)

theorem count_recorded {r : Reference} (h : r ∈ Reference.scan text) :
    (recorded text).allSpans.count r.span = 1 ∧
      ((recorded text).spansOf r.key).count r.span = 1 := by
  have hnodup := Reference.scan_nodup text
  have hall := ReferenceTable.allSpans_perm (Reference.scan text)
  constructor
  · refine List.count_eq_one_of_mem (hall.nodup_iff.2 hnodup) (hall.mem_iff.2 ?_)
    exact List.mem_map_of_mem h
  · exact List.count_eq_one_of_mem (ReferenceTable.spansOf_nodup _ hnodup r.key)
      (ReferenceTable.mem_spansOf h)

/-- **No step is missed.** In every pipeline of a document, also of branches at any depth, the name
that a step hands on is recorded once: for the pipeline of that name if the step is one of
`pipeline`, else for the variable of the type of the step; and its span is recorded nowhere else.
Where a route runs a named pipeline, a name inside the route is recorded for that pipeline. -/
theorem steps_recorded (text : List Char) :
    (∀ p ∈ (parse text).program.allPipelines, ∀ span kind name s,
      .call span kind (.identifier name) s ∈ p →
        (if kind = "pipeline" then ((recorded text).pipelines.find? name).getD []
          else ((recorded text).typed.find? (SymbolKey.joinVariable kind name)).getD []).count s = 1 ∧
        (recorded text).allSpans.count s = 1) ∧
    ∀ v ∈ (parse text).program.routes, ∀ name, v.value.body = .named name →
      ∃ s ∈ ((recorded text).pipelines.find? name).getD [], v.span.encloses s = true := by
  constructor
  · intro p hp span kind name s hs
    obtain ⟨c, rs, d, hc, hread⟩ := read_of_mem_allPipelines hp
    obtain ⟨e, rs', f, he, hstep, -⟩ := hread.mem _ hs
    obtain ⟨hall, hkey⟩ := count_recorded (hstep.mem_scan (hc.trans he))
    refine ⟨?_, hall⟩
    by_cases hkind : kind = "pipeline"
    · simpa only [Step.target, if_pos hkind, ReferenceTable.spansOf] using hkey
    · simpa only [Step.target, if_neg hkind, ReferenceTable.spansOf] using hkey
  · intro v hv name hbody
    obtain ⟨c, rs, d, hc, hread, hspan⟩ := mem_routes hv
    obtain ⟨behind, ss, hbehind, hss, hsteps⟩ := route_spec hread
    rw [hsteps] at hbody
    rcases routeBody_cases ss with hinline | ⟨span, name', s, rfl, hnamed⟩
    · rw [hinline] at hbody
      cases hbody
    · rw [hnamed] at hbody
      cases hbody
      obtain ⟨e, rs', f, he, hstep, hf⟩ := hss.mem _ List.mem_cons_self
      have hce := hbehind.le.trans he
      refine ⟨s, ReferenceTable.mem_spansOf (hstep.mem_scan (hc.trans hce)), ?_⟩
      have hinside : span.encloses s = true := (hstep.faithful (hc.trans hce)).2.2
      rw [show span = _ from hstep.span_eq] at hinside
      rw [hspan]
      exact encloses_mono hce hf hinside

end Grammar
end PipelineLang
