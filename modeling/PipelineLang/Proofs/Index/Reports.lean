import PipelineLang.Proofs.Index.Faults
import PipelineLang.Proofs.Reference.Names

/-!
# Reports one by one

The reports on references are brought together from tables and sorted. Whatever is reported of the
references of a document is reported of one reference each (`perm_referenceReports`), and no two
reports have start and code in common (`eq_of_start_of_code`), so the sorting leaves no choice.
-/

namespace PipelineLang

open Utf8 Cursor Grammar Template

/-! ## Reports of single references -/

/-- What is wrong with a reference to the symbol, if it is not declared. -/
def SymbolKey.unknownFault : SymbolKey → ReferenceFault
  | .pipeline name => .unknownPipeline name
  | .typed kind name => .unknownVariable (.typed kind name)

/-- The reports on those of the references that the program does not declare. -/
def Program.unknownReports (p : Program) (rs : List Reference) : List ReferenceReport :=
  (rs.filter fun r => !decide (p.Declares r.key)).map fun r => ⟨r.key.unknownFault, r.span⟩

theorem Program.unknownReports_append (p : Program) (rs rs' : List Reference) :
    p.unknownReports (rs ++ rs') = p.unknownReports rs ++ p.unknownReports rs' := by
  simp only [unknownReports, List.filter_append, List.map_append]

section
variable (declared : SymbolKey → Bool)

/-- References to pipelines and to variables are looked up apart from one another. -/
theorem perm_unknown {rs : List Reference} (htyped : ∀ r ∈ rs, Reference.IsTyped r.key) :
    List.Perm
      ((((rs.filterMap Reference.ofPipeline?).filter fun e => !declared (.pipeline e.1)).map
          fun e => (⟨.unknownPipeline e.1, e.2⟩ : ReferenceReport))
        ++ ((rs.filterMap Reference.ofVariable?).filter fun e => !declared (.ofText e.1)).map
          fun e => (⟨.unknownVariable (.ofText e.1), e.2⟩ : ReferenceReport))
      ((rs.filter fun r => !declared r.key).map fun r => ⟨r.key.unknownFault, r.span⟩) := by
  induction rs with
  | nil => exact .nil
  | cons r rs ih =>
    obtain ⟨key, span⟩ := r
    have ih := ih fun r hr => htyped r (List.mem_cons_of_mem _ hr)
    cases key with
    | pipeline name =>
      have hsome : Reference.ofPipeline? ⟨.pipeline name, span⟩ = some (name, span) := rfl
      have hnone : Reference.ofVariable? ⟨.pipeline name, span⟩ = none := rfl
      rw [List.filterMap_cons_some hsome, List.filterMap_cons_none hnone]
      cases hdeclared : declared (.pipeline name) with
      | true => simpa [hdeclared] using ih
      | false => simpa [hdeclared, SymbolKey.unknownFault] using ih
    | typed kind name =>
      have hkind : IsIdentifier kind := htyped _ List.mem_cons_self
      have hkey := SymbolKey.ofText_joinVariable hkind.not_colon name
      have hnone : Reference.ofPipeline? ⟨.typed kind name, span⟩ = none := rfl
      have hsome : Reference.ofVariable? ⟨.typed kind name, span⟩
        = some (SymbolKey.joinVariable kind name, span) := rfl
      rw [List.filterMap_cons_none hnone, List.filterMap_cons_some hsome]
      cases hdeclared : declared (.typed kind name) with
      | true => simpa [hdeclared, hkey] using ih
      | false =>
        simpa [hdeclared, hkey, SymbolKey.unknownFault] using List.perm_middle.trans (ih.cons _)

end

/-- Whatever is reported of the references of a document is reported of one reference each. -/
theorem perm_unknownReports (engine : String) (text : List Char) :
    (Validation.unknownPipelines (analyze engine text).symbols
      ++ Validation.unknownVariables (analyze engine text).symbols).Perm
      ((analyze engine text).program.unknownReports (Reference.scan text)) := by
  have hpipelines := Table.group_entries_perm ((Reference.scan text).filterMap Reference.ofPipeline?)
  have hvariables := Table.group_entries_perm ((Reference.scan text).filterMap Reference.ofVariable?)
  have hunknown := perm_unknown (analyze engine text).symbols.isDeclared
    (Reference.marked_scan text).typed
  rw [isDeclared_eq] at hunknown
  rw [unknownPipelines_eq, unknownVariables_eq, isDeclared_eq]
  exact (((hpipelines.filter _).map _).append ((hvariables.filter _).map _)).trans hunknown

/-- The reports that are not on references to symbols. -/
def Analysis.otherReports (a : Analysis) : List ReferenceReport :=
  Validation.unknownPartials a.symbols ++ Validation.duplicatePipelines a.program
    ++ Validation.duplicateVariables a.program

theorem perm_referenceReports (engine : String) (text : List Char) :
    (analyze engine text).referenceReports.Perm
      ((analyze engine text).program.unknownReports (Reference.scan text)
        ++ (analyze engine text).otherReports) := by
  refine (List.mergeSort_perm _ _).trans ?_
  rw [List.append_assoc, List.append_assoc, ← List.append_assoc (Validation.unknownPartials _)]
  exact (perm_unknownReports engine text).append_right _

/-! ## Places of reports -/

section
variable {engine : String} {text : List Char}

/-- A fault is at a name that is declared or referred to, or at the use of a partial. -/
theorem place_of_mem_faults {code : String} {s : Span} (h : (code, s) ∈ Faults.all engine text) :
    code ≠ "W1003" ∧ (∃ name, IdentifierAt (start 0 text) name s) ∨
      code = "W1003" ∧ ∃ name, (name, s) ∈ usagesOfDocument text engine := by
  have hscan {p : Reference → Bool} {s : Span}
      (hs : s ∈ ((Reference.scan text).filter p).map (·.span)) :
      ∃ name, IdentifierAt (start 0 text) name s := by
    obtain ⟨r, hr, rfl⟩ := List.mem_map.1 hs
    exact ⟨_, Reference.identifierAt_of_mem (Reference.mem_scan.1 (List.mem_filter.1 hr).1)⟩
  simp only [Faults.all, List.mem_append, List.mem_map, Prod.mk.injEq] at h
  rcases h with (((⟨s, hs, rfl, rfl⟩ | ⟨s, hs, rfl, rfl⟩) | ⟨s, hs, rfl, rfl⟩) | ⟨s, hs, rfl, rfl⟩)
    | ⟨s, hs, rfl, rfl⟩
  · exact Or.inl ⟨by decide, hscan hs⟩
  · exact Or.inl ⟨by decide, hscan hs⟩
  · obtain ⟨u, hu, rfl⟩ := List.mem_map.1 ((perm_unresolved engine text).mem_iff.2 hs)
    exact Or.inr ⟨rfl, u.1, (List.mem_filter.1 hu).1⟩
  · obtain ⟨v, hv, rfl⟩ := List.mem_map.1 hs
    refine Or.inl ⟨by decide, v.value.name, ?_⟩
    refine identifierAt_of_mem_nameSpansOf (k := .pipeline v.value.name) ?_
    refine List.mem_map_of_mem (List.mem_filter.2 ⟨(repeats_sublist _ _).subset hv, ?_⟩)
    exact beq_self_eq_true _
  · obtain ⟨v, hv, rfl⟩ := List.mem_map.1 hs
    refine Or.inl ⟨by decide, v.value.name, ?_⟩
    refine identifierAt_of_mem_nameSpansOf (k := .typed v.value.kind v.value.name) ?_
    refine List.mem_map_of_mem (List.mem_filter.2 ⟨(repeats_sublist _ _).subset hv, ?_⟩)
    rw [beq_self_eq_true, beq_self_eq_true]
    rfl

theorem mem_faults {r : ReferenceReport} (h : r ∈ (analyze engine text).referenceReports) :
    r.place ∈ Faults.all engine text :=
  (perm_faults engine text).mem_iff.1 (List.mem_map_of_mem h)

/-- A report is on a part of the text, and not on an empty one. -/
theorem bounds_of_mem_reports {r : ReferenceReport}
    (h : r ∈ (analyze engine text).referenceReports) :
    r.span.start < r.span.stop ∧ r.span.stop ≤ byteLength text := by
  rcases place_of_mem_faults (mem_faults h) with ⟨-, name, hname⟩ | ⟨-, name, hname⟩
  · exact ⟨hname.start_lt_stop, hname.spells.stop_le⟩
  · obtain ⟨region, -, hfits, hu⟩ := mem_usagesOfDocument text engine hname
    obtain ⟨-, hlt, hstop⟩ := usagesIn_inside hfits _ hu
    exact ⟨hlt, hstop.trans hfits.stop_le⟩

/-- **No two reports have start and code in common.** -/
theorem eq_of_start_of_code {r s : ReferenceReport}
    (hr : r ∈ (analyze engine text).referenceReports)
    (hs : s ∈ (analyze engine text).referenceReports) (hstart : r.span.start = s.span.start)
    (hcode : r.fault.code = s.fault.code) : r = s := by
  have hspan : r.span = s.span := by
    have hr' := bounds_of_mem_reports hr
    have hs' := bounds_of_mem_reports hs
    rcases place_of_mem_faults (mem_faults hr) with ⟨hne, name, hname⟩ | ⟨heq, name, hname⟩ <;>
      rcases place_of_mem_faults (mem_faults hs) with ⟨hne', name', hname'⟩ | ⟨heq', name', hname'⟩
    · exact (hname.eq_of_touch hname' (by omega) (by omega)).2
    · exact absurd (hcode.trans heq') hne
    · exact absurd (hcode.symm.trans heq) hne'
    · have hapart : ((usagesOfDocument text engine).map (·.2)).Pairwise Span.Apart :=
        List.pairwise_map.2 (usages_pairwise text engine)
      by_contra hspan
      have happ : r.span.Apart s.span :=
        hapart.forall (List.mem_map_of_mem hname) (List.mem_map_of_mem hname') hspan
      rw [Span.Apart] at happ
      omega
  exact List.inj_on_of_nodup_map (nodup_places engine text) hr hs (Prod.ext hcode hspan)

/-- So the order of the reports is strict. -/
theorem eq_of_le_of_le {r s : ReferenceReport} (hr : r ∈ (analyze engine text).referenceReports)
    (hs : s ∈ (analyze engine text).referenceReports) (hrs : r.le s = true) (hsr : s.le r = true) :
    r = s := by
  rw [ReferenceReport.le_iff] at hrs hsr
  rcases hrs with hlt | ⟨hstart, hcode⟩
  · omega
  · exact eq_of_start_of_code hr hs hstart
      (String.le_antisymm hcode (hsr.resolve_left (by omega)).2)

end

end PipelineLang
