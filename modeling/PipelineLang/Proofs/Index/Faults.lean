import PipelineLang.Proofs.Index.Declared
import PipelineLang.Proofs.Reference.Steps
import PipelineLang.Proofs.Template.Tags

/-!
# What is reported of references

The reports of validation come from grouped tables, sets of names and scopes. They are the faults
that references, usages and declarations have when each is looked at on its own: a reference that
the program does not declare, a usage that neither its region nor a template variable answers, a
declaration that is not the first of its name. Every fault is reported once, and nothing else is
(`referenceReports_eq`).
-/

namespace PipelineLang

open Grammar Template

/-! ## Faults -/

instance (p : Program) : (k : SymbolKey) → Decidable (p.Declares k)
  | .pipeline name => inferInstanceAs (Decidable (∃ v ∈ p.pipelines, v.value.name = name))
  | .typed kind name =>
    inferInstanceAs (Decidable (∃ v ∈ p.typedVariables, v.value.kind = kind ∧ v.value.name = name))

def SymbolKey.isPipeline : SymbolKey → Bool
  | .pipeline _ => true
  | .typed .. => false

/-- The elements of a list that have the key of an earlier one. -/
def repeats {α κ : Type} [DecidableEq κ] (key : α → κ) (xs : List α) : List α :=
  (xs.zipIdx.filter fun (x, i) => (xs.take i).any (key · = key x)).map (·.1)

namespace Faults

variable (engine : String) (text : List Char)

/-- The references to pipelines that the program does not have. -/
def unknownPipelines : List Span :=
  ((Reference.scan text).filter fun r =>
    r.key.isPipeline && !decide ((parse text).program.Declares r.key)).map (·.span)

/-- The references to variables that the program does not have. -/
def unknownVariables : List Span :=
  ((Reference.scan text).filter fun r =>
    !r.key.isPipeline && !decide ((parse text).program.Declares r.key)).map (·.span)

/-- Whether the name stands for an inline partial of the region or for a template variable. -/
def isAnswered (region : Span) (name : String) : Bool :=
  ((definitionsIn text region).map (·.1)).contains name ||
    ((templates (parse text).program engine).map (·.name)).contains name

/-- The usages, region by region, that stand for nothing. -/
def unknownPartials : List Span :=
  (regionsOfProgram engine (parse text).program).flatMap fun region =>
    ((usagesIn text region).filter fun u => !isAnswered engine text region u.1).map (·.2)

/-- The pipelines that are not the first of their name. -/
def duplicatePipelines : List Span :=
  (repeats (·.value.name) (parse text).program.pipelines).map (·.value.nameSpan)

/-- The variables that are not the first of their type and name. -/
def duplicateVariables : List Span :=
  (repeats (fun v => (v.value.kind, v.value.name)) (parse text).program.typedVariables).map
    (·.value.nameSpan)

/-- All faults of a document, each with its code. -/
def all : List (String × Span) :=
  (unknownPipelines text).map ("W1001", ·) ++ (unknownVariables text).map ("W1002", ·)
    ++ (unknownPartials engine text).map ("W1003", ·)
    ++ (duplicatePipelines text).map ("W2001", ·) ++ (duplicateVariables text).map ("W2002", ·)

end Faults

/-! ## References -/

/-- The code and the place of a report. -/
def ReferenceReport.place (r : ReferenceReport) : String × Span := (r.fault.code, r.span)

theorem filter_ofPipeline (declared : SymbolKey → Bool) (rs : List Reference) :
    ((rs.filterMap Reference.ofPipeline?).filter fun e => !declared (.pipeline e.1)).map (·.2)
      = (rs.filter fun r => r.key.isPipeline && !declared r.key).map (·.span) := by
  induction rs with
  | nil => rfl
  | cons r rs ih =>
    obtain ⟨key, span⟩ := r
    rw [List.filterMap_cons]
    cases key with
    | pipeline name =>
      cases hdeclared : declared (.pipeline name) with
      | true => simpa [Reference.ofPipeline?, SymbolKey.isPipeline, hdeclared] using ih
      | false => simpa [Reference.ofPipeline?, SymbolKey.isPipeline, hdeclared] using ih
    | typed kind name => exact ih

theorem filter_ofVariable (declared : SymbolKey → Bool) {rs : List Reference}
    (h : ∀ r ∈ rs, Reference.IsTyped r.key) :
    ((rs.filterMap Reference.ofVariable?).filter fun e => !declared (.ofText e.1)).map (·.2)
      = (rs.filter fun r => !r.key.isPipeline && !declared r.key).map (·.span) := by
  induction rs with
  | nil => rfl
  | cons r rs ih =>
    obtain ⟨key, span⟩ := r
    have ih := ih fun r hr => h r (List.mem_cons_of_mem _ hr)
    rw [List.filterMap_cons]
    cases key with
    | pipeline name => exact ih
    | typed kind name =>
      have htyped : IsIdentifier kind := h _ List.mem_cons_self
      have hkey := SymbolKey.ofText_joinVariable htyped.not_colon name
      cases hdeclared : declared (.typed kind name) with
      | true => simpa [Reference.ofVariable?, SymbolKey.isPipeline, hkey, hdeclared] using ih
      | false => simpa [Reference.ofVariable?, SymbolKey.isPipeline, hkey, hdeclared] using ih

theorem unknownPipelines_eq (t : SymbolTable) : Validation.unknownPipelines t =
    (t.references.pipelines.values.filter fun e => !t.isDeclared (.pipeline e.1)).map
      fun e => ⟨.unknownPipeline e.1, e.2⟩ :=
  t.references.pipelines.flatMap_unless (fun name => t.isDeclared (.pipeline name))
    fun name s => (⟨.unknownPipeline name, s⟩ : ReferenceReport)

theorem unknownVariables_eq (t : SymbolTable) : Validation.unknownVariables t =
    (t.references.typed.values.filter fun e => !t.isDeclared (.ofText e.1)).map
      fun e => ⟨.unknownVariable (.ofText e.1), e.2⟩ :=
  t.references.typed.flatMap_unless (fun key => t.isDeclared (.ofText key))
    fun key s => (⟨.unknownVariable (.ofText key), s⟩ : ReferenceReport)

theorem unknownPartials_eq {t : SymbolTable} (h : t.partials.usages.Sorted) :
    Validation.unknownPartials t =
      (t.partials.usages.values.filter fun e =>
        t.partials.resolve e.1 e.2.start == .unresolved).map
        fun e => ⟨.unknownPartial e.1, e.2⟩ :=
  h.flatMap_names (fun name s => t.partials.resolve name s.start == .unresolved)
    fun name s => (⟨.unknownPartial name, s⟩ : ReferenceReport)

variable (engine : String) (text : List Char)

theorem isDeclared_eq :
    (analyze engine text).symbols.isDeclared
      = fun k => decide ((parse text).program.Declares k) := by
  funext k
  rw [Bool.eq_iff_iff, decide_eq_true_eq]
  exact isDeclared_iff engine text k

theorem perm_unknownPipelines :
    ((Validation.unknownPipelines (analyze engine text).symbols).map ReferenceReport.place).Perm
      ((Faults.unknownPipelines text).map ("W1001", ·)) := by
  have hvalues := Table.group_entries_perm ((Reference.scan text).filterMap Reference.ofPipeline?)
  have hfaults := filter_ofPipeline (analyze engine text).symbols.isDeclared (Reference.scan text)
  rw [isDeclared_eq] at hfaults
  rw [Faults.unknownPipelines, ← hfaults, unknownPipelines_eq, isDeclared_eq, List.map_map,
    List.map_map]
  exact (hvalues.filter _).map _

theorem perm_unknownVariables :
    ((Validation.unknownVariables (analyze engine text).symbols).map ReferenceReport.place).Perm
      ((Faults.unknownVariables text).map ("W1002", ·)) := by
  have hvalues := Table.group_entries_perm ((Reference.scan text).filterMap Reference.ofVariable?)
  have hfaults := filter_ofVariable (analyze engine text).symbols.isDeclared
    (Reference.marked_scan text).typed
  rw [isDeclared_eq] at hfaults
  rw [Faults.unknownVariables, ← hfaults, unknownVariables_eq, isDeclared_eq, List.map_map,
    List.map_map]
  exact (hvalues.filter _).map _

/-! ## Partials -/

/-- A usage is unresolved where its name is not answered in its own region. -/
theorem filter_usages : (usagesOfDocument text engine).filter
    (fun u => (collect (parse text).program text engine).resolve u.1 u.2.start == .unresolved)
      = (regionsOf (parse text).program engine).flatMap fun region =>
        (usagesIn text region).filter fun u => !Faults.isAnswered engine text region u.1 := by
  rw [usagesOfDocument, List.filter_flatMap]
  refine List.flatMap_congr fun region hregion => List.filter_congr fun u hu => ?_
  rw [Bool.eq_iff_iff, beq_iff_eq, resolve_eq_unresolved hregion hu]
  simp [Faults.isAnswered]

/-- The unresolved usages are the unknown partials, in another order of the regions. -/
theorem perm_unresolved : (((usagesOfDocument text engine).filter fun u =>
    (collect (parse text).program text engine).resolve u.1 u.2.start == .unresolved).map
      (·.2)).Perm (Faults.unknownPartials engine text) := by
  rw [filter_usages, List.map_flatMap]
  exact (regionsOf_perm engine text).flatMap_right _

theorem perm_unknownPartials :
    ((Validation.unknownPartials (analyze engine text).symbols).map ReferenceReport.place).Perm
      ((Faults.unknownPartials engine text).map ("W1003", ·)) := by
  have hvalues := Table.group_entries_perm (usagesOfDocument text engine)
  refine List.Perm.trans ?_ ((perm_unresolved engine text).map _)
  rw [unknownPartials_eq (Table.sorted_group (usagesOfDocument text engine)), List.map_map,
    List.map_map]
  exact (hvalues.filter _).map _

/-- A name is answered in a region where a tag of the region opens an inline partial of it, or a
template variable has it. -/
theorem isAnswered_iff {region : Span} {name : String} :
    Faults.isAnswered engine text region name = true ↔ OpensInline text region name ∨
      ∃ v ∈ templates (parse text).program engine, v.name = name := by
  rw [Faults.isAnswered, Bool.or_eq_true, List.contains_iff_mem, List.contains_iff_mem,
    mem_definitionsIn_iff, List.mem_map]

/-! ## Duplicates -/

section
variable {α κ : Type} [DecidableEq κ] (key : α → κ)

/-- What is kept of a list where the keys in `seen` count as those of earlier elements. -/
def keptAfter (seen : List κ) (xs : List α) : List α :=
  (xs.zipIdx.filter fun (x, i) =>
    decide (key x ∈ seen) || (xs.take i).any (key · = key x)).map (·.1)

theorem keptAfter_nil (xs : List α) : keptAfter key [] xs = repeats key xs := by
  simp only [keptAfter, repeats, List.not_mem_nil, decide_false, Bool.false_or]

theorem keptAfter_cons (seen : List κ) (x : α) (xs : List α) :
    keptAfter key seen (x :: xs) = if key x ∈ seen then x :: keptAfter key seen xs
      else keptAfter key (key x :: seen) xs := by
  have hrest (seen' : List κ) (hseen : ∀ k, k ∈ seen' ↔ k = key x ∨ k ∈ seen) :
      ((xs.zipIdx 1).filter fun (y, i) =>
        decide (key y ∈ seen) || ((x :: xs).take i).any (key · = key y)).map (·.1)
        = keptAfter key seen' xs := by
    rw [keptAfter, List.zipIdx_succ, List.filter_map, List.map_map]
    congr 1
    refine List.filter_congr fun y _ => ?_
    obtain ⟨y, i⟩ := y
    simp only [Function.comp_apply, List.take_succ_cons, List.any_cons, hseen, Bool.decide_or]
    have hcomm : decide (key x = key y) = decide (key y = key x) := decide_eq_decide.2 eq_comm
    rw [hcomm, Bool.or_left_comm, Bool.or_assoc]
  rw [keptAfter, List.zipIdx_cons, List.filter_cons]
  by_cases hx : key x ∈ seen
  · have hseen (k : κ) : k ∈ seen ↔ k = key x ∨ k ∈ seen :=
      ⟨Or.inr, fun h => h.elim (fun h => h ▸ hx) id⟩
    simp only [hx, decide_true, Bool.true_or, if_true, List.map_cons]
    rw [hrest seen hseen]
  · simp only [hx, decide_false, List.take_zero, List.any_nil, Bool.or_false, Bool.false_eq_true,
      if_false]
    exact hrest (key x :: seen) fun k => List.mem_cons

theorem repeated_eq (span : α → Span) (seen : List κ) (xs : List α) :
    Validation.repeated seen (xs.map fun x => (key x, span x))
      = (keptAfter key seen xs).map fun x => (key x, span x) := by
  induction xs generalizing seen with
  | nil => rfl
  | cons x xs ih =>
    rw [List.map_cons, Validation.repeated, keptAfter_cons, ih, ih]
    split
    · rfl
    · rfl

theorem repeats_sublist (xs : List α) : (repeats key xs).Sublist xs := by
  have hsub : ((xs.zipIdx.filter fun (x, i) => (xs.take i).any (key · = key x)).map
      Prod.fst).Sublist (xs.zipIdx.map Prod.fst) := List.filter_sublist.map Prod.fst
  rwa [List.zipIdx_map_fst] at hsub

end

theorem duplicatePipelines_eq (p : Program) :
    (Validation.duplicatePipelines p).map ReferenceReport.place
      = ((repeats (·.value.name) p.pipelines).map (·.value.nameSpan)).map ("W2001", ·) := by
  rw [Validation.duplicatePipelines, repeated_eq (fun v : Spanned NamedPipeline => v.value.name)
    (·.value.nameSpan), keptAfter_nil, List.map_map, List.map_map, List.map_map]
  rfl

theorem duplicateVariables_eq (p : Program) :
    (Validation.duplicateVariables p).map ReferenceReport.place
      = ((repeats (fun v => (v.value.kind, v.value.name)) p.typedVariables).map
          (·.value.nameSpan)).map ("W2002", ·) := by
  have hkeys : repeats (fun v : Spanned Variable => SymbolKey.typed v.value.kind v.value.name)
      p.typedVariables = repeats (fun v => (v.value.kind, v.value.name)) p.typedVariables := by
    simp only [repeats, SymbolKey.typed.injEq, Prod.mk.injEq]
  rw [Validation.duplicateVariables,
    repeated_eq (fun v : Spanned Variable => SymbolKey.typed v.value.kind v.value.name)
      (·.value.nameSpan), keptAfter_nil, hkeys, List.map_map, List.map_map, List.map_map]
  rfl

/-! ## Distinct places -/

/-- Names inside of declarations that stand one behind the other are distinct. -/
theorem nodup_names {α : Type} {vs : List (Spanned α)} (name : α → String) (nameSpan : α → Span)
    (h : vs.Pairwise fun v w => v.span.stop ≤ w.span.start)
    (hnames : ∀ v ∈ vs, IsIdentifier (name v.value) ∧
      (nameSpan v.value).Spells text (name v.value).toList ∧
      v.span.encloses (nameSpan v.value) = true) :
    (vs.map fun v => nameSpan v.value).Nodup := by
  refine List.pairwise_map.2 (h.imp_of_mem ?_)
  intro v w hv hw hle heq
  obtain ⟨hidentifier, hspells, hinside⟩ := hnames v hv
  obtain ⟨-, -, hinside'⟩ := hnames w hw
  have hlength := hspells.byteLength_text
  rw [hspells.text_eq] at hlength
  have hpos := Utf8.byteLength_pos hidentifier.isWord.1
  rw [heq] at hlength hinside
  simp only [Span.encloses_iff] at hinside hinside'
  omega

theorem isIdentifier_of_mem_pipelines {v : Spanned NamedPipeline}
    (h : v ∈ (parse text).program.pipelines) : IsIdentifier v.value.name := by
  obtain ⟨c, rs, d, -, hread, -⟩ := mem_pipelines h
  obtain ⟨word, name, equals, -, hname, htext, -, -⟩ := namedPipeline_spec hread
  obtain ⟨a, b, -, -, -, -, hidentifier⟩ := declaredName_spec hname
  rwa [htext]

theorem nodup_pipelineNames : ((parse text).program.pipelines.map (·.value.nameSpan)).Nodup := by
  refine nodup_names text NamedPipeline.name NamedPipeline.nameSpan
    (pairwise_declarations text fun i v hv => ?_) fun v hv => ?_
  · cases i <;> cases hv
    rfl
  · obtain ⟨-, hspells, hinside, -⟩ := (program_faithful text).pipelines v hv
    exact ⟨isIdentifier_of_mem_pipelines text hv, hspells, hinside⟩

theorem nodup_variableNames :
    ((parse text).program.typedVariables.map (·.value.nameSpan)).Nodup := by
  refine nodup_names text Variable.name Variable.nameSpan
    (pairwise_declarations text fun i v hv => ?_) fun v hv => ?_
  · cases i <;> cases hv
    rfl
  · obtain ⟨-, hspells, -, hinside, -⟩ := (program_faithful text).typedVariables v hv
    exact ⟨(isIdentifier_of_mem_typedVariables hv).2, hspells, hinside⟩

theorem nodup_unknownPartials : (Faults.unknownPartials engine text).Nodup := by
  refine (perm_unresolved engine text).nodup_iff.1 ?_
  exact (usages_nodup text engine).sublist (List.filter_sublist.map _)

/-- No place has a fault twice. -/
theorem nodup_faults : (Faults.all engine text).Nodup := by
  have hscan := Reference.scan_nodup text
  have hparts : Faults.all engine text =
      [("W1001", Faults.unknownPipelines text), ("W1002", Faults.unknownVariables text),
        ("W1003", Faults.unknownPartials engine text), ("W2001", Faults.duplicatePipelines text),
        ("W2002", Faults.duplicateVariables text)].flatMap fun p => p.2.map (p.1, ·) := by
    simp [Faults.all]
  rw [hparts, List.nodup_flatMap]
  constructor
  · have hmap (code : String) {ss : List Span} (h : ss.Nodup) : (ss.map (code, ·)).Nodup :=
      h.map fun _ _ heq => (Prod.mk.inj heq).2
    simp only [List.forall_mem_cons, List.not_mem_nil, IsEmpty.forall_iff, implies_true, and_true]
    exact ⟨hmap _ (hscan.sublist (List.filter_sublist.map _)),
      hmap _ (hscan.sublist (List.filter_sublist.map _)),
      hmap _ (nodup_unknownPartials engine text),
      hmap _ ((nodup_pipelineNames text).sublist ((repeats_sublist _ _).map _)),
      hmap _ ((nodup_variableNames text).sublist ((repeats_sublist _ _).map _))⟩
  · have hapart {p q : String × List Span} (h : p.1 ≠ q.1) :
        List.Disjoint (p.2.map (p.1, ·)) (q.2.map (q.1, ·)) := by
      intro x hp hq
      obtain ⟨s, -, rfl⟩ := List.mem_map.1 hp
      obtain ⟨t, -, heq⟩ := List.mem_map.1 hq
      exact h (Prod.mk.inj heq).1.symm
    refine List.Pairwise.imp hapart ?_
    simp

/-! ## Order -/

namespace ReferenceReport

theorem le_iff {r s : ReferenceReport} : r.le s = true ↔ r.span.start < s.span.start ∨
    r.span.start = s.span.start ∧ r.fault.code ≤ s.fault.code := by
  simp [le]

theorem le_trans {r s t : ReferenceReport} (hrs : r.le s = true) (hst : s.le t = true) :
    r.le t = true := by
  rw [le_iff] at hrs hst ⊢
  rcases hrs with hrs | ⟨hrs, hcode⟩
  · left
    omega
  · rcases hst with hst | ⟨hst, hcode'⟩
    · left
      omega
    · exact Or.inr ⟨hrs.trans hst, String.le_trans hcode hcode'⟩

theorem le_total (r s : ReferenceReport) : (r.le s || s.le r) = true := by
  rw [Bool.or_eq_true, le_iff, le_iff]
  rcases Nat.lt_trichotomy r.span.start s.span.start with h | h | h
  · exact Or.inl (Or.inl h)
  · rcases String.le_total r.fault.code s.fault.code with hcode | hcode
    · exact Or.inl (Or.inr ⟨h, hcode⟩)
    · exact Or.inr (Or.inr ⟨h.symm, hcode⟩)
  · exact Or.inr (Or.inl h)

end ReferenceReport

/-- By code and place, the reports are the faults. -/
theorem perm_faults : ((analyze engine text).referenceReports.map ReferenceReport.place).Perm
    (Faults.all engine text) := by
  refine ((List.mergeSort_perm _ _).map _).trans ?_
  simp only [List.map_append]
  refine ((((perm_unknownPipelines engine text).append (perm_unknownVariables engine text)).append
    (perm_unknownPartials engine text)).append (.of_eq ?_)).append (.of_eq ?_)
  · exact duplicatePipelines_eq _
  · exact duplicateVariables_eq _

theorem nodup_places :
    ((analyze engine text).referenceReports.map ReferenceReport.place).Nodup :=
  (perm_faults engine text).nodup_iff.2 (nodup_faults engine text)

theorem sorted_referenceReports :
    (analyze engine text).referenceReports.Pairwise fun r s => r.le s = true := by
  refine List.pairwise_mergeSort ?_ ReferenceReport.le_total _
  exact fun _ _ _ hrs hst => ReferenceReport.le_trans hrs hst

/-- **Validation is sound and complete.** For every document and template engine, the reports on
references are in the order of their starts, and of their codes at one start. By code and place they
are the faults of the document, and none is reported twice. A usage is no fault where a tag of its
region opens an inline partial of the name, or a template variable has it. -/
theorem referenceReports_eq :
    (analyze engine text).referenceReports.Pairwise (fun r s => r.span.start < s.span.start ∨
      r.span.start = s.span.start ∧ r.fault.code ≤ s.fault.code) ∧
    ((analyze engine text).referenceReports.map fun r => (r.fault.code, r.span)).Perm
      (Faults.all engine text) ∧
    ((analyze engine text).referenceReports.map fun r => (r.fault.code, r.span)).Nodup ∧
    ∀ region name, Faults.isAnswered engine text region name = true ↔
      OpensInline text region name ∨
        ∃ v ∈ templates (parse text).program engine, v.name = name := by
  exact ⟨(sorted_referenceReports engine text).imp ReferenceReport.le_iff.1, perm_faults engine text,
    nodup_places engine text, fun region name => isAnswered_iff engine text⟩

end PipelineLang
