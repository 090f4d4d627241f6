import PipelineLang.Proofs.Template.Names

/-!
# Scopes of partials

The regions of a document are in order and apart, so a usage lies inside one of them only, its own.
That region settles what the usage stands for: where it has an inline partial of the name, the usage
is one of that region and is counted nowhere else; where it has none, the usage is one of the
template variable of the name, if there is one, and else one that stands for nothing
(`Partials.Filed`). What partials a region has is settled by its tags
(`defines_iff_opensInline`). So the three lists of usages that renaming, searching and checking read
take every usage once (`usages_filed`).
-/

namespace PipelineLang

namespace Template

open Grammar

variable {text : List Char} {engine name : String} {region s : Span}

/-! ## Order -/

/-- Regions come in the order of the document, each behind the end of the one before it. -/
theorem regionsOf_pairwise (text : List Char) (engine : String) :
    (regionsOf (parse text).program engine).Pairwise fun r r' => r.stop < r'.start := by
  obtain ⟨b, hlaid⟩ := laid_regionsOf engine text
  obtain ⟨b', hprogram⟩ := laid_regionsOfProgram engine text
  have hnodup := (List.mergeSort_perm (regionsOfProgram engine (parse text).program)
    Span.le).nodup_iff.2 hprogram.nodup
  have hsorted : (regionsOf (parse text).program engine).Pairwise (Span.le · · = true) := by
    change (dedup ((regionsOfProgram engine (parse text).program).mergeSort Span.le)).Pairwise _
    rw [dedup_of_nodup hnodup]
    exact List.pairwise_mergeSort Span.le_trans Span.le_total _
  refine (hsorted.and hlaid.apart).imp_of_mem fun {r r'} _ hr' h => ?_
  obtain ⟨hle, hapart⟩ := h
  have hends := (hlaid.inside r' hr').2.1
  simp only [Span.le, Bool.or_eq_true, Bool.and_eq_true, decide_eq_true_eq, beq_iff_eq] at hle
  rcases hapart with hapart | hapart
  · exact hapart
  · omega

theorem usagesOfDocument_pairwise (text : List Char) (engine : String) :
    (usagesOfDocument text engine).Pairwise fun u v => u.2.stop < v.2.start := by
  have hfit := regionsOf_fit engine text
  refine List.pairwise_flatMap.2 ⟨fun r _ => usagesIn_pairwise text r, ?_⟩
  refine (regionsOf_pairwise text engine).imp_of_mem fun hr hr' hbehind u hu v hv => ?_
  have hu := usagesIn_inside (hfit _ hr) u hu
  have hv := usagesIn_inside (hfit _ hr') v hv
  omega

/-- The usages of a name come in the order of the document. -/
theorem usagesOf_pairwise (text : List Char) (engine name : String) :
    ((collect (parse text).program text engine).usagesOf name).Pairwise
      fun s t => s.stop < t.start := by
  rw [Partials.usagesOf, collect, Table.getD_find?_group]
  exact List.pairwise_map.2 ((usagesOfDocument_pairwise text engine).filter _)

/-! ## Own regions -/

/-- The span of a usage lies inside its region. -/
theorem encloses_of_mem_usagesIn (hfits : region.Fits text)
    (hu : (name, s) ∈ usagesIn text region) : region.encloses s = true := by
  have hinside := usagesIn_inside hfits _ hu
  simp only [Span.encloses, Bool.and_eq_true, decide_eq_true_eq] at hinside ⊢
  omega

/-- A usage lies inside one region only. -/
theorem encloses_iff {r : Span} (hr : r ∈ regionsOf (parse text).program engine)
    (hregion : region ∈ regionsOf (parse text).program engine)
    (hu : (name, s) ∈ usagesIn text region) : r.encloses s = true ↔ r = region := by
  have hfits := regionsOf_fit engine text region hregion
  obtain ⟨hstart, hspan, hstop⟩ := usagesIn_inside hfits _ hu
  constructor
  · intro h
    refine eq_of_contains hregion hr hstart (hspan.trans_le hstop) ?_
    simp only [Span.encloses, Span.contains, Bool.and_eq_true, decide_eq_true_eq] at h hspan ⊢
    omega
  · rintro rfl
    exact encloses_of_mem_usagesIn hfits hu

/-! ## Scopes -/

/-- The region has an inline partial of the name. -/
def Partials.Defines (p : Partials) (region : Span) (name : String) : Prop :=
  ∃ scope ∈ p.scopes, scope.region = region ∧ scope.definitions.contains name = true

theorem defines_iff : (collect (parse text).program text engine).Defines region name ↔
    region ∈ regionsOf (parse text).program engine ∧
      name ∈ (definitionsIn text region).map (·.1) := by
  constructor
  · rintro ⟨scope, hscope, rfl, hcontains⟩
    obtain ⟨r, hr, hof⟩ := List.mem_filterMap.1 hscope
    rw [scopeOf_eq_some hof] at hcontains ⊢
    refine ⟨hr, ?_⟩
    by_contra hnot
    rw [Table.contains, Table.find?_ofList_eq_none.2 hnot] at hcontains
    cases hcontains
  · rintro ⟨hr, hname⟩
    cases hscope : scopeOf text region with
    | none =>
      unfold scopeOf at hscope
      split at hscope
      · next hnil =>
        rw [hnil] at hname
        cases hname
      · cases hscope
    | some scope =>
      have heq := scopeOf_eq_some hscope
      refine ⟨scope, List.mem_filterMap.2 ⟨region, hr, hscope⟩, by rw [heq], ?_⟩
      rw [heq, Table.contains, Option.isSome_iff_ne_none]
      exact fun hnone => Table.find?_ofList_eq_none.1 hnone hname

/-- A region has an inline partial of a name where one of its tags opens it. -/
theorem defines_iff_opensInline :
    (collect (parse text).program text engine).Defines region name ↔
      region ∈ regionsOf (parse text).program engine ∧ OpensInline text region name := by
  rw [← mem_definitionsIn_iff]
  exact defines_iff

/-- An inline partial that is seen has the place it is seen from in its region. -/
theorem contains_of_inlineAt {p : Partials} {offset : Nat} {definition : InlineDefinition}
    (h : p.inlineAt name offset = some (definition, region)) : region.contains offset = true := by
  obtain ⟨scope, hscope, hfind⟩ := List.exists_of_findSome?_eq_some h
  obtain ⟨d, -, heq⟩ := Option.map_eq_some_iff.1 hfind
  cases heq
  exact (List.mem_filter.1 hscope).2

/-- The inline partial that is seen is the last one of its name in its region. -/
theorem find?_of_inlineAt {offset : Nat} {definition : InlineDefinition}
    (h : (collect (parse text).program text engine).inlineAt name offset
      = some (definition, region)) :
    (Table.ofList (definitionsIn text region)).find? name = some definition := by
  obtain ⟨scope, hscope, hfind⟩ := List.exists_of_findSome?_eq_some h
  obtain ⟨d, hd, heq⟩ := Option.map_eq_some_iff.1 hfind
  cases heq
  obtain ⟨r, -, hof⟩ := List.mem_filterMap.1 (List.mem_filter.1 hscope).1
  rw [scopeOf_eq_some hof] at hd ⊢
  exact hd

/-- A usage sees the inline partials of its own region. -/
theorem inlineAt_of_defines (hregion : region ∈ regionsOf (parse text).program engine)
    (hu : (name, s) ∈ usagesIn text region)
    (h : (collect (parse text).program text engine).Defines region name) :
    ∃ definition, (collect (parse text).program text engine).inlineAt name s.start
      = some (definition, region) := by
  obtain ⟨hstart, hspan, hstop⟩ := usagesIn_inside (regionsOf_fit engine text region hregion) _ hu
  have hlt : s.start < region.stop := hspan.trans_le hstop
  cases hinline : (collect (parse text).program text engine).inlineAt name s.start with
  | none => exact absurd (defines_iff.1 h).2 ((inlineAt_eq_none name hregion hstart hlt).1 hinline)
  | some found =>
    obtain ⟨definition, home⟩ := found
    have hhome : home = region := eq_of_contains hregion (mem_of_inlineAt hinline).1 hstart hlt
      (contains_of_inlineAt hinline)
    exact ⟨definition, by rw [hhome]⟩

theorem inlineAt_of_not_defines (hregion : region ∈ regionsOf (parse text).program engine)
    (hu : (name, s) ∈ usagesIn text region)
    (h : ¬(collect (parse text).program text engine).Defines region name) :
    (collect (parse text).program text engine).inlineAt name s.start = none := by
  obtain ⟨hstart, hspan, hstop⟩ := usagesIn_inside (regionsOf_fit engine text region hregion) _ hu
  refine (inlineAt_eq_none name hregion hstart (hspan.trans_le hstop)).2 fun hname => ?_
  exact h (defines_iff.2 ⟨hregion, hname⟩)

/-! ## The three lists of usages -/

namespace Partials

variable {p : Partials}

theorem mem_globalUsages : s ∈ p.globalUsages name ↔
    s ∈ p.usagesOf name ∧ (p.resolve name s.start).isGlobal = true := List.mem_filter

theorem mem_unresolvedUsages : s ∈ p.unresolvedUsages name ↔
    s ∈ p.usagesOf name ∧ p.resolve name s.start = .unresolved := by
  rw [unresolvedUsages, List.mem_filter, beq_iff_eq]

theorem not_mem_globalUsages (h : (p.resolve name s.start).isGlobal = false) :
    s ∉ p.globalUsages name := by
  intro hmem
  rw [(mem_globalUsages.1 hmem).2] at h
  cases h

theorem not_mem_unresolvedUsages (h : p.resolve name s.start ≠ .unresolved) :
    s ∉ p.unresolvedUsages name := fun hmem => h (mem_unresolvedUsages.1 hmem).2

theorem mem_regionUsages : s ∈ p.regionUsages name region ↔
    s ∈ p.usagesOf name ∧ region.encloses s = true := List.mem_filter

/-- How the usage of a name in its own region counts: as one of an inline partial, of a template
variable, or of nothing. Each time it is in the list of that kind and in no list of another one. -/
inductive Filed (p : Partials) (templates : List Variable) (name : String) (s own : Span) : Prop
  | ofInline (definition : InlineDefinition) (defines : p.Defines own name)
      (resolves : p.resolve name s.start = .inline definition own)
      (inlineOnly : ∀ r, p.Defines r name ∧ s ∈ p.regionUsages name r ↔ r = own)
      (notGlobal : s ∉ p.globalUsages name) (notUnresolved : s ∉ p.unresolvedUsages name)
  | ofVariable (nameSpan : Span) (undefined : ¬p.Defines own name)
      (declared : ∃ v ∈ templates, v.name = name)
      (resolves : p.resolve name s.start = .global nameSpan)
      (notInline : ∀ r, p.Defines r name → s ∉ p.regionUsages name r)
      (isGlobal : s ∈ p.globalUsages name) (notUnresolved : s ∉ p.unresolvedUsages name)
  | ofNothing (undefined : ¬p.Defines own name) (undeclared : ¬∃ v ∈ templates, v.name = name)
      (resolves : p.resolve name s.start = .unresolved)
      (notInline : ∀ r, p.Defines r name → s ∉ p.regionUsages name r)
      (notGlobal : s ∉ p.globalUsages name) (isUnresolved : s ∈ p.unresolvedUsages name)

end Partials

/-- A usage is one of a region with an inline partial of its name where that region is its own. -/
theorem defines_and_mem_regionUsages_iff {r : Span}
    (hregion : region ∈ regionsOf (parse text).program engine)
    (hu : (name, s) ∈ usagesIn text region) :
    (collect (parse text).program text engine).Defines r name ∧
        s ∈ (collect (parse text).program text engine).regionUsages name r ↔
      r = region ∧ (collect (parse text).program text engine).Defines region name := by
  have hmem : s ∈ (collect (parse text).program text engine).usagesOf name :=
    mem_usagesOf.2 (List.mem_flatMap.2 ⟨region, hregion, hu⟩)
  constructor
  · rintro ⟨hdefines, husage⟩
    have hr : r = region := (encloses_iff (defines_iff.1 hdefines).1 hregion hu).1
      (Partials.mem_regionUsages.1 husage).2
    exact ⟨hr, hr ▸ hdefines⟩
  · rintro ⟨rfl, hdefines⟩
    exact ⟨hdefines, Partials.mem_regionUsages.2 ⟨hmem, (encloses_iff hregion hregion hu).2 rfl⟩⟩

theorem find?_globals_eq_none :
    (collect (parse text).program text engine).globals.find? name = none ↔
      ¬∃ v ∈ templates (parse text).program engine, v.name = name := by
  refine Table.find?_ofList_eq_none.trans (not_congr ?_)
  rw [List.map_map, List.mem_map]
  rfl

/-- **One usage.** Its own region, then the template variables, settle where it is counted. -/
theorem usage_filed (hregion : region ∈ regionsOf (parse text).program engine)
    (hu : (name, s) ∈ usagesIn text region) :
    (collect (parse text).program text engine).Filed (templates (parse text).program engine)
      name s region := by
  have hmem : s ∈ (collect (parse text).program text engine).usagesOf name :=
    mem_usagesOf.2 (List.mem_flatMap.2 ⟨region, hregion, hu⟩)
  have hregions (r : Span) := defines_and_mem_regionUsages_iff (r := r) hregion hu
  by_cases hdefines : (collect (parse text).program text engine).Defines region name
  · obtain ⟨definition, hinline⟩ := inlineAt_of_defines hregion hu hdefines
    have hresolve : (collect (parse text).program text engine).resolve name s.start
        = .inline definition region := by rw [Partials.resolve, hinline]
    refine .ofInline definition hdefines hresolve (fun r => ?_)
      (Partials.not_mem_globalUsages (by rw [hresolve]; rfl))
      (Partials.not_mem_unresolvedUsages fun h => by cases hresolve.symm.trans h)
    rw [hregions r, and_iff_left hdefines]
  · have hinline := inlineAt_of_not_defines hregion hu hdefines
    have hnowhere (r : Span) (hr : (collect (parse text).program text engine).Defines r name) :
        s ∉ (collect (parse text).program text engine).regionUsages name r :=
      fun husage => hdefines ((hregions r).1 ⟨hr, husage⟩).2
    cases hfind : (collect (parse text).program text engine).globals.find? name with
    | none =>
      have hresolve : (collect (parse text).program text engine).resolve name s.start
          = .unresolved := by rw [Partials.resolve, hinline, hfind]
      exact .ofNothing hdefines (find?_globals_eq_none.1 hfind) hresolve hnowhere
        (Partials.not_mem_globalUsages (by rw [hresolve]; rfl))
        (Partials.mem_unresolvedUsages.2 ⟨hmem, hresolve⟩)
    | some nameSpan =>
      have hresolve : (collect (parse text).program text engine).resolve name s.start
          = .global nameSpan := by rw [Partials.resolve, hinline, hfind]
      have hdeclared : ∃ v ∈ templates (parse text).program engine, v.name = name := by
        by_contra hnot
        rw [find?_globals_eq_none.2 hnot] at hfind
        cases hfind
      exact .ofVariable nameSpan hdefines hdeclared hresolve hnowhere
        (Partials.mem_globalUsages.2 ⟨hmem, by rw [hresolve]; rfl⟩)
        (Partials.not_mem_unresolvedUsages fun h => by cases hresolve.symm.trans h)

/-- **Usages are counted once each.** The regions of a document are in order and do not touch, and
one of them has an inline partial of a name where a tag of the region opens it. The usages of a name
are in order too; each has the name under it, lies inside one region only, and is counted by what it
stands for: as one of that region, of the template variable, or of nothing. -/
theorem usages_filed (text : List Char) (engine : String) :
    ((analyze engine text).symbols.partials.regions.Pairwise fun r r' =>
      r.start < r'.start ∧ r.stop < r'.start) ∧
    ∀ name,
      (∀ region, (analyze engine text).symbols.partials.Defines region name ↔
        region ∈ (analyze engine text).symbols.partials.regions ∧ OpensInline text region name) ∧
      (((analyze engine text).symbols.partials.usagesOf name).Pairwise fun s t =>
        s.start < t.start ∧ s.stop < t.start) ∧
      ∀ s ∈ (analyze engine text).symbols.partials.usagesOf name,
        s.Spells text name.toList ∧
        ∃ own ∈ (analyze engine text).symbols.partials.regions,
          (∀ r ∈ (analyze engine text).symbols.partials.regions, r.encloses s = true ↔ r = own) ∧
          (analyze engine text).symbols.partials.Filed
            (templates (analyze engine text).program engine) name s own := by
  obtain ⟨b, hlaid⟩ := laid_regionsOf engine text
  refine ⟨?_, fun name => ⟨fun region => defines_iff_opensInline, ?_, fun s hs => ?_⟩⟩
  · refine (regionsOf_pairwise text engine).imp_of_mem fun hr _ hlt => ⟨?_, hlt⟩
    exact (hlaid.inside _ hr).2.1.trans_lt hlt
  · refine (usagesOf_pairwise text engine name).imp_of_mem fun hs _ hlt => ⟨?_, hlt⟩
    obtain ⟨region, -, hfits, hu⟩ := mem_usagesOfDocument text engine (mem_usagesOf.1 hs)
    exact (usagesIn_inside hfits _ hu).2.1.trans hlt
  · obtain ⟨region, hregion, hfits, hu⟩ := mem_usagesOfDocument text engine (mem_usagesOf.1 hs)
    exact ⟨usagesIn_spells hfits hu, region, hregion, fun r hr => encloses_iff hr hregion hu,
      usage_filed hregion hu⟩

/-- A template that uses an inline partial of its own. -/
def ownInline : List Char :=
  "handlebars a = \x60\x7b\x7b#*inline \"b\"\x7d\x7dx\x7b\x7b/inline\x7d\x7d".toList
    ++ "\x7b\x7b> b\x7d\x7d\x60\n".toList

/-- The usage is filed by the region of the template, the only one of the document. -/
theorem usages_filed_ownInline :
    ⟨48, 49⟩ ∈ (analyze "handlebars" ownInline).symbols.partials.usagesOf "b" ∧
      (⟨48, 49⟩ : Span).Spells ownInline "b".toList ∧
      (analyze "handlebars" ownInline).symbols.partials.Filed
        (templates (analyze "handlebars" ownInline).program "handlebars") "b" ⟨48, 49⟩
        ⟨16, 51⟩ := by
  have husages : (analyze "handlebars" ownInline).symbols.partials.usagesOf "b" = [⟨48, 49⟩] := by
    decide +kernel
  have hregions : (analyze "handlebars" ownInline).symbols.partials.regions = [⟨16, 51⟩] := by
    decide +kernel
  have hmem : ⟨48, 49⟩ ∈ (analyze "handlebars" ownInline).symbols.partials.usagesOf "b" := by
    rw [husages]
    exact List.mem_singleton_self _
  obtain ⟨hspells, own, hown, -, hfiled⟩ :=
    ((usages_filed ownInline "handlebars").2 "b").2.2 ⟨48, 49⟩ hmem
  rw [hregions] at hown
  cases List.mem_singleton.1 hown
  exact ⟨hmem, hspells, hfiled⟩

end Template
end PipelineLang
