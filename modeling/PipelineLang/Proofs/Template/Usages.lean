import PipelineLang.Proofs.Reference.Search
import PipelineLang.Proofs.Table
import PipelineLang.Proofs.Template.Regions

/-!
# Usages of partials

A usage lies inside the region it is found in, behind its first braces, so it lies in no other one
(`usagesIn_inside`) and all usages of a document stand at distinct places (`usages_nodup`). Hence it
sees the inline partials of its own region and no others, and it stands for nothing exactly where
neither that region nor a template variable has the name (`resolve_eq_unresolved`).
-/

namespace PipelineLang.Template

open Cursor Grammar Reference

variable {c d : Cursor} {text : List Char} {region : Span}

/-! ## Tags -/

theorem le_optional (x : Char) (c : Cursor) : c ≤ optional x c := by
  unfold optional
  cases h : c.char x with
  | none => exact le_rfl
  | some d => exact (char_lt h).le

theorem openTag_lt (h : openTag c = some d) : c < d := by
  obtain ⟨behind, hbraces, rfl⟩ := Option.map_eq_some_iff.1 h
  exact (chars_lt (List.cons_ne_nil _ _) hbraces).trans_le (le_optional _ _)

/-- A usage has its name behind the braces, and ends with it. -/
theorem usage_spec {n : Token} (h : usage c = some (n, d)) :
    ∃ x, c < x ∧ x < d ∧ n.span = ⟨x.offset, d.offset⟩ := by
  simp only [usage, bind, Option.bind_eq_some_iff] at h
  obtain ⟨braces, hbraces, arrow, harrow, h⟩ := h
  split at h
  · cases h
  · next hempty =>
    cases h
    refine ⟨arrow.skipWhile Blank.isWhite, ?_, lt_of_span_not_empty (by simpa using hempty), rfl⟩
    exact (openTag_lt hbraces).trans <| (le_optional _ _).trans_lt <|
      (char_lt harrow).trans_le (le_skipWhile _ _)

theorem moves_usage : Moves usage := by
  intro c n d h
  obtain ⟨x, hx, hd, -⟩ := usage_spec h
  exact hx.trans hd

/-! ## Usages of a region -/

/-- No cursor of a text lies behind its last byte. -/
theorem offset_le_stop {offset : Nat} {run : List Char} (h : start offset run ≤ d) :
    d.offset ≤ offset + Utf8.byteLength run := by
  obtain ⟨front, hfront⟩ := exists_run h
  have hrun : run = front ++ d.rest := hfront.rest_eq
  rw [hfront.offset_eq, hrun, Utf8.byteLength_append]
  exact Nat.add_le_add_left (Nat.le_add_right _ _) _

theorem usagesIn_inside (hregion : region.Fits text) : ∀ u ∈ usagesIn text region,
    region.start < u.2.start ∧ u.2.start < u.2.stop ∧ u.2.stop ≤ region.stop := by
  intro u hu
  obtain ⟨m, hm, rfl⟩ := List.mem_map.1 (List.mem_filter.1 hu).1
  obtain ⟨b, hb, hmatch⟩ := mem_searchAll moves_usage _ m hm
  obtain ⟨x, hx, hd, hspan⟩ := usage_spec hmatch
  have hstart := offset_lt (hb.trans_lt hx)
  have hstop := offset_le_stop (hb.trans (hx.trans hd).le)
  rw [hregion.byteLength_text] at hstop
  simp only [hspan]
  exact ⟨hstart, offset_lt hd, hstop⟩

/-- The usages of a region stand one behind the other. -/
theorem usagesIn_pairwise (text : List Char) (region : Span) :
    (usagesIn text region).Pairwise fun u v => u.2.stop < v.2.start := by
  refine List.Pairwise.sublist List.filter_sublist (List.pairwise_map.2 ?_)
  refine (pairwise_searchAll moves_usage _).imp_of_mem ?_
  intro m m' hm _ hbehind
  obtain ⟨b, -, hmatch⟩ := mem_searchAll moves_usage _ m hm
  obtain ⟨b', hle, hmatch'⟩ := hbehind
  obtain ⟨x, -, -, hspan⟩ := usage_spec hmatch
  obtain ⟨x', hx', -, hspan'⟩ := usage_spec hmatch'
  simp only [hspan, hspan']
  exact offset_lt (hle.trans_lt hx')

/-! ## Usages of a document -/

variable (engine : String) (text)

/-- All usages, by the regions that they are found in. -/
def usagesOfDocument : List (String × Span) :=
  (regionsOf (parse text).program engine).flatMap (usagesIn text)

/-- The usages of a document lie apart from one another. -/
theorem usages_pairwise :
    (usagesOfDocument text engine).Pairwise fun u v => u.2.Apart v.2 := by
  obtain ⟨b, hlaid⟩ := laid_regionsOf engine text
  have hfit := regionsOf_fit engine text
  refine List.pairwise_flatMap.2 ⟨fun r hr => ?_, hlaid.apart.imp_of_mem ?_⟩
  · exact (usagesIn_pairwise text r).imp fun h => Or.inl h
  · intro r r' hr hr' hapart u hu v hv
    have hu := usagesIn_inside (hfit r hr) u hu
    have hv := usagesIn_inside (hfit r' hr') v hv
    rcases hapart with hapart | hapart
    · exact Or.inl (by omega)
    · exact Or.inr (by omega)

theorem mem_usagesOfDocument {u : String × Span} (hu : u ∈ usagesOfDocument text engine) :
    ∃ region ∈ regionsOf (parse text).program engine, region.Fits text ∧ u ∈ usagesIn text region := by
  obtain ⟨region, hregion, hu⟩ := List.mem_flatMap.1 hu
  exact ⟨region, hregion, regionsOf_fit engine text region hregion, hu⟩

/-- **No usage is found twice.** -/
theorem usages_nodup : ((usagesOfDocument text engine).map (·.2)).Nodup := by
  refine List.pairwise_map.2 ((usages_pairwise text engine).imp_of_mem fun {u v} hu _ hapart heq => ?_)
  obtain ⟨region, -, hfits, hu⟩ := mem_usagesOfDocument text engine hu
  obtain ⟨-, hlt, -⟩ := usagesIn_inside hfits u hu
  rw [Span.Apart, ← heq] at hapart
  omega

/-! ## What a usage stands for -/

variable {text engine}

/-- A place inside a region is in no other one. -/
theorem eq_of_contains {region' : Span} {offset : Nat}
    (hr : region ∈ regionsOf (parse text).program engine)
    (hr' : region' ∈ regionsOf (parse text).program engine)
    (hstart : region.start < offset) (hstop : offset < region.stop)
    (hcontains : region'.contains offset = true) : region' = region := by
  obtain ⟨b, hlaid⟩ := laid_regionsOf engine text
  by_contra hne
  have hapart := hlaid.apart.forall hr' hr hne
  simp only [Span.contains, Bool.and_eq_true, decide_eq_true_eq] at hcontains
  rcases hapart with hapart | hapart
  · omega
  · omega

theorem scopeOf_eq_some {scope : InlineScope} (h : scopeOf text region = some scope) :
    scope = ⟨region, .ofList (definitionsIn text region)⟩ := by
  unfold scopeOf at h
  split at h
  · cases h
  · exact (Option.some.inj h).symm

/-- Inside a region, the inline partials that are seen are those that the region defines. -/
theorem inlineAt_eq_none (name : String) {offset : Nat}
    (hr : region ∈ regionsOf (parse text).program engine)
    (hstart : region.start < offset) (hstop : offset < region.stop) :
    (collect (parse text).program text engine).inlineAt name offset = none ↔
      name ∉ (definitionsIn text region).map (·.1) := by
  rw [Partials.inlineAt, List.findSome?_eq_none_iff]
  constructor
  · intro h
    cases hscope : scopeOf text region with
    | none =>
      unfold scopeOf at hscope
      split at hscope
      · next hnil => rw [hnil]; exact List.not_mem_nil
      · cases hscope
    | some scope =>
      have hmem : scope ∈ (collect (parse text).program text engine).scopes :=
        List.mem_filterMap.2 ⟨region, hr, hscope⟩
      have heq := scopeOf_eq_some hscope
      have hcontains : scope.region.contains offset = true := by
        rw [heq]
        simp only [Span.contains, Bool.and_eq_true, decide_eq_true_eq]
        omega
      have hnone := h scope (List.mem_filter.2 ⟨hmem, hcontains⟩)
      rw [Option.map_eq_none_iff, heq] at hnone
      exact Table.find?_ofList_eq_none.1 hnone
  · intro hnot scope hscope
    obtain ⟨hmem, hcontains⟩ := List.mem_filter.1 hscope
    obtain ⟨region', hr', hscope'⟩ := List.mem_filterMap.1 hmem
    have heq := scopeOf_eq_some hscope'
    rw [heq] at hcontains
    have hregion := eq_of_contains hr hr' hstart hstop hcontains
    rw [heq, hregion, Option.map_eq_none_iff]
    exact Table.find?_ofList_eq_none.2 hnot

/-- A usage stands for nothing where neither its region nor a template variable has the name. -/
theorem resolve_eq_unresolved {u : String × Span}
    (hr : region ∈ regionsOf (parse text).program engine) (hu : u ∈ usagesIn text region) :
    (collect (parse text).program text engine).resolve u.1 u.2.start = .unresolved ↔
      u.1 ∉ (definitionsIn text region).map (·.1) ∧
        u.1 ∉ (templates (parse text).program engine).map (·.name) := by
  obtain ⟨hstart, hspan, hstop⟩ := usagesIn_inside (regionsOf_fit engine text region hr) u hu
  have hinline := inlineAt_eq_none u.1 hr hstart (hspan.trans_le hstop)
  have hglobal : (collect (parse text).program text engine).globals.find? u.1 = none ↔
      u.1 ∉ (templates (parse text).program engine).map (·.name) := by
    refine Table.find?_ofList_eq_none.trans ?_
    rw [List.map_map]
    rfl
  rw [← hinline, ← hglobal, Partials.resolve]
  split
  · next heq => simp [heq]
  · next heq =>
    split
    · next hfind => simp [hfind]
    · next hfind => simp [heq, hfind]

end PipelineLang.Template
