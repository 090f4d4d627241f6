import PipelineLang.Proofs.Index.Declared
import PipelineLang.Proofs.Source.Fenced
import PipelineLang.Proofs.Template.Tags

/-!
# Names of partials in the text

The name of a partial is written out where it is used and where an inline partial of that name is
defined, there between quotes (`usagesIn_spells`, `definitionsIn_spells`). What a name stands for is
looked up in tables: an inline partial is one that a region defines (`mem_of_inlineAt`), and the table
of template variables has the last variable of each name, as the table of symbols does
(`find?_globals`).
-/

namespace PipelineLang.Template

open Cursor Grammar Reference Utf8

variable {c d x : Cursor} {text : List Char} {region : Span} {engine name : String}

/-! ## Text of a region -/

/-- What lies between two cursors of a region stands in the document, behind the character that is
before the first cursor. -/
theorem stands_of_between {run : List Char} (hregion : region.Fits text)
    (hx : regionCursor text region ≤ x) (h : Between x run d) :
    ∃ front back, text = front ++ run ++ (d.rest ++ back) ∧
      (⟨x.offset, d.offset⟩ : Span) = ⟨byteLength front, byteLength (front ++ run)⟩ ∧
      ∀ z, x.before = some z → front.getLast? = some z := by
  obtain ⟨pre, body, back, htext, hspan⟩ := hregion.exists_run
  have hbody : region.text text = body := by
    rw [htext, hspan]
    exact (Span.spells_append pre body back).text_eq
  have hcursor : regionCursor text region = start (byteLength pre) body := by
    rw [regionCursor, hbody, hspan]
  rw [hcursor] at hx
  obtain ⟨front, hfront⟩ := exists_run hx
  have hrest : body = front ++ run ++ d.rest := (hfront.trans h).rest_eq
  have hoffset := hfront.offset_eq
  have hoffset' := (hfront.trans h).offset_eq
  have hbefore := hfront.before_eq
  simp only [start, Option.or_none] at hoffset hoffset' hbefore
  refine ⟨pre ++ front, back, ?_, ?_, fun z hz => ?_⟩
  · rw [htext, hrest]
    simp only [List.append_assoc]
  · rw [hoffset, hoffset']
    simp only [byteLength_append, Nat.add_assoc]
  · rw [List.getLast?_append, ← hbefore, hz, Option.some_or]

/-! ## Names where they are written -/

theorem usage_between {n : Token} (h : usage c = some (n, d)) :
    ∃ x, c ≤ x ∧ Between x n.text.toList d ∧ n.span = ⟨x.offset, d.offset⟩ := by
  obtain ⟨y, hy, -, hspan'⟩ := usage_spec h
  simp only [usage, bind, Option.bind_eq_some_iff] at h
  obtain ⟨braces, hbraces, arrow, harrow, h⟩ := h
  split at h
  · cases h
  · cases h
    obtain ⟨hbetween, hspan, -, -⟩ := takeWhile_spec (rfl :
      (arrow.skipWhile Blank.isWhite).takeWhile (fun x =>
        !Blank.isWhite x && x != '\x7d' && x != '~') = _)
    refine ⟨_, ?_, hbetween, hspan⟩
    exact (openTag_lt hbraces).le.trans <| (le_optional _ _).trans <|
      (char_lt harrow).le.trans (le_skipWhile _ _)

/-- The name of a usage stands under its span. -/
theorem usagesIn_spells (hregion : region.Fits text) {u : String × Span}
    (hu : u ∈ usagesIn text region) : u.2.Spells text u.1.toList := by
  obtain ⟨⟨n, d⟩, hm, rfl⟩ := List.mem_map.1 (List.mem_filter.1 hu).1
  obtain ⟨b, hb, hmatch⟩ := mem_searchAll moves_usage _ _ hm
  obtain ⟨x, hx, hbetween, hspan⟩ := usage_between hmatch
  obtain ⟨front, back, htext, heq, -⟩ := stands_of_between hregion (hb.trans hx) hbetween
  simp only [hspan, heq, htext]
  exact Span.spells_append _ _ _

/-- The name of an inline partial is what stands between two quotes. -/
theorem inlineOpen_spec {tag : Nat × Token} (h : inlineOpen c = some (tag, d)) :
    ∃ quote close, c < quote ∧ Between quote tag.2.text.toList close ∧ close < d ∧
      tag.2.span = ⟨quote.offset, close.offset⟩ ∧ tag.2.span.isEmpty = false ∧
      quote.before = some '"' ∧ close.peek = some '"' ∧ '"' ∉ tag.2.text.toList := by
  obtain ⟨start, n⟩ := tag
  obtain ⟨-, run, hstands, hbetween⟩ := stands_of_inlineOpen h
  cases hstands with
  | @opening mark gap name tail hmark hgap hwhite hname hquote htail =>
    obtain ⟨behind, h, hend⟩ := hbetween.exists_mid
    obtain ⟨close, h, hclose⟩ := h.exists_mid
    obtain ⟨quote, hfront, hinner⟩ := h.exists_mid
    rw [String.toList_ofList, hfront.span_eq hinner]
    refine ⟨quote, close, hfront.lt (by simp [openingFront]), hinner,
      (hclose.lt (List.cons_ne_nil _ _)).trans_le hend.le, rfl, ?_, ?_, hclose.peek_cons, hquote⟩
    · exact beq_eq_false_iff_ne.2 (offset_lt (hinner.lt hname)).ne
    · rw [hfront.before_eq, openingFront, List.getLast?_concat]
      rfl

/-- The name of an inline partial stands under its span, between quotes that are not part of it. -/
theorem definitionsIn_spells (hregion : region.Fits text) {definition : InlineDefinition}
    (h : (name, definition) ∈ definitionsIn text region) :
    definition.nameSpan.Spells text name.toList ∧
      definition.nameSpan.start < definition.nameSpan.stop ∧
      definition.nameSpan.Fenced (· != '"') text ∧ ∀ x ∈ name.toList, (x != '"') = true := by
  obtain ⟨⟨⟨tag, n⟩, d⟩, hm, heq⟩ := List.mem_map.1 h
  obtain ⟨b, hb, hmatch⟩ := mem_searchAll moves_inlineOpen _ _ hm
  cases heq
  obtain ⟨quote, close, hquote, hbetween, -, hspan, hempty, hbefore, hpeek, hnot⟩ :=
    inlineOpen_spec hmatch
  simp only at hbetween hspan hempty hnot
  obtain ⟨front, back, htext, heq, hfront⟩ :=
    stands_of_between hregion (hb.trans hquote.le) hbetween
  refine ⟨?_, ?_, ?_, fun x hx => ?_⟩
  · simp only [hspan, heq, htext]
    exact Span.spells_append _ _ _
  · rw [hspan, Span.isEmpty, beq_eq_false_iff_ne] at hempty
    simp only [hspan]
    exact lt_of_le_of_ne (offset_le hbetween.le) hempty
  · simp only [hspan, heq]
    refine ⟨front, _, _, htext, rfl, ?_, ?_⟩
    · rw [hfront _ hbefore]
      rfl
    · rw [peek] at hpeek
      rw [List.head?_append, hpeek]
      rfl
  · rw [bne_iff_ne]
    rintro rfl
    exact hnot hx

/-! ## Names in tables -/

theorem inlineAt_of_resolve {p : Partials} {offset : Nat} {definition : InlineDefinition}
    (h : p.resolve name offset = .inline definition region) :
    p.inlineAt name offset = some (definition, region) := by
  unfold Partials.resolve at h
  split at h
  · next heq =>
    cases h
    exact heq
  · split at h
    · cases h
    · cases h

theorem globals_of_resolve {p : Partials} {offset : Nat} {s : Span}
    (h : p.resolve name offset = .global s) : p.globals.find? name = some s := by
  unfold Partials.resolve at h
  split at h
  · cases h
  · split at h
    · next hfind =>
      cases h
      exact hfind
    · cases h

/-- What a name stands for as an inline partial is defined in a region. -/
theorem mem_of_inlineAt {offset : Nat} {definition : InlineDefinition}
    (h : (collect (parse text).program text engine).inlineAt name offset = some (definition, region)) :
    region ∈ regionsOf (parse text).program engine ∧
      (name, definition) ∈ definitionsIn text region := by
  obtain ⟨scope, hscope, hfind⟩ := List.exists_of_findSome?_eq_some h
  obtain ⟨definition', hdefinition, heq⟩ := Option.map_eq_some_iff.1 hfind
  cases heq
  obtain ⟨region, hregion, hof⟩ := List.mem_filterMap.1 (List.mem_filter.1 hscope).1
  rw [scopeOf_eq_some hof] at hdefinition ⊢
  exact ⟨hregion, Table.mem_ofList (Table.mem_of_find? hdefinition)⟩

/-- The table of template variables has the place of the last variable of the name, as the table of
symbols does. -/
theorem find?_globals (text : List Char) (engine name : String) :
    (collect (parse text).program text engine).globals.find? name
      = (analyze engine text).symbols.declarationOf (.typed engine name) := by
  have hglobals : (collect (parse text).program text engine).globals
      = .ofList ((templates (parse text).program engine).map fun v => (v.name, v.nameSpan)) := rfl
  rw [declarationOf_eq, hglobals, Table.find?_ofList_map Variable.name Variable.nameSpan, templates,
    Program.nameSpansOf, Program.variablesOf, List.filter_map, List.filter_map, List.filter_filter,
    List.map_map]
  refine congrArg (fun vs => (List.map _ vs).getLast?) (List.filter_congr fun v _ => ?_)
  exact Bool.and_comm _ _

/-- The usages that are recorded for a name. -/
theorem mem_usagesOf {s : Span} :
    s ∈ (collect (parse text).program text engine).usagesOf name ↔
      (name, s) ∈ usagesOfDocument text engine := by
  rw [Partials.usagesOf, collect, Table.getD_find?_group]
  constructor
  · intro h
    obtain ⟨⟨name', s⟩, hu, rfl⟩ := List.mem_map.1 h
    obtain ⟨hu, hname⟩ := List.mem_filter.1 hu
    rwa [← eq_of_beq hname]
  · intro h
    exact List.mem_map.2 ⟨(name, s), List.mem_filter.2 ⟨h, beq_self_eq_true _⟩, rfl⟩

end PipelineLang.Template
