import PipelineLang.Proofs.Editor.Occurrences
import PipelineLang.Proofs.Template.Scopes

/-!
# What is offered for renaming

The name that is offered for renaming is that of the context, which is read off the line of the
cursor or found among the partials. The names that are renamed are those of the symbol table. The
two meet at every reference, at every partial and at the last declaration of a symbol. They part
only where a line shows a name as declared (`Context.Shows`) that is not the one of the last
declaration: at a declaration before the last one, and where the document declares nothing, as in a
text between backticks (`offered_renamed_iff`).

A name that a line declares stands behind a word, that of a partial behind an arrow (`footing`), so
none is renamed as the other.
-/

namespace PipelineLang

open Utf8 Cursor Reference Template Grammar

variable {text : List Char} {engine name : String} {region s : Span} {c d : Cursor} {r : Reference}
  {key : SymbolKey}

/-! ## Declared names are no partials -/

theorem isWhite_of_isInline {x : Char} (h : Blank.isInline x = true) : Blank.isWhite x = true := by
  simp only [Blank.isInline, Bool.or_eq_true, beq_iff_eq] at h
  rcases h with rfl | rfl
  · decide
  · decide

/-- What stands before the white space before the offset. -/
def footing (text : List Char) (offset : Nat) : Option Char :=
  ((splitFloor offset text).1.reverse.dropWhile Blank.isWhite).head?

theorem footing_eq (front back : List Char) {x : Char} {ws : List Char}
    (hx : Blank.isWhite x = false) (hws : ∀ w ∈ ws, Blank.isWhite w = true) :
    footing (front ++ x :: ws ++ back) (byteLength (front ++ x :: ws)) = some x := by
  have hreverse : (front ++ x :: ws).reverse = ws.reverse ++ x :: front.reverse := by simp
  rw [footing, splitFloor_byteLength, hreverse,
    List.dropWhile_append_of_pos fun w hw => hws w (List.mem_reverse.1 hw),
    List.dropWhile_cons_of_neg (by rw [hx]; exact Bool.false_ne_true), List.head?_cons]

namespace Template

theorem usage_arrow {n : Token} (h : usage c = some (n, d)) : ∃ arrow ws x, c ≤ arrow ∧
    Between arrow ('>' :: ws) x ∧ (∀ w ∈ ws, Blank.isWhite w = true) ∧ n.span.start = x.offset := by
  simp only [usage, bind, Option.bind_eq_some_iff] at h
  obtain ⟨braces, hbraces, arrow, harrow, h⟩ := h
  split at h
  · cases h
  · cases h
    refine ⟨_, _, arrow.skipWhile Blank.isWhite, (openTag_lt hbraces).le.trans (le_optional _ _),
      (char_between harrow).trans (takeWhile_between Blank.isWhite arrow), ?_, rfl⟩
    exact List.all_eq_true.1 List.all_takeWhile

/-- The name of a usage stands behind an arrow. -/
theorem footing_usage (hregion : region.Fits text) (hu : (name, s) ∈ usagesIn text region) :
    footing text s.start = some '>' := by
  obtain ⟨⟨n, d⟩, hm, heq⟩ := List.mem_map.1 (List.mem_filter.1 hu).1
  cases heq
  obtain ⟨b, hb, hmatch⟩ := mem_searchAll moves_usage _ _ hm
  obtain ⟨arrow, ws, x, harrow, hrun, hws, hstart⟩ := usage_arrow hmatch
  obtain ⟨front, back, htext, hspan, -⟩ := stands_of_between hregion (hb.trans harrow) hrun
  rw [hstart, (Span.mk.inj hspan).2, htext]
  exact footing_eq front _ (by decide) hws

end Template

namespace Context

/-- A line of the text shows the name of the symbol as declared. -/
def Shows (text : List Char) (r : Reference) : Prop :=
  ∃ pre line post, IsLine text pre line post ∧
    (declaredPipeline (start (byteLength pre) line) = some r ∨
      declaredVariable (start (byteLength pre) line) = some r)

/-- A name that is shown as declared stands behind a word. -/
theorem Shows.footing (h : Shows text r) :
    ∃ w, isIdentChar w = true ∧ PipelineLang.footing text r.span.start = some w := by
  obtain ⟨pre, line, post, hline, hdeclared⟩ := h
  obtain ⟨-, bs, word, bs', x, hrun, -, hword, hbs', hstart⟩ := declared_run hdeclared
  obtain ⟨front, w, hfront⟩ := List.eq_nil_or_concat' word |>.resolve_left hword.1
  have hw : isIdentChar w = true := hword.2 w (by rw [hfront]; simp)
  have hrest : line = bs ++ word ++ bs' ++ x.rest := hrun.rest_eq
  have htext : text = (pre ++ (bs ++ front)) ++ w :: bs' ++ (x.rest ++ post) := by
    rw [hline.eq, hrest, hfront]
    simp
  have hoffset : x.offset = byteLength ((pre ++ (bs ++ front)) ++ w :: bs') := by
    rw [hrun.offset_eq, start, hfront, ← byteLength_append]
    simp
  refine ⟨w, hw, ?_⟩
  rw [hstart, hoffset, htext]
  exact footing_eq _ _ (not_isWhite_of_isIdentChar hw)
    fun y hy => isWhite_of_isInline (hbs'.2 y hy)

/-- A name that is shown as declared is no usage of a partial. -/
theorem Shows.not_usage (h : Shows text r) (name : String) :
    (name, r.span) ∉ usagesOfDocument text engine := by
  intro hu
  obtain ⟨region, -, hfits, hu⟩ := mem_usagesOfDocument text engine hu
  obtain ⟨w, hw, hfooting⟩ := h.footing
  rw [footing_usage hfits hu] at hfooting
  cases hfooting
  exact absurd hw (by decide)

/-- A name that is shown as declared is not that of a reference. -/
theorem Shows.not_scanned (h : Shows text r) {t : Reference} (ht : t ∈ scan text)
    (hkey : t.key = r.key) : t.span ≠ r.span := by
  obtain ⟨pre, line, post, hline, hdeclared⟩ := h
  intro heq
  obtain rfl : t = r := by
    cases t
    cases r
    cases hkey
    cases heq
    rfl
  have hfound := (mem_scan_iff_of_identifierAt hline (declared_run hdeclared).1).1 ht
  exact span_ne_of_declared hdeclared hfound rfl

/-- A cursor on a symbol is on a reference or on a name that is shown as declared. -/
theorem scanned_or_shown {symbols : SymbolTable} {o : Nat}
    (h : resolve text o symbols = some (.symbol key s)) :
    s.Spells text key.name.toList ∧ (⟨key, s⟩ ∈ scan text ∨ Shows text ⟨key, s⟩) := by
  obtain ⟨pre, line, post, hline, hmem⟩ := exists_line_of_resolve h
  have hname := identifierAt_of_mem_lineNames hmem
  refine ⟨spells_of_line hline hname, ?_⟩
  rcases mem_lineNames.1 hmem with hmem | hmem | hmem
  · exact Or.inr ⟨pre, line, post, hline, Or.inl hmem⟩
  · exact Or.inr ⟨pre, line, post, hline, Or.inr hmem⟩
  · exact Or.inl ((mem_scan_iff_of_identifierAt hline hname).2 hmem)

end Context

/-! ## Partials under a cursor -/

namespace Template

theorem definitionsIn_inside (hregion : region.Fits text) {definition : InlineDefinition}
    (h : (name, definition) ∈ definitionsIn text region) :
    region.start < definition.nameSpan.start ∧ definition.nameSpan.start < region.stop := by
  obtain ⟨⟨⟨tag, n⟩, d⟩, hm, heq⟩ := List.mem_map.1 h
  obtain ⟨b, hb, hmatch⟩ := mem_searchAll moves_inlineOpen _ _ hm
  cases heq
  obtain ⟨quote, close, hquote, hbetween, hclose, hspan, -⟩ := inlineOpen_spec hmatch
  simp only at hbetween hspan
  have hstart := offset_lt (hb.trans_lt hquote)
  have hstop := offset_le_stop ((hb.trans hquote.le).trans (hbetween.le.trans hclose.le))
  have hlt := offset_lt (hbetween.le.trans_lt hclose)
  rw [hregion.byteLength_text] at hstop
  rw [hspan]
  exact ⟨hstart, hlt.trans_le hstop⟩

/-- The name of an inline partial stands for the partial. -/
theorem resolve_of_inlineNameAt {o : Nat}
    (h : (collect (parse text).program text engine).inlineNameAt o = some (name, s, region)) :
    ∃ definition, definition.nameSpan = s ∧ region ∈ regionsOf (parse text).program engine ∧
      (name, definition) ∈ definitionsIn text region ∧
      (collect (parse text).program text engine).resolve name s.start
        = .inline definition region := by
  obtain ⟨scope, hscope, hfind⟩ := List.exists_of_findSome?_eq_some h
  obtain ⟨⟨name', definition⟩, hentry, heq⟩ := Option.map_eq_some_iff.1 hfind
  cases heq
  obtain ⟨region, hregion, hof⟩ := List.mem_filterMap.1 hscope
  have hmem := List.mem_of_find?_eq_some hentry
  rw [scopeOf_eq_some hof] at hmem ⊢
  have hdefinition := Table.mem_ofList hmem
  obtain ⟨hstart, hstop⟩ :=
    definitionsIn_inside (regionsOf_fit engine text region hregion) hdefinition
  refine ⟨definition, rfl, hregion, hdefinition, ?_⟩
  cases hinline : (collect (parse text).program text engine).inlineAt name
      definition.nameSpan.start with
  | none =>
    have hname : name ∈ (definitionsIn text region).map (·.1) := List.mem_map_of_mem hdefinition
    exact absurd hname ((inlineAt_eq_none name hregion hstart hstop).1 hinline)
  | some found =>
    obtain ⟨definition', home⟩ := found
    obtain rfl : home = region := eq_of_contains hregion (mem_of_inlineAt hinline).1 hstart hstop
      (contains_of_inlineAt hinline)
    have hlast := (Table.sorted_ofList (definitionsIn text home)).find?_of_mem hmem
    rw [find?_of_inlineAt hinline] at hlast
    cases hlast
    rw [Partials.resolve, hinline]

theorem mem_of_usageAt {o : Nat}
    (h : (collect (parse text).program text engine).usageAt region o = some (name, s)) :
    (name, s) ∈ usagesOfDocument text engine := by
  obtain ⟨⟨name', spans⟩, hentry, hfind⟩ := List.exists_of_findSome?_eq_some h
  obtain ⟨s', hs, heq⟩ := Option.map_eq_some_iff.1 hfind
  cases heq
  have hspans : (collect (parse text).program text engine).usages.find? name = some spans :=
    (Table.sorted_group _).find?_of_mem hentry
  refine mem_usagesOf.1 ?_
  rw [Partials.usagesOf, hspans]
  exact List.mem_of_find?_eq_some hs

end Template

/-! ## What is renamed -/

namespace Editor

/-- Sorting and sifting leaves the places as they are. -/
theorem exists_mem_occurrences {symbols : SymbolTable} {c : Context} :
    (∃ o ∈ occurrences symbols engine c, o.span = s) ↔
      ∃ o ∈ ofContext symbols engine c, o.span = s := by
  have hperm := List.mergeSort_perm (ofContext symbols engine c) Occurrence.le
  constructor
  · rintro ⟨o, ho, hspan⟩
    exact ⟨o, hperm.mem_iff.1 ((Occurrence.dedup_sublist _).subset ho), hspan⟩
  · rintro ⟨o, ho, rfl⟩
    exact Occurrence.exists_mem_dedup (hperm.mem_iff.2 ho)

/-- A partial that a cursor is on is one of its occurrences. -/
theorem occurs_of_partialAt {o : Nat} {c : Context}
    (h : Context.partialAt (analyze engine text).symbols.partials o = some c) :
    NamePlace text engine c.name c.span ∧
      ∃ x ∈ ofContext (analyze engine text).symbols engine c, x.span = c.span := by
  unfold Context.partialAt at h
  split at h
  · cases h
  · next home hhome =>
    split at h
    · next name s region hname =>
      cases h
      obtain ⟨definition, rfl, hregion, hmem, hresolve⟩ := resolve_of_inlineNameAt hname
      refine ⟨.inline hregion hmem, ⟨definition.nameSpan, true⟩, ?_, rfl⟩
      rw [ofContext, show (analyze engine text).symbols.partials.resolve name
        definition.nameSpan.start = _ from hresolve]
      exact List.mem_append_left _ (mem_declarations.2 ⟨rfl, rfl⟩)
    · obtain ⟨⟨name, s⟩, husage, rfl⟩ := Option.map_eq_some_iff.1 h
      have hu := mem_of_usageAt husage
      obtain ⟨region, hregion, -, huregion⟩ := mem_usagesOfDocument text engine hu
      refine ⟨.usage hu, ⟨s, false⟩, ?_, rfl⟩
      cases usage_filed hregion huregion with
      | ofInline definition defines resolves inlineOnly =>
        rw [ofContext, show (analyze engine text).symbols.partials.resolve name s.start = _
          from resolves]
        exact List.mem_append_right _ (mem_references.2 ⟨((inlineOnly region).2 rfl).2, rfl⟩)
      | ofVariable nameSpan undefined declared resolves notInline isGlobal =>
        rw [ofContext, show (analyze engine text).symbols.partials.resolve name s.start = _
          from resolves]
        refine List.mem_append_right _ (mem_references.2 ⟨List.mem_append_right _ ?_, rfl⟩)
        rw [partialUses, if_pos rfl]
        exact isGlobal
      | ofNothing undefined undeclared resolves notInline notGlobal isUnresolved =>
        rw [ofContext, show (analyze engine text).symbols.partials.resolve name s.start = _
          from resolves]
        exact mem_references.2 ⟨isUnresolved, rfl⟩

/-- A reference is an occurrence of its symbol. -/
theorem occurs_of_scanned (h : ⟨key, s⟩ ∈ scan text) :
    ∃ x ∈ ofKey (analyze engine text).symbols engine key, x.span = s := by
  refine ⟨⟨s, false⟩, ?_, rfl⟩
  refine List.mem_append_right _ (mem_references.2 ⟨List.mem_append_left _ ?_, rfl⟩)
  have hrecorded := Context.mem_recorded.2 h
  cases key with
  | pipeline name => exact hrecorded
  | typed kind name => exact hrecorded

/-- A name that is shown as declared is an occurrence of the symbol where it is that of the last
declaration. -/
theorem occurs_of_shown (h : Context.Shows text ⟨key, s⟩) :
    (∃ x ∈ ofKey (analyze engine text).symbols engine key, x.span = s) ↔
      ((parse text).program.nameSpansOf key).getLast? = some s := by
  rw [← declarationOf_eq engine text key]
  constructor
  · rintro ⟨x, hx, rfl⟩
    rcases List.mem_append.1 hx with hx | hx
    · exact (mem_declarations.1 hx).1
    · rcases List.mem_append.1 (mem_references.1 hx).1 with hscanned | hused
      · have hmem : ⟨key, x.span⟩ ∈ scan text := by
          refine Context.mem_recorded.1 ?_
          cases key with
          | pipeline name => exact hscanned
          | typed kind name => exact hscanned
        exact absurd rfl (h.not_scanned hmem rfl)
      · cases key with
        | pipeline name => cases hused
        | typed kind name =>
          rw [partialUses] at hused
          split at hused
          · refine absurd (mem_usagesOf.1 (List.mem_filter.1 hused).1) ?_
            exact h.not_usage name
          · cases hused
  · intro hlast
    exact ⟨⟨s, true⟩, List.mem_append_left _ (mem_declarations.2 ⟨hlast, rfl⟩), rfl⟩

/-- What a cursor is on occurs where it is, unless it is only shown as declared there. -/
theorem occurs_iff {o : Nat} {c : Context}
    (h : Context.resolve text o (analyze engine text).symbols = some c) :
    c.span.Fits text ∧
      ((∃ x ∈ occurrences (analyze engine text).symbols engine c, x.span = c.span) ↔
        ∀ key s, c = .symbol key s → Context.Shows text ⟨key, s⟩ →
          ((parse text).program.nameSpansOf key).getLast? = some s) := by
  rw [exists_mem_occurrences]
  cases c with
  | symbol key s =>
    obtain ⟨hspells, hscanned | hshown⟩ := Context.scanned_or_shown h
    · refine ⟨hspells.toFits, fun _ key' s' heq hshown => ?_, fun _ => occurs_of_scanned hscanned⟩
      cases heq
      exact absurd rfl (hshown.not_scanned hscanned rfl)
    · refine ⟨hspells.toFits, fun hoccurs key' s' heq _ => ?_, fun hlast => ?_⟩
      · cases heq
        exact (occurs_of_shown hshown).1 hoccurs
      · exact (occurs_of_shown hshown).2 (hlast key s rfl hshown)
  | template name s region =>
    obtain ⟨f, hpartial⟩ := Context.exists_partialAt_of_resolve h
    obtain ⟨hplace, hoccurs⟩ := occurs_of_partialAt hpartial
    refine ⟨hplace.spells.toFits, fun _ key' s' heq => ?_, fun _ => hoccurs⟩
    cases heq

/-- **What is offered for renaming is renamed, unless it is only shown as declared.** Where a name
is offered at a position and is then renamed, one of the edits is that of its range, just if the
position is not on a name that its line shows as declared, or is on the one of the last
declaration. -/
theorem offered_renamed_iff (uri engine : String) (text : List Char) (p : Position)
    (newName : String) {target : RenameTarget} {edit : WorkspaceEdit}
    (hoffer : Document.prepareRename ⟨uri, engine, text, analyze engine text⟩ p = some target)
    (hrename : Document.rename ⟨uri, engine, text, analyze engine text⟩ p newName
      = .ok (some edit)) :
    (∃ e ∈ edit.edits, e.range = target.range) ↔
      ∀ key s, Document.contextAt ⟨uri, engine, text, analyze engine text⟩ p = some (.symbol key s) →
        Context.Shows text ⟨key, s⟩ →
        ((parse text).program.nameSpansOf key).getLast? = some s := by
  obtain ⟨c, hcontext, hedits⟩ := rename_spec hrename
  obtain ⟨c', hcontext', rfl⟩ := Option.map_eq_some_iff.1 hoffer
  obtain rfl : c = c' := Option.some.inj (hcontext.symm.trans hcontext')
  obtain ⟨o, -, hresolve⟩ := Option.bind_eq_some_iff.1 hcontext
  obtain ⟨hfits, hiff⟩ := occurs_iff hresolve
  have hfit (x : Occurrence) (hx : x ∈ occurrences (analyze engine text).symbols engine c) :
      x.span.Fits text := ((occurrences_spec text engine c).2.1 x hx).spells.toFits
  rw [hcontext]
  simp only [Option.some.injEq]
  rw [← hiff, hedits]
  constructor
  · rintro ⟨e, he, hrange⟩
    obtain ⟨x, hx, rfl⟩ := List.mem_map.1 he
    exact ⟨x, hx, Range.ofSpan_inj (hfit x hx) hfits hrange⟩
  · rintro ⟨x, hx, hspan⟩
    exact ⟨_, List.mem_map_of_mem hx, congrArg (Range.ofSpan text) hspan⟩

/-! ## Names that are only shown as declared -/

/-- The renaming of occurrences that are in order. -/
theorem rename_eq {document : Document} {p : Position} {newName : String} {c : Context}
    {os : List Occurrence} (hname : isName newName = true)
    (hcontext : document.contextAt p = some c)
    (hplaces : ofContext document.symbols document.engine c = os)
    (hsorted : os.Pairwise (Occurrence.le · · = true)) :
    document.rename p newName = .ok ((nonempty ((Occurrence.dedup os).map fun o =>
      ⟨document.range o.span, newName⟩)).map (⟨document.uri, ·⟩)) := by
  rw [Document.rename, if_pos hname, Document.occurrencesAt, hcontext]
  simp only [occurrences, hplaces, List.mergeSort_of_pairwise hsorted]

/-- A document that declares a pipeline twice. -/
def declaredTwice : Document :=
  let text := "pipeline p =\npipeline p =\n".toList
  ⟨"a", "handlebars", text, analyze "handlebars" text⟩

/-- A document that declares a pipeline, below a text in which a line shows one of that name. -/
def shownInText : Document :=
  let text := "pg q = \x60\npipeline p =\n\x60\npipeline p =\n".toList
  ⟨"a", "handlebars", text, analyze "handlebars" text⟩

/-- The pipeline that is declared twice is renamed where it is declared last. -/
theorem offered_renamed_iff_declaredTwice : ∃ target edit,
    declaredTwice.prepareRename ⟨1, 9⟩ = some target ∧
      declaredTwice.rename ⟨1, 9⟩ "q" = .ok (some edit) ∧
      ∃ e ∈ edit.edits, e.range = target.range := by
  have hcontext : declaredTwice.contextAt ⟨1, 9⟩ = some (.symbol (.pipeline "p") ⟨22, 23⟩) := by
    decide +kernel
  have hplaces : ofContext declaredTwice.symbols declaredTwice.engine
      (.symbol (.pipeline "p") ⟨22, 23⟩) = [⟨⟨22, 23⟩, true⟩] := by decide +kernel
  have hoffer : declaredTwice.prepareRename ⟨1, 9⟩ = some ⟨⟨⟨1, 9⟩, ⟨1, 10⟩⟩, "p"⟩ := by
    decide +kernel
  have hrename : declaredTwice.rename ⟨1, 9⟩ "q"
      = .ok (some ⟨"a", [⟨⟨⟨1, 9⟩, ⟨1, 10⟩⟩, "q"⟩]⟩) := by
    rw [rename_eq (by decide) hcontext hplaces (List.pairwise_singleton _ _)]
    decide +kernel
  refine ⟨_, _, hoffer, hrename, ?_⟩
  refine (offered_renamed_iff "a" "handlebars" _ ⟨1, 9⟩ "q" hoffer hrename).2 fun key s h _ => ?_
  cases hcontext.symm.trans h
  decide +kernel

/-- A pipeline is offered for renaming where it is not renamed: at the first of two declarations,
and in a text that shows a declaration. -/
theorem offered_not_renamed :
    (∃ target edit, declaredTwice.prepareRename ⟨0, 9⟩ = some target ∧
      declaredTwice.rename ⟨0, 9⟩ "q" = .ok (some edit) ∧
      ¬∃ e ∈ edit.edits, e.range = target.range) ∧
    ∃ target edit, shownInText.prepareRename ⟨1, 9⟩ = some target ∧
      shownInText.rename ⟨1, 9⟩ "q" = .ok (some edit) ∧
      ¬∃ e ∈ edit.edits, e.range = target.range := by
  have hfirst : declaredTwice.contextAt ⟨0, 9⟩ = some (.symbol (.pipeline "p") ⟨9, 10⟩) := by
    decide +kernel
  have hlast : ofContext declaredTwice.symbols declaredTwice.engine
      (.symbol (.pipeline "p") ⟨9, 10⟩) = [⟨⟨22, 23⟩, true⟩] := by decide +kernel
  have hshown : shownInText.contextAt ⟨1, 9⟩ = some (.symbol (.pipeline "p") ⟨18, 19⟩) := by
    decide +kernel
  have hdeclared : ofContext shownInText.symbols shownInText.engine
      (.symbol (.pipeline "p") ⟨18, 19⟩) = [⟨⟨33, 34⟩, true⟩] := by decide +kernel
  refine ⟨⟨⟨⟨⟨0, 9⟩, ⟨0, 10⟩⟩, "p"⟩, ⟨"a", [⟨⟨⟨1, 9⟩, ⟨1, 10⟩⟩, "q"⟩]⟩, by decide +kernel, ?_,
      by decide⟩,
    ⟨⟨⟨⟨1, 9⟩, ⟨1, 10⟩⟩, "p"⟩, ⟨"a", [⟨⟨⟨3, 9⟩, ⟨3, 10⟩⟩, "q"⟩]⟩, by decide +kernel, ?_, by decide⟩⟩
  · rw [rename_eq (by decide) hfirst hlast (List.pairwise_singleton _ _)]
    decide +kernel
  · rw [rename_eq (by decide) hshown hdeclared (List.pairwise_singleton _ _)]
    decide +kernel

end Editor
end PipelineLang
