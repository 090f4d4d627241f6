import PipelineLang.Index.Context
import PipelineLang.Proofs.Index.Declared
import PipelineLang.Proofs.Reference.Line
import PipelineLang.Proofs.Source.Position

/-!
# What a cursor is on

A cursor is looked up in its line. The names of a line are whole identifiers, and each place has one
of them at most: before the name of a declaration stands a single word of the line, before that of a
reference the clue of its shape (`span_injOn_lineNames`). So the cursor is on the symbol that is
written there, whatever the order of the shapes (`resolve_iff`), and the references of the text are
found again at every cursor on them (`references_resolved`).
-/

namespace PipelineLang

open Utf8 Cursor Reference

namespace Context

variable {text : List Char} {symbols : SymbolTable} {c d : Cursor} {r t : Reference} {o : Nat}

/-! ## The line of a cursor -/

/-- The line of an offset, and where its characters before the offset end. -/
theorem lineAt_spec (text : List Char) (o : Nat) : ∃ pre post,
    IsLine text pre ((lineAt text o).1 ++ (lineAt text o).2) post ∧
      (splitFloor o text).1 = pre ++ (lineAt text o).1 := by
  obtain ⟨pre, post, hline, hfront⟩ := isLine_around (splitFloor o text).1 (splitFloor o text).2
  rw [splitFloor_append] at hline
  exact ⟨pre, post, hline, hfront⟩

/-! ## The names of a line -/

theorem mem_lineNames : t ∈ lineNames c ↔
    declaredPipeline c = some t ∨ declaredVariable c = some t ∨ t ∈ foundFrom c := by
  unfold lineNames
  split
  next toPipelines toVariables hparts =>
    have hsteps : (t ∈ inSteps c) = (t ∈ toPipelines ∨ t ∈ toVariables) :=
      (propext List.mem_partition).trans
        (congrArg (fun parts => t ∈ parts.1 ∨ t ∈ parts.2) hparts)
    simp only [List.mem_append, Option.mem_toList, foundFrom, hsteps]
    tauto

/-- What a line declares: the word that starts it, and the name behind that. -/
theorem declaredPipeline_spec (h : declaredPipeline c = some t) : ∃ word n equals,
    c.blanks.chars "pipeline".toList = some word ∧
      Grammar.declaredName word = some (n, equals) ∧ t = ⟨.pipeline n.text, n.span⟩ := by
  simp only [declaredPipeline, bind, Option.bind_eq_some_iff] at h
  obtain ⟨word, hword, ⟨n, equals⟩, hname, heq⟩ := h
  cases heq
  exact ⟨word, n, equals, hword, hname, rfl⟩

theorem declaredVariable_spec (h : declaredVariable c = some t) : ∃ kind next n equals,
    c.blanks.identifier = some (kind, next) ∧ Grammar.declaredName next = some (n, equals) ∧
      equals.blanks.peek = some tick ∧ kind.text ∉ Grammar.reservedTypes ∧
      t = ⟨.typed kind.text n.text, n.span⟩ := by
  simp only [declaredVariable, bind, Option.bind_eq_some_iff] at h
  obtain ⟨⟨kind, next⟩, hkind, ⟨n, equals⟩, hname, h⟩ := h
  split at h
  · next hvalue =>
    cases h
    simp only [Bool.and_eq_true, decide_eq_true_eq, Bool.not_eq_true', List.contains_eq_mem,
      decide_eq_false_iff_not] at hvalue
    exact ⟨kind, next, n, equals, hkind, hname, hvalue.1, hvalue.2, rfl⟩
  · cases h

/-- A line that declares a pipeline declares no variable, as `pipeline` is no type. -/
theorem declaredVariable_eq_none (h : declaredPipeline c = some t) : declaredVariable c = none := by
  obtain ⟨word, n, equals, hword, hname, -⟩ := declaredPipeline_spec h
  cases hvariable : declaredVariable c with
  | none => rfl
  | some t' =>
    obtain ⟨kind, next, n', equals', hkind, -, -, hreserved, -⟩ := declaredVariable_spec hvariable
    simp only [Grammar.declaredName, bind, Option.bind_eq_some_iff] at hname
    obtain ⟨x, hx, -⟩ := hname
    -- the blank behind `pipeline` ends the type
    rw [identifier_of_between (chars_between hword) (by decide) (peek_of_someBlanks hx)] at hkind
    cases hkind
    exact absurd (by decide : "pipeline" ∈ Grammar.reservedTypes) hreserved

/-- The name behind a word is read behind the blanks that follow it. -/
theorem declaredName_run {front : List Char} {x equals : Cursor} {n : Token}
    (hrun : Between c front x) (h : Grammar.declaredName x = some (n, equals)) :
    ∃ bs y, Between c (front ++ bs) y ∧ IsBlanks bs ∧ n.span.start = y.offset := by
  simp only [Grammar.declaredName, bind, Option.bind_eq_some_iff] at h
  obtain ⟨y, hy, ⟨n, next⟩, hn, equals, -, heq⟩ := h
  cases heq
  obtain ⟨bs, hbs, hblanks⟩ := someBlanks_spec hy
  exact ⟨bs, y, hrun.trans hbs, hblanks, by rw [(identifier_spec hn).2.1]⟩

/-- Before the name that a line declares stands one word of the line. -/
theorem declared_run (h : declaredPipeline c = some t ∨ declaredVariable c = some t) :
    IdentifierAt c t.key.name t.span ∧ ∃ bs word bs' x, Between c (bs ++ word ++ bs') x ∧
      (∀ y ∈ bs, Blank.isInline y = true) ∧ IsWord word ∧ IsBlanks bs' ∧
      t.span.start = x.offset := by
  obtain ⟨bs, hbs, hall⟩ := blanks_spec c
  rcases h with h | h
  · obtain ⟨word, n, equals, hword, hname, rfl⟩ := declaredPipeline_spec h
    have hrun := hbs.trans (chars_between hword)
    obtain ⟨bs', x, hx, hblanks, hstart⟩ := declaredName_run hrun hname
    exact ⟨(Grammar.declaredName_identifierAt hname).of_le hrun.le,
      bs, _, bs', x, hx, hall, by decide, hblanks, hstart⟩
  · obtain ⟨kind, next, n, equals, hkind, hname, -, -, rfl⟩ := declaredVariable_spec h
    obtain ⟨hbetween, -, hidentifier, -⟩ := identifier_spec hkind
    have hrun := hbs.trans hbetween
    obtain ⟨bs', x, hx, hblanks, hstart⟩ := declaredName_run hrun hname
    exact ⟨(Grammar.declaredName_identifierAt hname).of_le hrun.le,
      bs, _, bs', x, hx, hall, hidentifier.isWord, hblanks, hstart⟩

/-- A declared name has no clue of a reference before it. -/
theorem clue_declared (h : declaredPipeline c = some t ∨ declaredVariable c = some t) :
    ∃ front x, Between c front x ∧ t.span.start = x.offset ∧ clue front = [] := by
  obtain ⟨-, bs, word, bs', x, hrun, hbs, hword, hbs', hstart⟩ := declared_run h
  exact ⟨_, x, hrun, hstart, clue_word hbs hword hbs'⟩

/-- The names of a line are whole identifiers. -/
theorem identifierAt_of_mem_lineNames (h : t ∈ lineNames c) : IdentifierAt c t.key.name t.span := by
  rcases mem_lineNames.1 h with h | h | h
  · exact (declared_run (Or.inl h)).1
  · exact (declared_run (Or.inr h)).1
  · exact identifierAt_of_mem h

/-- No declared name of a line is the name of a reference. -/
theorem span_ne_of_declared (h : declaredPipeline c = some t ∨ declaredVariable c = some t)
    (hr : r ∈ foundFrom c) : t.span ≠ r.span := by
  intro heq
  obtain ⟨front, x, hrun, hx, hclue⟩ := clue_declared h
  obtain ⟨front', x', hrun', hx', hclue'⟩ := clue_of_mem hr
  obtain rfl : x = x' := eq_of_offset_eq hrun.le hrun'.le (by rw [← hx, ← hx', heq])
  rw [← hrun.run_eq hrun', hclue] at hclue'
  exact absurd hclue' (by decide)

/-- A name of a line is that of a reference of the line just if it is one of a reference of the text. -/
theorem mem_scan_iff_of_identifierAt {pre line post : List Char} (hline : IsLine text pre line post)
    (h : IdentifierAt (start (byteLength pre) line) r.key.name r.span) :
    r ∈ scan text ↔ r ∈ foundFrom (start (byteLength pre) line) := by
  obtain ⟨hstart, hstop⟩ := h.within
  have hlt := h.start_lt_stop
  simp only [start] at hstart hstop
  refine hline.mem_scan_iff ?_ ?_
  · rw [byteLength_append]
    omega
  · omega

/-- **A place of a line has one name at most.** -/
theorem span_injOn_lineNames {pre line post : List Char} (hline : IsLine text pre line post)
    (hr : r ∈ lineNames (start (byteLength pre) line))
    (ht : t ∈ lineNames (start (byteLength pre) line)) (heq : t.span = r.span) : t = r := by
  rcases mem_lineNames.1 hr with hr | hr | hr
  · rcases mem_lineNames.1 ht with ht | ht | ht
    · rw [hr] at ht
      exact (Option.some.inj ht).symm
    · rw [declaredVariable_eq_none hr] at ht
      cases ht
    · exact absurd heq.symm (span_ne_of_declared (Or.inl hr) ht)
  · rcases mem_lineNames.1 ht with ht | ht | ht
    · rw [declaredVariable_eq_none ht] at hr
      cases hr
    · rw [hr] at ht
      exact (Option.some.inj ht).symm
    · exact absurd heq.symm (span_ne_of_declared (Or.inr hr) ht)
  · rcases mem_lineNames.1 ht with ht | ht | ht
    · exact absurd heq (span_ne_of_declared (Or.inl ht) hr)
    · exact absurd heq (span_ne_of_declared (Or.inr ht) hr)
    · have hrtext := (mem_scan_iff_of_identifierAt hline (identifierAt_of_mem hr)).2 hr
      have httext := (mem_scan_iff_of_identifierAt hline (identifierAt_of_mem ht)).2 ht
      exact eq_of_span_eq httext hrtext heq

/-- Where a name is read on a line it is written in the text. -/
theorem spells_of_line {pre line post : List Char} {name : String} {s : Span}
    (hline : IsLine text pre line post) (h : IdentifierAt (start (byteLength pre) line) name s) :
    s.Spells text name.toList := by
  obtain ⟨x, n, y, hx, hn, -, rfl, rfl⟩ := h
  obtain ⟨hbetween, hspan, -, -⟩ := identifier_spec hn
  obtain ⟨front, hfront⟩ := exists_run hx
  have hrest : line = front ++ n.text.toList ++ y.rest := (hfront.trans hbetween).rest_eq
  have hoffset := hfront.offset_eq
  have hoffset' := (hfront.trans hbetween).offset_eq
  rw [start, ← byteLength_append] at hoffset hoffset'
  have htext : text = (pre ++ front) ++ n.text.toList ++ (y.rest ++ post) := by
    rw [hline.eq, hrest]
    simp only [List.append_assoc]
  rw [hspan, hoffset, hoffset', htext, ← List.append_assoc pre front n.text.toList]
  exact Span.spells_append _ _ _

/-! ## What a cursor is on -/

theorem find?_eq_some_of_unique {α : Type} {as : List α} {p : α → Bool} {a : α} (ha : a ∈ as)
    (hp : p a = true) (hunique : ∀ b ∈ as, p b = true → b = a) : as.find? p = some a := by
  cases hfind : as.find? p with
  | none => exact absurd hp (List.find?_eq_none.1 hfind a ha)
  | some b => rw [hunique b (List.mem_of_find?_eq_some hfind) (List.find?_some hfind)]

/-- A cursor is looked up among the names of its line. -/
theorem resolve_eq (symbols : SymbolTable) (ho : o ≤ byteLength text) : ∃ pre line post f,
    IsLine text pre line post ∧ f = byteLength (splitFloor o text).1 ∧ byteLength pre ≤ f ∧
      f ≤ byteLength (pre ++ line) ∧ resolve text o symbols =
        match (lineNames (start (byteLength pre) line)).find? (·.span.contains f) with
        | some r => some (.symbol r.key r.span)
        | none => partialAt symbols.partials f := by
  obtain ⟨pre, post, hline, hfront⟩ := lineAt_spec text o
  have hlen := congrArg byteLength hfront
  rw [byteLength_append] at hlen
  refine ⟨pre, _, post, _, hline, rfl, by omega, ?_, ?_⟩
  · rw [hfront, ← List.append_assoc, byteLength_append _ (lineAt text o).2]
    exact Nat.le_add_right ..
  · rw [Nat.eq_sub_of_add_eq hlen.symm]
    exact if_neg (Nat.not_lt.2 ho)

theorem partialAt_ne_symbol (p : Template.Partials) (o : Nat) {key : SymbolKey} {s : Span} :
    partialAt p o ≠ some (.symbol key s) := by
  intro h
  unfold partialAt at h
  split at h
  · cases h
  · split at h
    · cases h
    · obtain ⟨found, -, heq⟩ := Option.map_eq_some_iff.1 h
      cases heq

/-- A cursor that is on something is in the text. -/
theorem le_of_resolve {k : Context} (h : resolve text o symbols = some k) :
    o ≤ byteLength text := by
  by_contra hlt
  rw [resolve, if_pos (Nat.lt_of_not_le hlt)] at h
  cases h

/-- A cursor that is on a symbol is on one of the names of a line. -/
theorem exists_line_of_resolve {key : SymbolKey} {s : Span}
    (h : resolve text o symbols = some (.symbol key s)) : ∃ pre line post,
      IsLine text pre line post ∧ ⟨key, s⟩ ∈ lineNames (start (byteLength pre) line) := by
  obtain ⟨pre, line, post, f, hline, -, -, -, hresolve⟩ := resolve_eq symbols (le_of_resolve h)
  rw [hresolve] at h
  split at h
  · next r hfind =>
    cases h
    exact ⟨pre, line, post, hline, List.mem_of_find?_eq_some hfind⟩
  · exact absurd h (partialAt_ne_symbol _ _)

/-- A cursor that is on a partial is found among the partials. -/
theorem exists_partialAt_of_resolve {name : String} {s region : Span}
    (h : resolve text o symbols = some (.template name s region)) :
    ∃ f, partialAt symbols.partials f = some (.template name s region) := by
  obtain ⟨pre, line, post, f, -, -, -, -, hresolve⟩ := resolve_eq symbols (le_of_resolve h)
  rw [hresolve] at h
  split at h
  · cases h
  · exact ⟨f, h⟩

/-- **The cursor is on the name that is written there.** A cursor on a whole identifier of the text is
on the symbol of that name if the line has it among its names, whichever shape comes first. -/
theorem resolve_iff (symbols : SymbolTable)
    (hname : IdentifierAt (start 0 text) r.key.name r.span) (ho : r.span.contains o = true) :
    ∃ pre line post, IsLine text pre line post ∧ r.span.start ≤ byteLength (pre ++ line) ∧
      byteLength pre ≤ r.span.stop ∧ (resolve text o symbols = some (.symbol r.key r.span) ↔
        r ∈ lineNames (start (byteLength pre) line)) := by
  have hfits := hname.spells.toFits
  simp only [Span.contains, Bool.and_eq_true, decide_eq_true_eq] at ho
  obtain ⟨pre, line, post, f, hline, hf, hpre, hpost, hresolve⟩ :=
    resolve_eq symbols (ho.2.trans hfits.stop_le)
  have hstart : r.span.start ≤ f := hf ▸ le_byteLength_splitFloor hfits.start_boundary ho.1
  have hstop : f ≤ r.span.stop := hf ▸ (byteLength_splitFloor_le o text).trans ho.2
  have hcontains : r.span.contains f = true := by simp [Span.contains, hstart, hstop]
  refine ⟨pre, line, post, hline, hstart.trans hpost, hpre.trans hstop, ?_⟩
  rw [hresolve]
  constructor
  · intro hsome
    split at hsome
    · next t hfind =>
      obtain ⟨hkey, hspan⟩ := Context.symbol.inj (Option.some.inj hsome)
      obtain rfl : t = r := by
        cases t
        cases r
        cases hkey
        cases hspan
        rfl
      exact List.mem_of_find?_eq_some hfind
    · exact absurd hsome (partialAt_ne_symbol _ _)
  · intro hr
    have hunique : ∀ t ∈ lineNames (start (byteLength pre) line),
        t.span.contains f = true → t = r := by
      intro t ht htf
      have heq := (identifierAt_of_mem_lineNames ht).eq_of_contains
        (identifierAt_of_mem_lineNames hr) htf hcontains
      exact span_injOn_lineNames hline hr ht heq.2
    rw [find?_eq_some_of_unique hr hcontains hunique]

/-- A cursor on the name of a reference of the text is on its symbol. -/
theorem resolve_reference (symbols : SymbolTable) (hr : r ∈ scan text)
    (ho : r.span.contains o = true) :
    resolve text o symbols = some (.symbol r.key r.span) := by
  obtain ⟨pre, line, post, hline, hstart, hstop, hiff⟩ :=
    resolve_iff symbols (identifierAt_of_mem (mem_scan.1 hr)) ho
  exact hiff.2 (mem_lineNames.2 (Or.inr (Or.inr ((hline.mem_scan_iff hstart hstop).1 hr))))

/-- The spans that are recorded for a symbol are those of the references to it. -/
theorem mem_recorded {key : SymbolKey} {s : Span} :
    s ∈ (Grammar.recorded text).spansOf key ↔ ⟨key, s⟩ ∈ scan text := by
  refine ⟨fun h => ?_, fun h => ReferenceTable.mem_spansOf h⟩
  cases key with
  | pipeline name => exact ReferenceTable.mem_pipelines.1 h
  | typed kind name =>
    obtain ⟨kind', name', hr, hkey⟩ := ReferenceTable.mem_typed.1 h
    -- the type and the name of a reference have no colon, so the text of its key determines both
    have hkind : IsIdentifier kind' := (marked_scan text).typed _ hr
    have hname : IsIdentifier name' := (identifierAt_of_mem (mem_scan.1 hr)).isIdentifier
    obtain ⟨rfl, rfl⟩ := SymbolKey.joinVariable_inj hkind.not_colon hname.not_colon hkey.symm
    exact hr

/-- **Every reference is found at its name.** A cursor anywhere on a span that is recorded for a
pipeline or a variable, also right behind it, is on that symbol and that span, whatever else is known
of the document. -/
theorem references_resolved (text : List Char) (symbols : SymbolTable) {s : Span} {o : Nat}
    (ho : s.contains o = true) :
    (∀ name, s ∈ ((Grammar.recorded text).pipelines.find? name).getD [] →
      resolve text o symbols = some (.symbol (.pipeline name) s)) ∧
    ∀ kind name, s ∈ ((Grammar.recorded text).typed.find?
        (SymbolKey.joinVariable kind name)).getD [] →
      resolve text o symbols = some (.symbol (.typed kind name) s) := by
  have hall (key : SymbolKey) (hs : s ∈ (Grammar.recorded text).spansOf key) :
      resolve text o symbols = some (.symbol key s) :=
    resolve_reference symbols (mem_recorded.1 hs) ho
  exact ⟨fun name => hall (.pipeline name), fun kind name => hall (.typed kind name)⟩

/-- Right behind the name of a step, and on that of a mocked variable. -/
theorem references_resolved_ends :
    let text := "GET /a\n  |> pipeline: p\n\nwith mock pg.q returning".toList
    let symbols := (analyze defaultEngine text).symbols
    Span.contains ⟨22, 23⟩ 23 = true ∧ Span.contains ⟨38, 39⟩ 38 = true ∧
      resolve text 23 symbols = some (.symbol (.pipeline "p") ⟨22, 23⟩) ∧
      resolve text 38 symbols = some (.symbol (.typed "pg" "q") ⟨38, 39⟩) := by
  intro text symbols
  have hstep : ⟨.pipeline "p", ⟨22, 23⟩⟩ ∈ scan text := mem_scan.2 (by decide +kernel)
  have hmock : ⟨.typed "pg" "q", ⟨38, 39⟩⟩ ∈ scan text := mem_scan.2 (by decide +kernel)
  refine ⟨by decide, by decide, ?_, ?_⟩
  · exact (references_resolved text symbols (by decide)).1 "p" (ReferenceTable.mem_pipelines.2 hstep)
  · exact (references_resolved text symbols (by decide)).2 "pg" "q"
      (ReferenceTable.mem_typed.2 ⟨"pg", "q", hmock, rfl⟩)

end Context
end PipelineLang
