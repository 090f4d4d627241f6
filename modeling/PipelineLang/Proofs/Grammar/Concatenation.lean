import PipelineLang.Proofs.Grammar.Backticks
import PipelineLang.Proofs.Grammar.Coverage
import PipelineLang.Proofs.Grammar.SuiteLocality
import PipelineLang.Proofs.Table

/-!
# Documents behind one another

If a text ends its last line, holds no suite and nothing that is broken off, and the text behind it
opens afresh, then what is read of the two together is what is read of the first, followed by what
is read of the second, shifted by the bytes of the first (`parse_append`).
-/

namespace PipelineLang

instance : Framed Grammar.Item := .shifted Grammar.Item.shift

namespace Grammar

open Cursor Utf8

variable {front back : List Char} {c d : Cursor}

theorem closed_nil (c : Cursor) : Closed [] c := Or.inl rfl

/-! ## Items -/

/-- No declaration starts with a bar. -/
theorem declaration_of_bar {xs : List Char} (hc : c.rest = '|' :: xs) : declaration c = none := by
  have hname : c.identifier = none := by
    rw [identifier_eq, peek, hc]
    rfl
  have hconfig : c.keyword "config".toList = none := keyword_of_head hc (by decide)
  have hpipeline : c.keyword "pipeline".toList = none := keyword_of_head hc (by decide)
  have hdescribe : c.keyword "describe".toList = none := keyword_of_head hc (by decide)
  simp only [declaration, config, namedPipeline, typedVariable, route, method,
    suite, spacedWord, bind,
    hname, hconfig, hpipeline, hdescribe, Option.bind_none, Option.map_none, Option.or_none]

/-- A step that is broken off ends up as a line that starts no declaration. -/
theorem Stuck.unrecognized (h : Stuck c) : ∃ r d, item c = some (.unrecognized r, d) := by
  obtain ⟨xs, hrest⟩ := h.head
  exact ⟨_, _, item_of_line (by rw [hrest]; exact List.cons_ne_nil _ _) (declaration_of_bar hrest)⟩

/-- No variable is read where a suite is: its first word names no type. -/
theorem typedVariable_of_describe (h : c.keyword "describe".toList = some d) :
    typedVariable c = none := by
  simp only [typedVariable, bind, identifier_of_keyword (by decide : IsIdentifier "describe") h,
    Option.bind_some]
  rw [if_pos (by decide)]

/-- Where no variable is read but a route or a suite, none is read in the larger text either. -/
theorem typedVariable_or_other_within (hback : OpensAfresh back) (h : Closed back c)
    (hread : back = [] ∨ typedVariable c ≠ none ∨ route c ≠ none ∨ suite c ≠ none)
    (hclear : ∀ v rs d, route c = some (v, rs, d) → typedVariable c = none → Clear back d) :
    Agrees front back (typedVariable c) (typedVariable (c.within front back)) := by
  by_cases hv : back = [] ∨ typedVariable c ≠ none
  · exact typedVariable_within h hv
  · obtain ⟨hback', hnone⟩ := not_or.1 hv
    rw [not_not] at hnone
    have hnone' : typedVariable (c.within front back) = none := by
      rcases (hread.resolve_left hback').resolve_left (not_not.2 hnone) with hroute | hsuite
      · obtain ⟨heq, -⟩ : Agrees front back (route c) (route (c.within front back)) :=
          route_within hback h fun v rs d hr => hclear v rs d hr hnone
        exact typedVariable_of_route (by rwa [heq, Ne, Option.map_eq_none_iff])
      · obtain ⟨r, hr⟩ := Option.ne_none_iff_exists'.1 hsuite
        obtain ⟨title, body, htitle, -⟩ := suite_spec (d := r.2.2) hr
        obtain ⟨next, hword, -⟩ := Option.bind_eq_some_iff.1 htitle
        obtain ⟨e, hdescribe, -⟩ := spacedWord_spec hword
        obtain ⟨heq, -⟩ : Agrees front back (c.keyword "describe".toList) _ :=
          h.keyword (by decide)
        rw [hdescribe] at heq
        exact typedVariable_of_describe heq
    rw [hnone, hnone']
    exact Agrees.none

/-- Readers agree on items if they do on what the items are made of. -/
theorem agrees_item {α : Type} [Framed α] {x y : Option (α × List SyntaxReport × Cursor)}
    {g : α → List SyntaxReport → Item} (h : Agrees front back x y)
    (hg : ∀ a rs, g (Framed.within front back a) (rs.map (·.shift (byteLength front)))
      = (g a rs).shift (byteLength front)) :
    Agrees front back (x.map fun (v, rs, next) => (g v rs, next))
      (y.map fun (v, rs, next) => (g v rs, next)) :=
  h.map fun r hr => ⟨Prod.ext (hg r.1 r.2.1) rfl, trivial, hr.2.2⟩

/-- A declaration of a text is one of a larger text, if it leaves no step broken off, and if its
configuration or its suite is one. -/
theorem declaration_within (hback : OpensAfresh back) (h : Closed back c)
    (hread : back = [] ∨ ∃ i d, declaration c = some (i, d) ∧ ¬Stuck d)
    (hconfig : Agrees front back (config c) (config (c.within front back)))
    (hsuite : declaration c = (suite c).map (fun (v, rs, next) => (.suite v rs, next)) →
      Agrees front back (suite c) (suite (c.within front back))) :
    Agrees front back (declaration c) (declaration (c.within front back)) := by
  have hclear : ∀ i d, declaration c = some (i, d) → Clear back d := by
    intro i d hi
    refine hread.imp_right fun ⟨j, e, hj, hstuck⟩ => ?_
    rw [hi] at hj
    cases hj
    exact hstuck
  rw [declaration, declaration]
  refine Agrees.or (Agrees.or (Agrees.or (Agrees.or ?_ fun hconfig => ?_) fun hpipeline => ?_)
    fun hvariable => ?_) fun hroute => ?_
  · exact agrees_item hconfig fun _ _ => rfl
  · refine agrees_item (namedPipeline_within hback h fun v rs d hv => ?_) fun _ _ => rfl
    refine hclear (.pipeline v rs) d ?_
    rw [declaration, hconfig, hv]
    rfl
  · refine (typedVariable_or_other_within hback h ?_ fun v rs d hv hnone => ?_).map
      fun r hr => ⟨rfl, trivial, hr.2⟩
    · refine hread.imp_right fun ⟨i, d, hi, _⟩ => ?_
      by_contra hneither
      obtain ⟨hv, hother⟩ := not_or.1 hneither
      obtain ⟨hr, hs⟩ := not_or.1 hother
      rw [declaration, hpipeline, not_not.1 hv, not_not.1 hr, not_not.1 hs] at hi
      cases hi
    · refine hclear (.route v rs) d ?_
      rw [declaration, hpipeline, hnone, hv]
      rfl
  · refine agrees_item (route_within hback h fun v rs d hv => ?_) fun _ _ => rfl
    refine hclear (.route v rs) d ?_
    rw [declaration, hvariable, hv]
    rfl
  · refine agrees_item (hsuite ?_) fun _ _ => rfl
    rw [declaration, hroute, Option.none_or]

/-- With text in front, and none behind, each item is the same but for its place. -/
theorem item_within (c : Cursor) : Agrees front [] (item c) (item (c.within front [])) := by
  have hopens : OpensAfresh [] := isFresh_nil
  have hlayout := closed_nil c.layout
  have hend : (c.layout.within front []).atEnd = c.layout.atEnd := by
    rw [atEnd, within, List.append_nil, atEnd]
  rw [item, item, (closed_nil c).layout_eq (Or.inl rfl)]
  simp only [hend]
  split
  · exact Agrees.none
  · have hconfig : Agrees front [] (config c.layout) _ :=
      config_within hopens hlayout (Or.inl (Or.inl rfl))
    have hsuite : Agrees front [] (suite c.layout) _ :=
      suite_within isVoid_nil hlayout (Or.inl rfl)
    rcases (declaration_within hopens hlayout (Or.inl rfl) hconfig fun _ => hsuite :
      Agrees front [] _ _).cases with ⟨hx, hy⟩ | ⟨r, hx, hy, hr⟩
    · simp only [hx, hy, unrecognizedLine, hlayout.line, hlayout.lineEnd_within, offset_within,
        ← Span.ofLength_shift]
      exact Agrees.some ⟨trivial, hlayout.lineEnd⟩
    · simp only [hx, hy]
      exact Agrees.some hr

theorem item_congr (h : c.layout = d.layout) : item c = item d := by
  rw [item, item, h]

/-- What is read from a cursor on depends on the place behind its layout only. -/
theorem many_item_congr (h : c.layout = d.layout) : (c.many item).1 = (d.many item).1 := by
  have hitem := item_congr h
  cases hd : item d with
  | none => rw [many_of_none (hitem.trans hd), many_of_none hd]
  | some r =>
    obtain ⟨i, e⟩ := r
    rw [hd] at hitem
    rw [many_of_lt hitem (item_lt hitem), many_of_lt hd (item_lt hd)]

/-- The configurations and the suites of the text are the same in a larger text. -/
structure BlocksAgree (text back : List Char) : Prop where
  config : ∀ c, Comes item (start 0 text) c → Closed back c.layout →
    Agrees [] back (config c.layout) (config (c.layout.within [] back))
  suite : ∀ c v rs d, Comes item (start 0 text) c → Closed back c.layout →
    suite c.layout = some (v, rs, d) → item c = some (.suite v rs, d) →
    Agrees [] back (suite c.layout) (suite (c.layout.within [] back))

/-- An item that is a declaration and leaves no step broken off is read as if nothing stood behind
the text. -/
theorem item_append {text : List Char} (hback : OpensAfresh back) (hblocks : BlocksAgree text back)
    (hcomes : Comes item (start 0 text) c) (hc : Closed back c ∨ c.rest = []) {i : Item}
    (hread : item c = some (i, d)) (hrecognized : i.unrecognizedSpan? = none) (hstuck : ¬Stuck d) :
    item (c.within [] back) = some (i, d.within [] back) ∧ Closed back d := by
  obtain ⟨hend, hdeclaration⟩ := item_cases hread
  have hrest : c.layout.rest ≠ [] := by
    intro hnil
    rw [atEnd, hnil] at hend
    cases hend
  have hclosed : Closed back c := by
    refine hc.resolve_right fun hnil => hrest ?_
    rw [layout_of_rest_nil hnil, hnil]
  have hlayout := hclosed.layout (Or.inr hrest)
  have hi : declaration c.layout = some (i, d) := by
    refine hdeclaration.resolve_right ?_
    rintro ⟨-, hline⟩
    cases hline
    cases hrecognized
  obtain ⟨heq, hd⟩ : Agrees [] back (declaration c.layout) _ := by
    refine declaration_within hback hlayout (Or.inr ⟨i, d, hi, hstuck⟩)
      (hblocks.config c hcomes hlayout) fun hsuite => ?_
    rw [hi] at hsuite
    obtain ⟨⟨v, rs, e⟩, hv, heq⟩ := Option.map_eq_some_iff.1 hsuite.symm
    cases heq
    exact hblocks.suite c v rs d hcomes hlayout hv hread
  refine ⟨item_of_declaration ?_, (hd _ hi).2⟩
  rw [hclosed.layout_eq (Or.inr hrest), heq, hi]
  simp only [Option.map_some, Framed.within, byteLength, Item.shift_zero]

/-- Where all items are declarations, they are read as if nothing stood behind the text; then what
stands there is read. -/
theorem many_item_append {text : List Char} (hback : OpensAfresh back)
    (hblocks : BlocksAgree text back) (hrecognized : ∀ i ∈ items text, i.unrecognizedSpan? = none)
    (c : Cursor) : Comes item (start 0 text) c → (Closed back c ∨ c.rest = []) →
      ((c.within [] back).many item).1
        = (c.many item).1 ++ (((c.many item).2.layout.within [] back).many item).1 := by
  refine many_induction (motive := fun c r => Comes item (start 0 text) c →
    (Closed back c ∨ c.rest = []) → ((c.within [] back).many item).1
      = r.1 ++ ((r.2.layout.within [] back).many item).1) (fun _ _ _ => item_lt) ?_ ?_ c
  · intro c _ _ hc
    exact many_item_congr (layout_within hc)
  · intro c i d hread hlt ih hcomes hc
    have hnext : Comes item (start 0 text) d := hcomes.tail ⟨i, hread⟩
    have hstuck : ¬Stuck d := by
      intro hstuck
      obtain ⟨r, e, hr⟩ := hstuck.unrecognized
      cases hrecognized _ (hnext.mem_many (fun _ _ _ => item_lt) hr)
    obtain ⟨hitem, hd⟩ := item_append hback hblocks hcomes hc hread
      (hrecognized i (hcomes.mem_many (fun _ _ _ => item_lt) hread)) hstuck
    rw [many_of_lt hitem (item_lt hitem), ih hnext (Or.inl hd)]
    rfl

/-- Behind a text that is empty or ends with a line feed, another text stands as at its own start. -/
theorem end_within {a : List Char} (ha : a = [] ∨ EndsInLineFeed a) (b : List Char) :
    ((start 0 a).skip a.length).within [] b = (start 0 b).within a [] := by
  have hend : (start 0 a).skip a.length = ⟨byteLength a, 0, a.getLast?, []⟩ := by
    rcases ha with rfl | ha
    · rfl
    · obtain ⟨front, rfl⟩ := List.getLast?_eq_some_iff.1 ha
      have hrest : ((start 0 (front ++ ['\n'])).skip front.length).rest = ['\n'] := by
        rw [rest_skip, start, List.drop_left]
      have hoffset : ((start 0 (front ++ ['\n'])).skip front.length).offset = byteLength front := by
        rw [offset_skip, start, List.take_left, Nat.zero_add]
      rw [List.length_append, List.length_singleton, ← skip_skip, skip_succ hrest, skip_zero,
        Cursor.step, hoffset, byteLength_append, List.getLast?_concat]
      rfl
  rw [hend]
  simp only [within, start, byteLength, List.nil_append, List.append_nil, List.getLast?_nil,
    Option.or_none, Option.none_or, Nat.zero_add, Nat.add_zero]

theorem items_append_of_blocks {a b : List Char} (ha : a = [] ∨ EndsInLineFeed a)
    (hrecognized : ∀ i ∈ items a, i.unrecognizedSpan? = none) (hblocks : BlocksAgree a b)
    (hb : OpensAfresh b) :
    items (a ++ b) = items a ++ (items b).map (Item.shift (byteLength a)) := by
  have hstart : Closed b (start 0 a) ∨ (start 0 a).rest = [] := by
    rcases ha with ha | ha
    · exact Or.inr ha
    · exact Or.inl (Or.inr ha)
  -- the cursor that the items of `a` leave is at the end of `a`
  have hend : ((start 0 a).many item).2.layout = (start 0 a).skip a.length := by
    obtain ⟨-, hatEnd⟩ := many_item_tiling (start 0 a)
    obtain ⟨run, hrun, -, hskip⟩ := exists_between
      ((le_many (fun _ _ _ => item_lt) (start 0 a)).trans (le_layout _))
    rw [List.isEmpty_iff.1 hatEnd, List.append_nil] at hrun
    rw [hskip, ← hrun]
    rfl
  have hsecond := many_within a (fun _ _ _ => item_lt) (closed_nil (start 0 b))
    fun c _ _ => item_within c
  rw [items, show start 0 (a ++ b) = (start 0 a).within [] b from rfl,
    many_item_append hb hblocks hrecognized (start 0 a) .refl hstart, hend, end_within ha,
    hsecond.1]
  rfl

/-- A declaration that is no suite. -/
def Item.IsPlain (i : Item) : Prop := i.asSuite? = none ∧ i.unrecognizedSpan? = none

theorem items_append {a b : List Char} (ha : a = [] ∨ EndsLine a)
    (hplain : ∀ i ∈ items a, i.IsPlain) (hb : OpensAfresh b) :
    items (a ++ b) = items a ++ (items b).map (Item.shift (byteLength a)) := by
  refine items_append_of_blocks (ha.imp_right EndsLine.endsInLineFeed)
    (fun i hi => (hplain i hi).2) ⟨fun c hc hclosed => ?_, fun c v rs d hc _ _ hread => ?_⟩ hb
  · refine config_within hb hclosed (Or.inl ?_)
    have hle : start 0 a ≤ c.layout := (hc.le fun _ _ _ => item_lt).trans (le_layout c)
    rcases ha with rfl | ha
    · have hend := rest_suffix hle
      rw [start, List.suffix_nil] at hend
      exact hclosed.imp_right fun hfeed => absurd hend hfeed.ne_nil
    · exact Sealed.of_le (Or.inr ha) hle hclosed
  · cases (hplain _ (hc.mem_many (fun _ _ _ => item_lt) hread)).1

/-! ## Documents -/

/-- Without suites and unrecognized lines, all items are plain. -/
theorem isPlain_of_reports {a : List Char} (hsuites : (parse a).program.suites = [])
    (hreports : ∀ r ∈ (parse a).reports, r.isUnrecognized = false) : ∀ i ∈ items a, i.IsPlain := by
  have hlines : (items a).filterMap Item.unrecognizedSpan? = [] := by
    rw [← unrecognizedSpans_parse, Parse.unrecognizedSpans, List.filter_eq_nil_iff.2]
    · rfl
    · exact fun r hr => by rw [hreports r hr]; exact Bool.false_ne_true
  exact fun i hi => ⟨List.filterMap_eq_nil_iff.1 hsuites i hi,
    List.filterMap_eq_nil_iff.1 hlines i hi⟩

/-- A table of sites of two runs of items, of which the second is shifted. -/
theorem find?_sites {site? : Item → Option (String × Site)} {n : Nat}
    (hshift : ∀ i : Item, site? (i.shift n) = (site? i).map fun (name, s) => (name, s.shift n))
    (is js : List Item) (name : String) :
    (Table.ofList ((is ++ js.map (Item.shift n)).filterMap site?)).find? name
      = (((Table.ofList (js.filterMap site?)).find? name).map (Site.shift n)).or
          ((Table.ofList (is.filterMap site?)).find? name) := by
  have hjs : (js.map (Item.shift n)).filterMap site?
      = (js.filterMap site?).map fun (name, s) => (name, s.shift n) := by
    rw [List.filterMap_map, List.map_filterMap]
    exact congrArg (List.filterMap · js) (funext hshift)
  rw [Table.find?_ofList, Table.find?_ofList, Table.find?_ofList, List.filterMap_append, hjs,
    List.reverse_append, Table.findIn_append, ← List.map_reverse, Table.findIn_map]

/-- **Declarations parse independently of what stands before and behind them.** Let `a` be empty or
end with a line feed that no backslash stands in front of, and hold no suite, no line that starts no
declaration and no unclosed backtick; let `b` not start with an arrow, a closing brace, or a name
before a parenthesis or a colon. Then the declarations of `a ++ b` are those of `a`, followed in
each list by those of `b` with all spans shifted by the bytes of `a`; so are the reports; and a name
stands in a table where that of `b` has it, or else where that of `a` has it. -/
theorem parse_append {a b : List Char} (ha : a = [] ∨ EndsLine a)
    (hsuites : (parse a).program.suites = [])
    (hreports : ∀ r ∈ (parse a).reports, r.isUnrecognized = false ∧ r.fault ≠ .unclosedBacktick)
    (hb : OpensAfresh b) :
    (parse (a ++ b)).program
        = (parse a).program.append ((parse b).program.shift (byteLength a)) ∧
    (parse (a ++ b)).reports
        = (parse a).reports ++ (parse b).reports.map (SyntaxReport.shift (byteLength a)) ∧
    (∀ name, (parse (a ++ b)).pipelineSites.find? name
        = (((parse b).pipelineSites.find? name).map (Site.shift (byteLength a))).or
            ((parse a).pipelineSites.find? name)) ∧
    ∀ name, (parse (a ++ b)).variableSites.find? name
        = (((parse b).variableSites.find? name).map (Site.shift (byteLength a))).or
            ((parse a).variableSites.find? name) := by
  have hitems := items_append ha (isPlain_of_reports hsuites fun r hr => (hreports r hr).1) hb
  have hticks : unclosedTick a = [] := by
    refine List.eq_nil_iff_forall_not_mem.2 fun r hr => ?_
    exact (hreports r (List.mem_append_right _ hr)).2 (fault_of_mem_unclosedTick hr)
  refine ⟨?_, ?_, fun name => ?_, fun name => ?_⟩
  · simp only [parse, hitems, programOfItems_append, programOfItems_map_shift]
  · simp only [parse, hitems, unclosedTick_append b hticks, hticks, List.flatMap_append,
      List.flatMap_map, Item.reports_shift, List.append_nil, List.map_append, List.map_flatMap,
      List.append_assoc]
  · simp only [parse, hitems]
    exact find?_sites (Item.pipelineSite?_shift _) _ _ name
  · simp only [parse, hitems]
    exact find?_sites (Item.variableSite?_shift _) _ _ name

/-- A block that is left open at the end of the first text does not reach into the second. -/
theorem parse_append_openConfig :
    (parse ("pipeline p =\n  |> jq: \x60.\x60\nconfig c \x7b\n".toList
        ++ "# next\nGET /x\n  |> result\n".toList)).reports
      = (parse "pipeline p =\n  |> jq: \x60.\x60\nconfig c \x7b\n".toList).reports
        ++ (parse "# next\nGET /x\n  |> result\n".toList).reports.map (SyntaxReport.shift 37) := by
  have hreports : (parse "pipeline p =\n  |> jq: \x60.\x60\nconfig c \x7b\n".toList).reports
      = [⟨.unclosedConfig "c", ⟨26, 34⟩⟩] := by decide +kernel
  refine (parse_append (a := "pipeline p =\n  |> jq: \x60.\x60\nconfig c \x7b\n".toList)
    (Or.inr ⟨"pipeline p =\n  |> jq: \x60.\x60\nconfig c \x7b".toList, by decide, by decide⟩)
    (List.isEmpty_iff.1 (by decide +kernel)) ?_ ?_).2.1
  · rw [hreports]
    decide
  · have hbehind : (((start 0 "# next\nGET /x\n  |> result\n".toList).layout.rest.dropWhile
        isIdentChar).dropWhile Blank.isInline).head? = some '/' := by decide
    refine ⟨by decide, by decide, fun _ => ?_⟩
    rw [hbehind]
    rintro x ⟨⟩
    decide

end Grammar
end PipelineLang
