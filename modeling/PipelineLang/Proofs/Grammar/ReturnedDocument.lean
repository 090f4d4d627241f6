import PipelineLang.Proofs.Grammar.Indentation
import PipelineLang.Proofs.Grammar.ReturnedBlocks

/-!
# Documents across line ends

Test blocks are read alike where the text has carriage returns, and with them whole documents: line
ends make no difference to what a document declares, nor to the faults that are reported.
-/

namespace PipelineLang.Grammar

open Cursor Lines Returned

variable {c c' d : Cursor}

/-! ## Clauses -/

theorem clauseValue_returned (h : Abreast c c') : Alike (clauseValue c) (clauseValue c') := by
  simp only [clauseValue, h.peek_eq_some_iff (x := tick) rfl, h.peek_eq_some_iff (x := '"') rfl]
  split
  · exact h.backtickText
  · split
    · exact h.quotedText
    · exact h.restOfLine

theorem spacedWord_returned {word : List Char} (h : Abreast c c')
    (hword : word.any Blank.isLayout = false) :
    Alike (spacedWord word c) (spacedWord word c') :=
  (h.keyword hword).bind_cursor fun _ _ hnext => hnext.someBlanks

theorem spacedName_returned (h : Abreast c c') : Alike (spacedName c) (spacedName c') := by
  refine h.identifier.bind_read fun name name' next next' hname hnext => ?_
  refine hnext.someBlanks.bind_cursor fun blank blank' hblank => ?_
  exact Alike.some ⟨hname, hblank⟩

theorem pipelineTarget_returned (h : Abreast c c') :
    Alike (pipelineTarget c) (pipelineTarget c') :=
  (spacedWord_returned h rfl).bind_cursor fun _ _ hnext => hnext.identifier

theorem mockTarget_returned (h : Abreast c c') : Alike (mockTarget c) (mockTarget c') := by
  rw [mockTarget, mockTarget]
  rcases (pipelineTarget_returned h).cases with
    ⟨hx, hx'⟩ | ⟨⟨name, next⟩, ⟨name', next'⟩, hx, hx', hname, hnext⟩
  · simp only [hx, hx']
    refine h.identifier.bind_read fun head head' next next' hhead hnext => ?_
    rcases (hnext.char (x := '.') rfl).cases with ⟨hdot, hdot'⟩ | ⟨dot, dot', hdot, hdot', hclosed⟩
    · simp only [hdot, hdot']
      exact Alike.some ⟨hhead, hnext⟩
    · simp only [hdot, hdot']
      refine (Abreast.identifier hclosed).bind_read fun tail tail' last last' htail hlast => ?_
      refine Alike.some ⟨?_, hlast⟩
      show head'.text ++ "." ++ tail'.text = returned (head.text ++ "." ++ tail.text)
      rw [hhead, htail, returned_append, returned_append]
      rfl
  · simp only [hx, hx']
    refine Alike.some ⟨?_, hnext⟩
    show "pipeline " ++ name'.text = returned ("pipeline " ++ name.text)
    rw [hname, returned_append]
    rfl

theorem mock_returned (h : Abreast c c') : Alike (mock c) (mock c') := by
  have hwith : Alike (spacedWord "with".toList c) (spacedWord "with".toList c') :=
    spacedWord_returned h rfl
  have hand : Alike (spacedWord "and".toList c) (spacedWord "and".toList c') :=
    spacedWord_returned h rfl
  refine (hwith.or hand).bind_cursor fun next next' hnext => ?_
  refine (spacedWord_returned hnext rfl).bind_cursor fun behind behind' hbehind => ?_
  refine (mockTarget_returned hbehind).bind_read fun target target' last last' htarget hlast => ?_
  refine hlast.someBlanks.bind_cursor fun blank blank' hblank => ?_
  refine (hblank.keyword rfl).bind_cursor fun returning returning' hreturning => ?_
  refine (clauseValue_returned hreturning.blanks).bind_read
    fun value value' final final' hvalue hfinal => ?_
  exact Alike.some ⟨congrArg₂ Mock.mk htarget hvalue, hfinal⟩

theorem routeAction_returned (h : Abreast c c') : Alike (routeAction c) (routeAction c') := by
  refine (method_returned h).bind_read fun word word' next next' hword hnext => ?_
  refine hnext.someBlanks.bind_cursor fun blank blank' hblank => ?_
  refine hblank.bareToken.bind_read fun path path' last last' hpath hlast => ?_
  exact Alike.some ⟨congrArg₂ Action.callRoute hword hpath, hlast⟩

theorem variableAction_returned (h : Abreast c c') :
    Alike (variableAction c) (variableAction c') := by
  refine (spacedWord_returned h rfl).bind_cursor fun word word' hword => ?_
  refine (spacedName_returned hword).bind_read fun kind kind' next next' hkind hnext => ?_
  refine hnext.identifier.bind_read fun name name' last last' hname hlast => ?_
  exact Alike.some ⟨congrArg₂ Action.runVariable hkind hname, hlast⟩

theorem runAction_returned (h : Abreast c c') : Alike (runAction c) (runAction c') := by
  have hword : Alike (c.keyword "pipeline".toList) (c'.keyword "pipeline".toList) :=
    h.keyword rfl
  rw [runAction, runAction]
  rcases hword.cases with ⟨hx, hx'⟩ | ⟨next, next', hx, hx', hnext⟩
  · simp only [hx, hx']
    exact variableAction_returned h
  · simp only [hx, hx']
    refine (Abreast.someBlanks hnext).bind_cursor fun blank blank' hblank => ?_
    refine hblank.identifier.bind_read fun name name' last last' hname hlast => ?_
    exact Alike.some ⟨congrArg Action.runPipeline hname, hlast⟩

theorem action_returned (h : Abreast c c') : Alike (action c) (action c') := by
  refine (spacedWord_returned h rfl).bind_cursor fun next next' hnext => ?_
  have hword : Alike (next.keyword "calling".toList) (next'.keyword "calling".toList) :=
    hnext.keyword rfl
  rcases hword.cases with ⟨hx, hx'⟩ | ⟨behind, behind', hx, hx', hbehind⟩
  · simp only [hx, hx']
    refine (spacedWord_returned hnext rfl).bind_cursor fun executing executing' hrun => ?_
    exact runAction_returned hrun
  · simp only [hx, hx']
    refine (Abreast.someBlanks hbehind).bind_cursor fun blank blank' hblank => ?_
    exact routeAction_returned hblank

theorem input_returned (h : Abreast c c') : Alike (input c) (input c') := by
  refine (spacedWord_returned h rfl).bind_cursor fun next next' hnext => ?_
  refine (hnext.keyword rfl).bind_cursor fun behind behind' hbehind => ?_
  exact clauseValue_returned hbehind.blanks

theorem lead_returned (h : Abreast c c') : Alike (lead c) (lead c') := by
  have hword : Alike (c.keyword "then".toList) (c'.keyword "then".toList) :=
    h.keyword rfl
  rw [lead, lead]
  rcases hword.cases with ⟨hx, hx'⟩ | ⟨next, next', hx, hx', hnext⟩
  · simp only [hx, hx']
    exact (h.keyword rfl).map fun d d' hd => ⟨rfl, hd⟩
  · simp only [hx, hx']
    exact Alike.some ⟨rfl, hnext⟩

theorem query_returned (h : Abreast c c') : Alike (query c) (query c') := by
  simp only [query, h.peek_eq_some_iff (x := tick) rfl]
  split
  · refine h.backtickText.bind_read fun text text' next next' htext hnext => ?_
    refine hnext.someBlanks.bind_cursor fun blank blank' hblank => ?_
    exact Alike.some ⟨Alike.some htext, hblank⟩
  · exact Alike.some ⟨Alike.none, h⟩

theorem comparison_returned (h : Abreast c c') : Alike (comparison c) (comparison c') := by
  refine h.identifier.bind_read fun word word' next next' hword hnext => ?_
  have hnot : Alike (next.someBlanks.bind (keyword "not".toList))
      (next'.someBlanks.bind (keyword "not".toList)) :=
    hnext.someBlanks.bind_cursor fun blank blank' hblank => hblank.keyword rfl
  rcases hnot.cases with ⟨hx, hx'⟩ | ⟨last, last', hx, hx', hlast⟩
  · simp only [hx, hx']
    exact Alike.some ⟨hword, hnext⟩
  · simp only [hx, hx']
    refine Alike.some ⟨?_, hlast⟩
    show word'.text ++ " not" = returned (word.text ++ " not")
    rw [hword, returned_append]
    rfl

theorem condition_returned (h : Abreast c c') : Alike (condition c) (condition c') := by
  refine (lead_returned h).bind_read fun lead lead' next next' hlead hnext => ?_
  refine hnext.someBlanks.bind_cursor fun blank blank' hblank => ?_
  refine (spacedName_returned hblank).bind_read fun field field' behind behind' hfield hbehind => ?_
  refine (query_returned hbehind).bind_read fun query query' asked asked' hquery hasked => ?_
  refine (comparison_returned hasked).bind_read fun word word' next next' hword hnext => ?_
  refine (clauseValue_returned hnext.blanks).bind_read
    fun value value' last last' hvalue hlast => ?_
  refine Alike.some ⟨?_, hlast⟩
  show Condition.mk lead' field'.text query' word' value'.text = Condition.mk _ _ _ _ _
  rw [hlead, hfield, Alike.option_eq_map hquery, hword, hvalue]

instance : Returned TestClause :=
  ⟨fun k k' => Alike k.mock? k'.mock? ∧ Alike k.action? k'.action? ∧ Alike k.input? k'.input? ∧
    Alike k.condition? k'.condition?⟩

theorem testClause_returned (h : Abreast c c') : Alike (testClause c) (testClause c') := by
  have hlayout : Abreast c.layout c'.layout := Or.inl h.layout
  refine ((((mock_returned hlayout).map fun r r' hr => ?_).or
    ((action_returned hlayout).map fun r r' hr => ?_)).or
    ((input_returned hlayout).map fun r r' hr => ?_)).or
    ((condition_returned hlayout).map fun r r' hr => ?_)
  · exact ⟨⟨Alike.some hr.1, Alike.none, Alike.none, Alike.none⟩, hr.2⟩
  · exact ⟨⟨Alike.none, Alike.some hr.1, Alike.none, Alike.none⟩, hr.2⟩
  · exact ⟨⟨Alike.none, Alike.none, Alike.some hr.1, Alike.none⟩, hr.2⟩
  · exact ⟨⟨Alike.none, Alike.none, Alike.none, Alike.some hr.1⟩, hr.2⟩

/-! ## Tests and suites -/

theorem testOfClauses_returned {ks ks' : List TestClause} (h : Alike ks ks') (name : String) :
    Alike (testOfClauses name ks) (testOfClauses (returned name) ks') := by
  have hmocks := Alike.list_eq_map <|
    Alike.filterMap (g := TestClause.mock?) (k := TestClause.mock?) (fun _ _ hk => hk.1) h
  have hactions := Alike.list_eq_map <|
    Alike.filterMap (g := TestClause.action?) (k := TestClause.action?) (fun _ _ hk => hk.2.1) h
  have hinputs := Alike.list_eq_map <|
    Alike.filterMap (g := TestClause.input?) (k := TestClause.input?) (fun _ _ hk => hk.2.2.1) h
  have hconditions := Alike.list_eq_map <|
    Alike.filterMap (g := TestClause.condition?) (k := TestClause.condition?)
      (fun _ _ hk => hk.2.2.2) h
  rw [testOfClauses, testOfClauses, hmocks, hactions, hinputs, hconditions, List.getLast?_map,
    List.getLast?_map]
  cases (ks.filterMap TestClause.action?).getLast? with
  | none => exact Alike.none
  | some action => exact Alike.some rfl

instance {ε α : Type} [Returned ε] [Returned α] : Returned (Except ε α) where
  Alike
    | .ok a, .ok a' => Alike a a'
    | .error e, .error e' => Alike e e'
    | _, _ => False

theorem test_returned (h : Abreast c c') : Alike (test c) (test c') := by
  refine (spacedWord_returned h rfl).bind_cursor fun word word' hword => ?_
  refine hword.quotedText.bind fun (name, next) (name', next') hread ⟨hname, hnext⟩ => ?_
  have hsame : name'.text = name.text :=
    hname.trans (returned_of_not_mem (quotedText_line hword.plain hread))
  obtain ⟨hclauses, hlast⟩ := Abreast.many (fun _ _ _ => testClause_lt)
    (fun _ _ => testClause_returned) hnext
  have htest := testOfClauses_returned hclauses name.text
  rw [← hname] at htest
  rcases htest.cases with ⟨hx, hx'⟩ | ⟨t, t', hx, hx', ht⟩
  · simp only [hx, hx']
    exact Alike.some ⟨congrArg SyntaxFault.missingWhen hsame, hlast⟩
  · simp only [hx, hx']
    exact Alike.some ⟨ht, hlast⟩

instance : Returned SuiteItem :=
  ⟨fun i i' => Alike i.mock? i'.mock? ∧ Alike i.test? i'.test? ∧ Alike i.report? i'.report?⟩

theorem suiteItem_returned (h : Abreast c c') : Alike (suiteItem c) (suiteItem c') := by
  have hlayout : Abreast c.layout c'.layout := Or.inl h.layout
  rw [suiteItem, suiteItem]
  rcases (mock_returned hlayout).cases with
    ⟨hx, hx'⟩ | ⟨⟨m, next⟩, ⟨m', next'⟩, hx, hx', hm, hnext⟩
  · simp only [hx, hx']
    rcases (test_returned hlayout).cases with
      ⟨hx, hx'⟩ | ⟨⟨r | t, next⟩, ⟨r' | t', next'⟩, hx, hx', ht, hnext⟩
    · rw [hx, hx']
      exact Alike.none
    · rw [hx, hx']
      exact Alike.some ⟨⟨Alike.none, Alike.none, Alike.some ht⟩, hnext⟩
    · exact ht.elim
    · exact ht.elim
    · rw [hx, hx']
      exact Alike.some ⟨⟨Alike.none, Alike.some ht, Alike.none⟩, hnext⟩
  · simp only [hx, hx']
    exact Alike.some ⟨⟨Alike.some hm, Alike.none, Alike.none⟩, hnext⟩

theorem suite_returned (h : Abreast c c') : Alike (suite c) (suite c') := by
  refine (spacedWord_returned h rfl).bind_cursor fun word word' hword => ?_
  refine hword.quotedText.bind_read fun name name' next next' hname hnext => ?_
  obtain ⟨hitems, hlast⟩ := hnext.many (fun _ _ _ => suiteItem_lt) fun _ _ => suiteItem_returned
  have hmocks := Alike.list_eq_map <|
    Alike.filterMap (g := SuiteItem.mock?) (k := SuiteItem.mock?) (fun _ _ hi => hi.1) hitems
  have htests := Alike.list_eq_map <|
    Alike.filterMap (g := SuiteItem.test?) (k := SuiteItem.test?) (fun _ _ hi => hi.2.1) hitems
  have hreports := Alike.filterMap (g := SuiteItem.report?) (k := SuiteItem.report?)
    (fun _ _ hi => hi.2.2) hitems
  refine Alike.some ⟨?_, hreports, hlast⟩
  show TestSuite.mk name'.text _ _ = TestSuite.mk _ _ _
  rw [hname, hmocks, htests]

/-! ## Items -/

/-- All views of the items are alike. -/
structure AlikeItems (i i' : Item) : Prop where
  config : Alike i.asConfig? i'.asConfig?
  pipeline : Alike i.asPipeline? i'.asPipeline?
  typedVariable : Alike i.asVariable? i'.asVariable?
  route : Alike i.asRoute? i'.asRoute?
  suite : Alike i.asSuite? i'.asSuite?
  reports : Alike i.reports i'.reports

instance : Returned Item := ⟨AlikeItems⟩

theorem declaration_returned (h : Abreast c c') : Alike (declaration c) (declaration c') := by
  refine (((((config_returned h).map fun r r' hr => ?_).or
    ((namedPipeline_returned h).map fun r r' hr => ?_)).or
    ((typedVariable_returned h).map fun r r' hr => ?_)).or
    ((route_returned h).map fun r r' hr => ?_)).or
    ((suite_returned h).map fun r r' hr => ?_)
  · exact ⟨⟨Alike.some hr.1, Alike.none, Alike.none, Alike.none, Alike.none, hr.2.1⟩, hr.2.2⟩
  · exact ⟨⟨Alike.none, Alike.some hr.1, Alike.none, Alike.none, Alike.none, hr.2.1⟩, hr.2.2⟩
  · exact ⟨⟨Alike.none, Alike.none, Alike.some hr.1, Alike.none, Alike.none, Alike.nil⟩, hr.2⟩
  · exact ⟨⟨Alike.none, Alike.none, Alike.none, Alike.some hr.1, Alike.none, hr.2.1⟩, hr.2.2⟩
  · exact ⟨⟨Alike.none, Alike.none, Alike.none, Alike.none, Alike.some hr.1, hr.2.1⟩, hr.2.2⟩

theorem unrecognizedLine_returned (h : Abreast c c') :
    Alike (unrecognizedLine c) (unrecognizedLine c') := by
  refine ⟨⟨Alike.none, Alike.none, Alike.none, Alike.none, Alike.none, Alike.report ?_⟩, h.lineEnd⟩
  show SyntaxFault.unrecognized _ = SyntaxFault.unrecognized _
  rw [h.trimEnd_line]

theorem item_returned (h : Abreast c c') : Alike (item c) (item c') := by
  have hlayout : Abreast c.layout c'.layout := Or.inl h.layout
  simp only [item, hlayout.atEnd]
  split
  · exact Alike.none
  · rcases (declaration_returned hlayout).cases with ⟨hx, hx'⟩ | ⟨r, r', hx, hx', hr⟩
    · rw [hx, hx']
      exact Alike.some (unrecognizedLine_returned hlayout)
    · rw [hx, hx']
      exact Alike.some hr

/-! ## Documents -/

theorem items_returned {text : List Char} (h : HasPlainEnds text) :
    Alike (items text) (items (withReturns text)) := by
  have hstart : Level (start 0 text) (start 0 (withReturns text)) := ⟨rfl, rfl, h⟩
  exact (Abreast.many (fun _ _ _ => item_lt) (fun _ _ => item_returned) (Or.inl hstart)).1

theorem spanned_returned {α : Type} {f g : α → α} {vs vs' : List (Spanned α)}
    (h : List.Forall₂ (fun v v' => g v'.value = g (f v.value)) vs vs') :
    vs'.map (Spanned.unplaced g) = (vs.map (Spanned.mapValue f)).map (Spanned.unplaced g) := by
  rw [List.map_map]
  exact Alike.list_map_eq_map (h.imp fun _ _ hv => congrArg (Spanned.mk · ⟨0, 0⟩) hv)

theorem programOfItems_returned {is is' : List Item} (h : Alike is is') :
    (programOfItems is').unplaced = ((programOfItems is).retext returned).unplaced := by
  simp only [programOfItems, Program.unplaced, Program.retext, Program.mk.injEq]
  refine ⟨?_, ?_, ?_, ?_, ?_⟩
  · exact spanned_returned (Alike.filterMap (fun _ _ => AlikeItems.config) h)
  · exact spanned_returned (Alike.filterMap (fun _ _ => AlikeItems.pipeline) h)
  · exact spanned_returned (Alike.filterMap (fun _ _ => AlikeItems.typedVariable) h)
  · exact spanned_returned (Alike.filterMap (fun _ _ => AlikeItems.route) h)
  · exact spanned_returned (Alike.filterMap (fun _ _ => AlikeItems.suite) h)

theorem count_withReturns {x : Char} (hx : x ≠ '\r') (text : List Char) :
    (withReturns text).count x = text.count x := by
  induction text with
  | nil => rfl
  | cons y ys ih =>
    by_cases hy : y = '\n'
    · subst hy
      rw [withReturns_lineFeed, List.count_cons_of_ne (Ne.symm hx), List.count_cons,
        List.count_cons, ih]
    · rw [withReturns_cons hy, List.count_cons, List.count_cons, ih]

/-- **Line ends make no difference.** Let a text hold no carriage return and no backslash in front
of a line feed. With a carriage return in front of each line feed it declares the same program, but
for the places and for the carriage returns in the texts that run over line ends, and the same
faults are reported in the same order. -/
theorem parse_withReturns {text : List Char} (hreturn : '\r' ∉ text)
    (hsplice : ¬ ['\\', '\n'] <:+: text) :
    (parse (withReturns text)).program.unplaced
        = ((parse text).program.retext returned).unplaced ∧
      (parse (withReturns text)).reports.map (·.fault) = (parse text).reports.map (·.fault) := by
  have hitems := items_returned ⟨hreturn, hsplice⟩
  have hreports := Alike.list_map_eq_map (f := SyntaxReport.fault) (g := SyntaxReport.fault)
    (Alike.flatMap (g := Item.reports) (k := Item.reports) (fun _ _ => AlikeItems.reports) hitems)
  refine ⟨programOfItems_returned hitems, ?_⟩
  simp only [parse, List.map_append, faults_unclosedTick, count_withReturns (x := tick) (by decide)]
  rw [hreports]

/-- A text in backticks that runs over a line end, and a line that is no declaration. -/
theorem parse_withReturns_pipeline :
    (parse "pipeline p =\r\n  |> jq: \x60\x7b\r\n\x7d\x60\r\noops\r\n".toList).program.unplaced
        = ((parse "pipeline p =\n  |> jq: \x60\x7b\n\x7d\x60\noops\n".toList).program.retext
          returned).unplaced ∧
      (parse "pipeline p =\r\n  |> jq: \x60\x7b\r\n\x7d\x60\r\noops\r\n".toList).reports.map
        (·.fault) = [.unrecognized "oops"] := by
  have hreturns : withReturns "pipeline p =\n  |> jq: \x60\x7b\n\x7d\x60\noops\n".toList
      = "pipeline p =\r\n  |> jq: \x60\x7b\r\n\x7d\x60\r\noops\r\n".toList := by decide
  have hfaults : (parse "pipeline p =\n  |> jq: \x60\x7b\n\x7d\x60\noops\n".toList).reports.map
      (·.fault) = [.unrecognized "oops"] := by decide +kernel
  have hbackslash : '\\' ∉ "pipeline p =\n  |> jq: \x60\x7b\n\x7d\x60\noops\n".toList := by decide
  rw [← hreturns, ← hfaults]
  exact parse_withReturns (by decide) fun hin => hbackslash (hin.subset List.mem_cons_self)

end PipelineLang.Grammar
