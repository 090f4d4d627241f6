import PipelineLang.Proofs.Grammar.ClauseReading
import PipelineLang.Proofs.Grammar.Indentation

/-!
# Test blocks are read as they are written

A suite that is written line by line is read again, and nothing else is read or reported
(`parse_writtenSuite`). A repetition reads line by line what is written line by line
(`many_written`): the clauses of a test, which end at the heading of the next test or at the end of
the text (`AtTestEnd`), and the mocks and tests of a suite. Both are put together from what was read by
filters, which find all of it in its order (`testOfClauses_clauses`).
-/

namespace PipelineLang.Grammar

open Cursor

variable {c : Cursor} {rest : List Char}

/-! ## Lines -/

theorem atLineEnd_line (column : Nat) (content rest : List Char) :
    AtLineEnd (writtenLine column content ++ rest) := by
  rintro x ⟨⟩
  rfl

theorem AtLineEnd.lines (hrest : AtLineEnd rest) (column : Nat) (contents : List (List Char)) :
    AtLineEnd (writtenLines column contents ++ rest) := by
  cases contents with
  | nil => exact hrest
  | cons content contents =>
    rw [writtenLines, List.flatMap_cons, List.append_assoc]
    exact atLineEnd_line column content _

/-- A block of lines is read line by line, if each line is read where `p` holds of the text behind
it. -/
theorem many_written {α β : Type} (item : Cursor → Option (β × Cursor)) (p : List Char → Prop)
    (f : α → β) {column : Nat} {write : α → List Char} {as : List α}
    (hmoves : ∀ c b d, item c = some (b, d) → c < d)
    (hread : ∀ a ∈ as, ∀ (c : Cursor) (rest : List Char), p rest →
      c.rest = writtenLine column (write a) ++ rest → ∃ d, item c = some (f a, d) ∧ d.rest = rest)
    (hline : ∀ a ∈ as, ∀ rest, p (writtenLine column (write a) ++ rest)) (hrest : p rest)
    (h : c.rest = writtenLines column (as.map write) ++ rest) :
    ∃ d : Cursor, c.many item = (as.map f ++ (d.many item).1, (d.many item).2) ∧ d.rest = rest := by
  induction as generalizing c with
  | nil => exact ⟨c, rfl, h⟩
  | cons a as ih =>
    obtain ⟨hreada, hreads⟩ := List.forall_mem_cons.1 hread
    obtain ⟨-, hlines⟩ := List.forall_mem_cons.1 hline
    have hnext : p (writtenLines column (as.map write) ++ rest) := by
      cases as with
      | nil => exact hrest
      | cons a' as =>
        rw [List.map_cons, writtenLines, List.flatMap_cons, List.append_assoc]
        exact hlines a' List.mem_cons_self _
    rw [List.map_cons, writtenLines, List.flatMap_cons, List.append_assoc] at h
    obtain ⟨next, ha, hend⟩ := hreada c _ hnext h
    obtain ⟨d, hmany, hd⟩ := ih hreads hlines hend
    exact ⟨d, by rw [many_of_lt ha (hmoves _ _ _ ha), hmany]; rfl, hd⟩

theorem map_zipIdx {α β : Type} (f : α → β) (as : List α) :
    as.zipIdx.map (fun a => f a.1) = as.map f := by
  rw [← Function.comp_def f Prod.fst, ← List.map_map, List.zipIdx_map_fst]

/-! ## Tests -/

/-- The clauses of a test end here: a line does, and the next one holds no clause. -/
structure AtTestEnd (rest : List Char) : Prop where
  line : AtLineEnd rest
  clause : ∀ d : Cursor, d.rest = rest → testClause d = none

theorem layout_heading {word name : String} {column : Nat} {more : List Char}
    (hword : IsIdentifier word)
    (h : c.rest = writtenLine column (writtenHeading word name ++ more) ++ rest) :
    c.layout.rest = writtenHeading word name ++ (more ++ rest) := by
  rw [writtenHeading, List.append_assoc] at h
  rw [layout_word hword h, writtenHeading, List.append_assoc, List.append_assoc]

/-- At the heading of a test the clauses of the one before it end. -/
theorem atTestEnd_test (column inner : Nat) (leads : Nat → Lead) (t : TestCase) (rest : List Char) :
    AtTestEnd (writtenLine column (t.written inner leads) ++ rest) := by
  have hit : IsIdentifier "it" := by decide
  refine ⟨atLineEnd_line column _ rest, fun d hd => ?_⟩
  have hlayout := layout_heading hit hd
  simp only [writtenHeading, List.append_assoc, List.cons_append] at hlayout
  simp only [testClause, mock_of_word hit hlayout (by decide) (by decide),
    action_of_word hit hlayout (by decide), input_of_word hit hlayout (by decide),
    condition_of_word hit hlayout (by decide) (by decide), Option.map_none, Option.or_none]

theorem atTestEnd_layout (h : ∀ x ∈ rest, Blank.isLayout x = true) : AtTestEnd rest := by
  refine ⟨fun x hx => h x (List.mem_of_head? hx), fun d hd => ?_⟩
  rw [Option.eq_none_iff_forall_ne_some]
  rintro ⟨k, e⟩ hk
  have hpeek := peek_of_testClause hk
  rw [peek_layout_blank (hd ▸ h)] at hpeek
  cases hpeek

/-- A view of the clauses of a test, kind by kind. -/
theorem filterMap_clauses {α : Type} (g : TestClause → Option α) (t : TestCase) :
    t.clauses.filterMap g = t.mocks.filterMap (fun m => g (.mock m))
      ++ ((g (.action t.action)).toList ++ (t.input.toList.filterMap (fun s => g (.input s))
        ++ t.conditions.filterMap fun k => g (.condition k))) := by
  rw [TestCase.clauses, List.filterMap_append, List.filterMap_map, List.filterMap_cons]
  cases g (.action t.action) <;>
    simp only [List.filterMap_append, List.filterMap_map, Option.toList, List.nil_append,
      List.singleton_append, Function.comp_def]

/-- The clauses of a test make it up. -/
theorem testOfClauses_clauses (t : TestCase) : testOfClauses t.name t.clauses = some t := by
  have hmocks : t.clauses.filterMap TestClause.mock? = t.mocks := by
    simp [filterMap_clauses, TestClause.mock?]
  have hactions : t.clauses.filterMap TestClause.action? = [t.action] := by
    simp [filterMap_clauses, TestClause.action?]
  have hinputs : t.clauses.filterMap TestClause.input? = t.input.toList := by
    simp [filterMap_clauses, TestClause.input?]
  have hconditions : t.clauses.filterMap TestClause.condition? = t.conditions := by
    simp [filterMap_clauses, TestClause.condition?]
  have hinput : t.input.toList.getLast? = t.input := by
    cases t.input <;> rfl
  rw [testOfClauses, hmocks, hactions, hinputs, hconditions, hinput]
  rfl

theorem test_written {t : TestCase} (ht : t.IsWritable) {inner : Nat} {leads : Nat → Lead}
    (hrest : AtTestEnd rest) (h : c.rest = t.written inner leads ++ rest) :
    ∃ d, test c = some (.ok t, d) ∧ d.rest = rest := by
  rw [TestCase.written, List.append_assoc] at h
  obtain ⟨title, body, hheading, htext, hbody⟩ := heading_written ht.name h
  obtain ⟨d, hmany, hend⟩ := many_written testClause AtLineEnd Prod.fst
    (fun _ _ _ => testClause_lt)
    (fun (k, n) hk c rest hrest hc =>
      testClause_written (ht.clauses k (List.fst_mem_of_mem_zipIdx hk)) hrest hc)
    (fun _ _ _ => atLineEnd_line inner _ _) hrest.line hbody
  rw [many_of_none (hrest.clause d hend), List.append_nil, List.zipIdx_map_fst] at hmany
  refine ⟨d, ?_, hend⟩
  have hheading : heading "it".toList c = some (title, body) := hheading
  simp only [test_eq, hheading, Option.map_some, hmany, htext, testOfClauses_clauses, Option.elim]

/-! ## Suites -/

theorem suiteItem_mock {m : Mock} (hm : m.IsWritable) {lead : Lead} {column : Nat}
    (h : c.rest = writtenLine column (m.written lead) ++ rest) :
    ∃ d, suiteItem c = some (.mock m, d) ∧ d.rest = rest := by
  have hlayout : c.layout.rest = m.written lead ++ rest := by
    rw [Mock.written] at h ⊢
    rw [layout_word lead.isIdentifier_mockWord h, List.append_assoc]
  obtain ⟨d, hread, hend⟩ := mock_written hm lead hlayout
  exact ⟨d, suiteItem_of_mock hread, hend⟩

theorem suiteItem_test {t : TestCase} (ht : t.IsWritable) {column inner : Nat} {leads : Nat → Lead}
    (hrest : AtTestEnd rest) (h : c.rest = writtenLine column (t.written inner leads) ++ rest) :
    ∃ d, suiteItem c = some (.test t, d) ∧ d.rest = rest := by
  have hit : IsIdentifier "it" := by decide
  have hlayout := layout_heading hit h
  rw [← List.append_assoc] at hlayout
  obtain ⟨d, hread, hend⟩ := test_written ht hrest hlayout
  simp only [writtenHeading, List.append_assoc, List.cons_append] at hlayout
  have hmock : mock c.layout = none := mock_of_word hit hlayout (by decide) (by decide)
  exact ⟨d, by simp only [suiteItem, hmock, hread], hend⟩

theorem suiteItem_layout (h : ∀ x ∈ c.rest, Blank.isLayout x = true) : suiteItem c = none := by
  rw [Option.eq_none_iff_forall_ne_some]
  rintro ⟨i, d⟩ hi
  have hpeek := peek_of_suiteItem hi
  rw [peek_layout_blank h] at hpeek
  cases hpeek

/-- **A suite is read as it is written.** -/
theorem suite_written {s : TestSuite} (hs : s.IsWritable) {outer inner : Nat}
    {leads : Nat → Nat → Lead} (hrest : ∀ x ∈ rest, Blank.isLayout x = true)
    (h : c.rest = s.written outer inner leads ++ rest) :
    ∃ v d, suite c = some (v, [], d) ∧ v.value = s ∧ d.rest = rest := by
  rw [TestSuite.written, List.append_assoc, List.append_assoc] at h
  obtain ⟨title, body, hheading, htext, hbody⟩ := heading_written hs.name h
  obtain ⟨next, hword, htitle⟩ := Option.bind_eq_some_iff.1 hheading
  obtain ⟨behind, hmocks, hbehind⟩ := many_written suiteItem AtLineEnd
    (fun a => .mock a.1) (fun _ _ _ => suiteItem_lt)
    (fun (m, n) hm c rest _ hc => suiteItem_mock (hs.mocks m (List.fst_mem_of_mem_zipIdx hm)) hc)
    (fun _ _ _ => atLineEnd_line outer _ _)
    (AtLineEnd.lines (fun x hx => hrest x (List.mem_of_head? hx)) outer _) hbody
  obtain ⟨d, htests, hend⟩ := many_written suiteItem AtTestEnd
    (fun a => .test a.1) (fun _ _ _ => suiteItem_lt)
    (fun (t, n) ht c rest hrest hc =>
      suiteItem_test (hs.tests t (List.fst_mem_of_mem_zipIdx ht)) hrest hc)
    (fun (t, n) _ _ => atTestEnd_test outer inner _ t _) (atTestEnd_layout hrest) hbehind
  have hstop : suiteItem d = none := suiteItem_layout (hend ▸ hrest)
  rw [many_of_none hstop, List.append_nil] at htests
  rw [htests, map_zipIdx, map_zipIdx] at hmocks
  have hword : spacedWord "describe".toList c = some next := hword
  refine ⟨⟨s, ⟨c.offset, d.offset⟩⟩, d, ?_, rfl, hend⟩
  simp only [suite, bind, hword, htitle, hmocks, htext, Option.bind_some, List.filterMap_append,
    List.filterMap_map, Function.comp_def, SuiteItem.mock?, SuiteItem.test?, SuiteItem.report?,
    List.filterMap_some, List.filterMap_none, List.append_nil, List.nil_append]
  rfl

/-! ## Documents -/

theorem written_describe (outer inner : Nat) (leads : Nat → Nat → Lead) (s : TestSuite)
    (rest : List Char) :
    ∃ more, s.written outer inner leads ++ rest = "describe".toList ++ ' ' :: more := by
  simp only [TestSuite.written, writtenHeading, List.append_assoc, List.cons_append]
  exact ⟨_, rfl⟩

theorem declaration_describe {v : Spanned TestSuite} {rs : List SyntaxReport} {d : Cursor}
    (h : c.rest = "describe".toList ++ ' ' :: rest) (hread : suite c = some (v, rs, d)) :
    declaration c = some (.suite v rs, d) := by
  have hdescribe : IsIdentifier "describe" := by decide
  have hconfig : config c = none := by
    rw [config, show c.keyword "config".toList = none from
      keyword_word_ne hdescribe (by decide) h (by decide)]
    rfl
  have hpipeline : namedPipeline c = none := by
    rw [namedPipeline, show c.keyword "pipeline".toList = none from
      keyword_word_ne hdescribe (by decide) h (by decide)]
    rfl
  obtain ⟨t, next, hident, htext, -⟩ := identifier_append h hdescribe (by rintro x ⟨⟩; rfl)
  have hvariable : typedVariable c = none := by
    simp only [typedVariable, bind, hident, Option.bind_some, htext]
    rfl
  have hroute : route c = none := by
    simp only [route, method, bind, hident, Option.bind_some, htext]
    rfl
  simp only [declaration, hconfig, hpipeline, hvariable, hroute, hread, Option.map_none,
    Option.map_some, Option.none_or]

/-- **Test blocks are read as they are written.** Let a suite be given whose names hold no quote,
backslash, line feed or backtick, whose mocks stand in for `pipeline name`, `type.name` or a name
other than `pipeline`, whose tests call a known method with a path that is not empty and holds no
blank, or run a pipeline or a variable, whose conditions compare a field by a word or the negation of
one, and whose values and queries hold no backtick. Its text, one clause a line and in any columns, is
read without a report as one suite, the one that is written. -/
theorem parse_writtenSuite (outer inner : Nat) (leads : Nat → Nat → Lead) {s : TestSuite}
    (hs : s.IsWritable) {tail : List Char} (htail : ∀ x ∈ tail, Blank.isLayout x = true) :
    ∃ v, (parse (s.written outer inner leads ++ tail)).reports = [] ∧
      (parse (s.written outer inner leads ++ tail)).program
        = { Program.empty with suites := [v] } ∧
      v.value = s := by
  have htext : (start 0 (s.written outer inner leads ++ tail)).rest
      = s.written outer inner leads ++ tail := rfl
  obtain ⟨v, d, hread, hv, hd⟩ := suite_written hs htail htext
  obtain ⟨more, hmore⟩ := written_describe outer inner leads s tail
  have hitems : items (s.written outer inner leads ++ tail) = [.suite v []] :=
    items_declaration (by rw [hmore]; rfl) (declaration_describe (htext.trans hmore) hread)
      (hd ▸ htail)
  have hticks : unclosedTick (s.written outer inner leads ++ tail) = [] :=
    unclosedTick_layout (TestSuite.isPaired_written hs outer inner leads) htail
  refine ⟨v, ?_, ?_, hv⟩
  · rw [parse, hitems, hticks]
    rfl
  · rw [parse, hitems]
    rfl

/-- A suite whose clauses hold words that also open other clauses. -/
def crossedSuite : TestSuite where
  name := "describe"
  mocks := [⟨"pipeline returning", "\x7b\x7d"⟩, ⟨"mock", ""⟩]
  tests :=
    [⟨"it # 1", [⟨"pipeline.x", "1"⟩], .runVariable "pipeline" "mock", some "with",
        [⟨.continuing, "mock", none, "pipeline not", "x"⟩,
          ⟨.continuing, "input", some ".a", "not not", "y"⟩]⟩,
      ⟨"when", [], .callRoute "GET" "/a", none, []⟩]

theorem isWritable_crossedSuite : crossedSuite.IsWritable := by
  have hmocks : ∀ m ∈ crossedSuite.mocks, m.IsWritable :=
    List.forall_mem_cons.2 ⟨⟨.pipeline (show IsIdentifier "returning" by decide), by decide⟩,
      List.forall_mem_singleton.2 ⟨.bare (by decide) (by decide), by decide⟩⟩
  have hmock : Mock.IsWritable ⟨"pipeline.x", "1"⟩ :=
    ⟨.typed (show IsIdentifier "pipeline" by decide) (show IsIdentifier "x" by decide), by decide⟩
  have hplain : Condition.IsWritable ⟨.continuing, "mock", none, "pipeline not", "x"⟩ :=
    ⟨by decide, by decide, .negated (show IsIdentifier "pipeline" by decide), by decide⟩
  have hquery : Condition.IsWritable ⟨.continuing, "input", some ".a", "not not", "y"⟩ :=
    ⟨by decide, by decide, .negated (show IsIdentifier "not" by decide), by decide⟩
  have haction : Action.IsWritable (.runVariable "pipeline" "mock") := ⟨by decide, by decide⟩
  have hroute : Action.IsWritable (.callRoute "GET" "/a") :=
    ⟨by decide, by decide,
      List.forall_mem_cons.2 ⟨by decide, List.forall_mem_singleton.2 (by decide)⟩⟩
  have hinput : TestClause.IsWritable (.input "with") := by
    show Payload.IsWritable (.backtick "with")
    decide
  have htests : ∀ t ∈ crossedSuite.tests, t.IsWritable :=
    List.forall_mem_cons.2
      ⟨⟨by decide, List.forall_mem_cons.2 ⟨hmock, List.forall_mem_cons.2 ⟨haction,
        List.forall_mem_cons.2 ⟨hinput, List.forall_mem_cons.2 ⟨hplain,
          List.forall_mem_singleton.2 hquery⟩⟩⟩⟩⟩,
        List.forall_mem_singleton.2 ⟨by decide, List.forall_mem_singleton.2 hroute⟩⟩
  exact ⟨by decide, hmocks, htests⟩

/-- Behind `and` stand mocks and conditions, one of them on a field `mock`. -/
theorem parse_writtenSuite_crossedSuite :
    crossedSuite.written 2 4 (fun _ _ => .continuing) ++ ['\n']
        = ["describe \"describe\"",
           "  and mock pipeline returning returning \x60\x7b\x7d\x60",
           "  and mock mock returning \x60\x60",
           "  it \"it # 1\"",
           "    and mock pipeline.x returning \x601\x60",
           "    when executing variable pipeline mock",
           "    with input \x60with\x60",
           "    and mock pipeline not \x60x\x60",
           "    and input \x60.a\x60 not not \x60y\x60",
           "  it \"when\"",
           "    when calling GET /a"].flatMap (fun line => line.toList ++ ['\n']) ∧
      ∃ v, (parse (crossedSuite.written 2 4 (fun _ _ => .continuing) ++ ['\n'])).reports = [] ∧
        (parse (crossedSuite.written 2 4 (fun _ _ => .continuing) ++ ['\n'])).program
          = { Program.empty with suites := [v] } ∧
        v.value = crossedSuite := by
  have htail : ∀ x ∈ ['\n'], Blank.isLayout x = true := by
    rintro x (_ | ⟨_, ⟨⟩⟩)
    rfl
  exact ⟨by decide +kernel, parse_writtenSuite 2 4 (fun _ _ => .continuing) isWritable_crossedSuite htail⟩

end PipelineLang.Grammar
