import PipelineLang.Proofs.Editor.Occurrences
import PipelineLang.Proofs.Index.Faults
import PipelineLang.Proofs.Reference.Tests

/-!
# Names in test blocks

What is done with a reference: it is recorded for its symbol, reported where the symbol is not
declared, and edited where the symbol is renamed (`noted_of_mem_scan`). The names in the clauses of
test blocks are references of the text, so all of that is done with them (`tests_noted`). It is not
where a comment starts right behind the name of an action, nor where a letter beyond ASCII stands
right behind `returning` (`names_missed`): for the grammar the word ends there, for the search it
does not.
-/

namespace PipelineLang

open Cursor Grammar Reference Editor

/-- The fault of a reference to the symbol, if nothing of the name is declared. -/
def SymbolKey.unknown : SymbolKey → ReferenceFault
  | .pipeline name => .unknownPipeline name
  | .typed kind name => .unknownVariable (.typed kind name)

/-- At the place the name of the symbol is written, and it is taken for a reference: it is recorded
for the symbol, reported if the program does not declare it, and edited when it is renamed. -/
structure Noted (engine : String) (text : List Char) (key : SymbolKey) (s : Span) : Prop where
  spelled : s.Spells text key.name.toList
  recorded : s ∈ (recorded text).spansOf key
  reported : ¬ (parse text).program.Declares key →
    ⟨key.unknown, s⟩ ∈ (analyze engine text).referenceReports
  renamed : ∀ uri p span newName, isName newName = true →
    Document.contextAt ⟨uri, engine, text, analyze engine text⟩ p = some (.symbol key span) →
    ∃ edit, Document.rename ⟨uri, engine, text, analyze engine text⟩ p newName = .ok (some edit) ∧
      ⟨.ofSpan text s, newName⟩ ∈ edit.edits

variable {engine : String} {text : List Char} {key : SymbolKey} {s : Span}

/-- A reference to what is not declared is reported. -/
theorem mem_referenceReports (h : ⟨key, s⟩ ∈ scan text)
    (hdeclared : ¬ (parse text).program.Declares key) :
    ⟨key.unknown, s⟩ ∈ (analyze engine text).referenceReports := by
  have hnot : (!(analyze engine text).symbols.isDeclared key) = true := by
    simpa [isDeclared_eq] using hdeclared
  refine List.mem_mergeSort.2 ?_
  simp only [List.mem_append]
  cases key with
  | pipeline name =>
    refine Or.inl (Or.inl (Or.inl (Or.inl ?_)))
    have hvalue := (Table.group_entries_perm ((scan text).filterMap ofPipeline?)).mem_iff.2
      (List.mem_filterMap.2 ⟨_, h, rfl⟩)
    rw [unknownPipelines_eq]
    exact List.mem_map.2 ⟨_, List.mem_filter.2 ⟨hvalue, hnot⟩, rfl⟩
  | typed kind name =>
    refine Or.inl (Or.inl (Or.inl (Or.inr ?_)))
    have hvalue := (Table.group_entries_perm ((scan text).filterMap ofVariable?)).mem_iff.2
      (List.mem_filterMap.2 ⟨_, h, rfl⟩)
    have hkind : IsIdentifier kind := (marked_scan text).typed _ h
    have hkey : SymbolKey.ofText (SymbolKey.joinVariable kind name) = .typed kind name :=
      SymbolKey.ofText_joinVariable (fun hmem => absurd (hkind.2 ':' hmem) (by decide)) name
    rw [unknownVariables_eq]
    refine List.mem_map.2 ⟨_, List.mem_filter.2 ⟨hvalue, ?_⟩, ?_⟩
    · rw [hkey]
      exact hnot
    · rw [hkey]
      rfl

theorem exists_occurrence (engine : String) (h : ⟨key, s⟩ ∈ scan text) (span : Span) :
    ∃ o ∈ occurrences (analyze engine text).symbols engine (.symbol key span), o.span = s := by
  have hspan : s ∈ (analyze engine text).symbols.referencesOf key := by
    have hrecorded := ReferenceTable.mem_spansOf h
    cases key with
    | pipeline name => exact hrecorded
    | typed kind name => exact hrecorded
  have hmem : ⟨s, false⟩ ∈ ofContext (analyze engine text).symbols engine (.symbol key span) :=
    List.mem_append_right _ (mem_references.2 ⟨List.mem_append_left _ hspan, rfl⟩)
  exact Occurrence.exists_mem_dedup (List.mem_mergeSort.2 hmem)

/-- A reference to a symbol is edited when the symbol is renamed. -/
theorem mem_rename_edits (h : ⟨key, s⟩ ∈ scan text) (uri : String) (p : Position) (span : Span)
    {newName : String} (hname : isName newName = true)
    (hcontext : Document.contextAt ⟨uri, engine, text, analyze engine text⟩ p
      = some (.symbol key span)) :
    ∃ edit, Document.rename ⟨uri, engine, text, analyze engine text⟩ p newName = .ok (some edit) ∧
      ⟨.ofSpan text s, newName⟩ ∈ edit.edits := by
  obtain ⟨o, ho, rfl⟩ := exists_occurrence engine h span
  have hedit := List.mem_map_of_mem
    (f := fun o : Occurrence => (⟨.ofSpan text o.span, newName⟩ : TextEdit)) ho
  obtain ⟨e, es, hedits⟩ := List.exists_cons_of_ne_nil (List.ne_nil_of_mem hedit)
  refine ⟨⟨uri, e :: es⟩, ?_, hedits ▸ hedit⟩
  rw [Document.rename, if_pos hname, Document.occurrencesAt, hcontext]
  exact congrArg (fun edits => Except.ok ((nonempty edits).map (WorkspaceEdit.mk uri))) hedits

theorem noted_of_mem_scan (engine : String) (h : ⟨key, s⟩ ∈ scan text) :
    Noted engine text key s where
  spelled := (identifierAt_of_mem (mem_scan.1 h)).spells
  recorded := ReferenceTable.mem_spansOf h
  reported := mem_referenceReports h
  renamed uri p span _ := mem_rename_edits h uri p span

/-! ## Clauses -/

/-- **No name in a test block is missed.** Let a document have no reports, and let `k` be a clause
that is read between `c` and `d`, in a suite or in a test. The name at the end of an action is a
reference to the pipeline or the variable that the action runs, if no comment starts right behind it.
The name of what a mock stands in for, a pipeline or a variable, is a reference to that, if no word
character follows `returning`. -/
theorem tests_noted (engine : String) {text : List Char} (hclean : (parse text).reports = [])
    {c d : Cursor} {k : TestClause} (h : ClauseRead text c k d) :
    (∀ name, k = .action (.runPipeline name) → d.peek ≠ some '#' →
      ∃ s, s.stop = d.offset ∧ Noted engine text (.pipeline name) s) ∧
    (∀ kind name, k = .action (.runVariable kind name) → d.peek ≠ some '#' →
      ∃ s, s.stop = d.offset ∧ Noted engine text (.typed kind name) s) ∧
    ∀ m, k = .mock m → ∃ behind returning, mockHead c = some (m.target, behind, returning) ∧
      (returning.peek.any Word.isWordChar = false →
        (∀ name, m.target = "pipeline " ++ name →
          ∃ s, s.stop = behind.offset ∧ Noted engine text (.pipeline name) s) ∧
        ∀ kind name, m.target = kind ++ "." ++ name →
          ∃ s, s.stop = behind.offset ∧ Noted engine text (.typed kind name) s) := by
  refine ⟨?_, ?_, ?_⟩
  · rintro name rfl hcomment
    obtain ⟨s, hs, hstop⟩ := h.mem_scan_pipeline hclean hcomment
    exact ⟨s, hstop, noted_of_mem_scan engine hs⟩
  · rintro kind name rfl hcomment
    obtain ⟨s, hs, hstop⟩ := h.mem_scan_variable hclean hcomment
    exact ⟨s, hstop, noted_of_mem_scan engine hs⟩
  · rintro m rfl
    obtain ⟨behind, returning, value, hhead, -⟩ := mock_spec h.mock
    refine ⟨behind, returning, hhead, fun hnext => ?_⟩
    obtain ⟨hpipeline, hvariable⟩ := h.mem_scan_mock hhead hnext
    constructor
    · intro name hname
      obtain ⟨s, hs, hstop⟩ := hpipeline name hname
      exact ⟨s, hstop, noted_of_mem_scan engine hs⟩
    · intro kind name hname
      obtain ⟨s, hs, hstop⟩ := hvariable kind name hname
      exact ⟨s, hstop, noted_of_mem_scan engine hs⟩

/-- A suite with a mock of a variable and a test that runs a pipeline. -/
def mockingSuite : List Char :=
  "describe \"d\"\n  with mock pg.user returning 2\n  it \"t\"\n    when executing pipeline p".toList

/-- Its mock and its action are references. -/
theorem tests_noted_mockingSuite : (parse mockingSuite).reports = [] ∧
    (∃ s, s.stop = 32 ∧ Noted "handlebars" mockingSuite (.typed "pg" "user") s) ∧
    ∃ s, s.stop = 83 ∧ Noted "handlebars" mockingSuite (.pipeline "p") s := by
  have hclean : (parse mockingSuite).reports = [] := by decide +kernel
  let body : Cursor := ⟨12, 12, some '"', mockingSuite.drop 12⟩
  let mocked : Cursor := ⟨44, 31, some '2', mockingSuite.drop 44⟩
  let title : Cursor := ⟨53, 8, some '"', mockingSuite.drop 53⟩
  let last : Cursor := ⟨83, 29, some 'p', []⟩
  obtain ⟨rs, hsuite⟩ : ∃ rs, item (start 0 mockingSuite) = some (.suite
      ⟨⟨"d", [⟨"pg.user", "2"⟩], [⟨"t", [], .runPipeline "p", none, []⟩]⟩, ⟨0, 83⟩⟩ rs, last) :=
    item_of_suiteAt (by decide +kernel)
  have hheading : heading "describe".toList (start 0 mockingSuite).layout
      = some (⟨"d", ⟨10, 11⟩⟩, body) := by decide +kernel
  have hmock : mock body.layout = some (⟨"pg.user", "2"⟩, mocked) := by decide +kernel
  have hitem := suiteItem_of_mock hmock
  have htest : heading "it".toList mocked.layout = some (⟨"t", ⟨51, 52⟩⟩, title) := by
    decide +kernel
  have hnone : mock mocked.layout = none := by decide +kernel
  have haction : testClause title = some (.action (.runPipeline "p"), last) := by decide +kernel
  have hhead : mockHead body.layout = some ("pg.user", ⟨32, 19, some 'r', mockingSuite.drop 32⟩,
      ⟨42, 29, some 'g', mockingSuite.drop 42⟩) := by decide +kernel
  have hbody : InSuite mockingSuite body := .intro .refl hsuite hheading .refl
  have hmocked : InSuite mockingSuite mocked := .intro .refl hsuite hheading (.single ⟨_, hitem⟩)
  refine ⟨hclean, ?_, ?_⟩
  · obtain ⟨behind, returning, hhead', hnoted⟩ :=
      (tests_noted "handlebars" hclean (.ofSuite hbody hmock)).2.2 _ rfl
    rw [hhead] at hhead'
    cases hhead'
    exact (hnoted (by decide)).2 "pg" "user" (by decide)
  · exact (tests_noted "handlebars" hclean (.ofTest (.intro hmocked hnone htest .refl) haction)).1
      "p" rfl (by decide)

/-- A clause of the document is read, nothing is reported of the document, and nothing is recorded
for the symbol. -/
structure Missed (text : List Char) (k : TestClause) (key : SymbolKey) : Prop where
  clean : (parse text).reports = []
  read : ∃ c d, ClauseRead text c k d
  unrecorded : (recorded text).spansOf key = []

theorem recorded_eq_nil (h : foundFrom (start 0 text) = []) (key : SymbolKey) :
    (recorded text).spansOf key = [] := by
  refine List.eq_nil_iff_forall_not_mem.2 fun s hs => ?_
  have hmem := mem_scan.1 (Context.mem_recorded.1 hs)
  rw [h] at hmem
  cases hmem

/-- A test with a comment right behind the name of what it runs. -/
def commentedTest : List Char :=
  "describe \"d\"\n  it \"t\"\n    when executing pipeline p# comment\n".toList

/-- A suite with a mock whose value starts with a letter right behind `returning`. -/
def accentedMock : List Char :=
  "describe \"d\"\n  with mock pipeline p returningé\n".toList

/-- Neither name is recorded. -/
theorem names_missed :
    Missed commentedTest (.action (.runPipeline "p")) (.pipeline "p") ∧
    Missed accentedMock (.mock ⟨"pipeline p", "é"⟩) (.pipeline "p") := by
  constructor
  · let body : Cursor := ⟨12, 12, some '"', commentedTest.drop 12⟩
    let title : Cursor := ⟨21, 8, some '"', commentedTest.drop 21⟩
    let last : Cursor := ⟨51, 29, some 'p', commentedTest.drop 51⟩
    obtain ⟨rs, hsuite⟩ : ∃ rs, item (start 0 commentedTest) = some (.suite
        ⟨⟨"d", [], [⟨"t", [], .runPipeline "p", none, []⟩]⟩, ⟨0, 51⟩⟩ rs, last) :=
      item_of_suiteAt (by decide +kernel)
    have hheading : heading "describe".toList (start 0 commentedTest).layout
        = some (⟨"d", ⟨10, 11⟩⟩, body) := by decide +kernel
    have hnone : mock body.layout = none := by decide +kernel
    have htest : heading "it".toList body.layout = some (⟨"t", ⟨19, 20⟩⟩, title) := by
      decide +kernel
    have haction : testClause title = some (.action (.runPipeline "p"), last) := by decide +kernel
    have hbody : InSuite commentedTest body := .intro .refl hsuite hheading .refl
    exact ⟨by decide +kernel, ⟨_, _, .ofTest (.intro hbody hnone htest .refl) haction⟩,
      recorded_eq_nil (by decide +kernel) _⟩
  · let body : Cursor := ⟨12, 12, some '"', accentedMock.drop 12⟩
    let last : Cursor := ⟨47, 34, some 'é', accentedMock.drop 46⟩
    obtain ⟨rs, hsuite⟩ : ∃ rs, item (start 0 accentedMock) = some (.suite
        ⟨⟨"d", [⟨"pipeline p", "é"⟩], []⟩, ⟨0, 47⟩⟩ rs, last) := item_of_suiteAt (by decide +kernel)
    have hheading : heading "describe".toList (start 0 accentedMock).layout
        = some (⟨"d", ⟨10, 11⟩⟩, body) := by decide +kernel
    have hmock : mock body.layout = some (⟨"pipeline p", "é"⟩, last) := by decide +kernel
    have hbody : InSuite accentedMock body := .intro .refl hsuite hheading .refl
    exact ⟨by decide +kernel, ⟨_, _, .ofSuite hbody hmock⟩, recorded_eq_nil (by decide +kernel) _⟩

end PipelineLang
