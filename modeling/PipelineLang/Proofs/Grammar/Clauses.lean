import Mathlib.Data.List.Basic
import PipelineLang.Proofs.Grammar.Placement

/-!
# Clauses of test blocks

Which clauses are read of a document, and from where to where. A clause belongs to a suite or to a
test in it, and is read at a cursor that the reader of the block comes by (`ClauseRead`); the mocks
and the actions of the program are such clauses (`clauses_of_program`). A clause that a later one
overrides is read as well. If nothing of the document is reported, nothing is left over behind a
clause: up to the end of the document or the next thing that is read there is only layout
(`InTest.next`).
-/

namespace PipelineLang

open Cursor

namespace Grammar

variable {text : List Char} {b c d : Cursor}

/-! ## Clauses -/

/-- Reads the next item if it is a suite. -/
def suiteAt? (c : Cursor) : Option (Spanned TestSuite × Cursor) :=
  (item c).bind fun (i, d) => i.asSuite?.map (·, d)

theorem item_of_suiteAt {v : Spanned TestSuite} (h : suiteAt? c = some (v, d)) :
    ∃ rs, item c = some (.suite v rs, d) := by
  obtain ⟨⟨i, e⟩, hi, hv⟩ := Option.bind_eq_some_iff.1 h
  obtain ⟨v', hv', heq⟩ := Option.map_eq_some_iff.1 hv
  cases heq
  cases i <;> cases hv'
  exact ⟨_, hi⟩

/-- Reads the word that opens a block of tests, and the title of the block. -/
def heading (word : List Char) (c : Cursor) : Option (Token × Cursor) :=
  (spacedWord word c).bind quotedText

/-- The reader of a suite comes by the cursor, behind the title of the suite. -/
inductive InSuite (text : List Char) : Cursor → Prop where
  | intro {s e body c : Cursor} {v : Spanned TestSuite} {rs : List SyntaxReport} {title : Token}
      (hs : Comes item (start 0 text) s) (hsuite : item s = some (.suite v rs, e))
      (htitle : heading "describe".toList s.layout = some (title, body))
      (hc : Comes suiteItem body c) : InSuite text c

/-- The reader of a test in a suite comes by the cursor, behind the title of the test. -/
inductive InTest (text : List Char) : Cursor → Prop where
  | intro {t body c : Cursor} {title : Token} (ht : InSuite text t) (hmock : mock t.layout = none)
      (htitle : heading "it".toList t.layout = some (title, body))
      (hc : Comes testClause body c) : InTest text c

/-- Of the document, the clause is read between the cursors: as a mock of a suite, or as a clause of
a test. -/
inductive ClauseRead (text : List Char) : Cursor → TestClause → Cursor → Prop where
  | ofSuite {b d : Cursor} {m : Mock} (hb : InSuite text b) (h : mock b.layout = some (m, d)) :
      ClauseRead text b.layout (.mock m) d
  | ofTest {b d : Cursor} {k : TestClause} (hb : InTest text b) (h : testClause b = some (k, d)) :
      ClauseRead text b.layout k d

/-- Reads a mock up to its value: what it stands in for, with the cursor behind that and the cursor
behind `returning`. -/
def mockHead (c : Cursor) : Option (String × Cursor × Cursor) := do
  let next ← (spacedWord "with".toList c).or (spacedWord "and".toList c)
  let (target, behind) ← mockTarget (← spacedWord "mock".toList next)
  let returning ← (← behind.someBlanks).keyword "returning".toList
  return (target, behind, returning)

theorem mock_eq (c : Cursor) : mock c = (mockHead c).bind fun (target, _, returning) =>
    (clauseValue returning.blanks).map fun (value, last) => (⟨target, value.text⟩, last) := by
  simp only [mock, mockHead, bind, pure, Option.bind_assoc, Option.bind_some, Option.map_eq_bind]
  rfl

theorem mock_spec {m : Mock} (h : mock c = some (m, d)) : ∃ behind returning value,
    mockHead c = some (m.target, behind, returning) ∧
      clauseValue returning.blanks = some (value, d) := by
  rw [mock_eq] at h
  obtain ⟨⟨target, behind, returning⟩, hhead, hvalue⟩ := Option.bind_eq_some_iff.1 h
  obtain ⟨⟨value, last⟩, hvalue, heq⟩ := Option.map_eq_some_iff.1 hvalue
  cases heq
  exact ⟨behind, returning, value, hhead, hvalue⟩

theorem mockHead_spec {target : String} {behind returning : Cursor}
    (h : mockHead c = some (target, behind, returning)) : ∃ next first blank,
      (spacedWord "with".toList c).or (spacedWord "and".toList c) = some next ∧
      spacedWord "mock".toList next = some first ∧ mockTarget first = some (target, behind) ∧
      behind.someBlanks = some blank ∧ blank.keyword "returning".toList = some returning := by
  simp only [mockHead, bind, Option.bind_eq_some_iff] at h
  obtain ⟨next, hnext, first, hfirst, ⟨target, behind⟩, htarget, blank, hblank, returning,
    hreturning, heq⟩ := h
  cases heq
  exact ⟨next, first, blank, hnext, hfirst, htarget, hblank, hreturning⟩

/-- What a mock stands in for is a pipeline, a bare name or the name of a variable. -/
theorem mockTarget_cases {target : String} (h : mockTarget c = some (target, d)) :
    (∃ start token, spacedWord "pipeline".toList c = some start ∧
      start.identifier = some (token, d) ∧ target = "pipeline " ++ token.text) ∨
    (∃ token, c.identifier = some (token, d) ∧ target = token.text) ∨
    ∃ word next dot token, c.identifier = some (word, next) ∧ next.char '.' = some dot ∧
      dot.identifier = some (token, d) ∧ target = word.text ++ "." ++ token.text := by
  unfold mockTarget at h
  split at h
  · next token next htarget =>
    cases h
    obtain ⟨start, hstart, htoken⟩ := Option.bind_eq_some_iff.1 htarget
    exact Or.inl ⟨start, token, hstart, htoken, rfl⟩
  · simp only [bind, Option.bind_eq_some_iff] at h
    obtain ⟨⟨word, next⟩, hword, h⟩ := h
    split at h
    · cases h
      exact Or.inr (Or.inl ⟨word, hword, rfl⟩)
    · next dot hdot =>
      simp only [Option.bind_eq_some_iff] at h
      obtain ⟨⟨token, last⟩, htoken, heq⟩ := h
      cases heq
      exact Or.inr (Or.inr ⟨word, next, dot, token, hword, hdot, htoken, rfl⟩)

theorem not_mem_of_identifier {t : Token} {x : Char} (h : c.identifier = some (t, d))
    (hx : isIdentChar x = false) : x ∉ t.text.toList := by
  intro hmem
  rw [(identifier_spec h).2.2.1.2 x hmem] at hx
  cases hx

/-- The target of a mock tells that a pipeline is meant, and its name. -/
theorem mockTarget_pipeline {name : String} (h : mockTarget c = some ("pipeline " ++ name, d)) :
    ∃ start token, spacedWord "pipeline".toList c = some start ∧
      start.identifier = some (token, d) ∧ name = token.text := by
  have hspace : ' ' ∈ ("pipeline " ++ name).toList := by simp
  rcases mockTarget_cases h with ⟨start, token, hstart, htoken, heq⟩ | ⟨token, htoken, heq⟩ |
    ⟨word, next, dot, token, hword, -, htoken, heq⟩
  · refine ⟨start, token, hstart, htoken, String.toList_injective ?_⟩
    have hlist := congrArg String.toList heq
    rw [String.toList_append, String.toList_append] at hlist
    exact List.append_cancel_left hlist
  · rw [heq] at hspace
    exact absurd hspace (not_mem_of_identifier htoken (by decide))
  · have hword := not_mem_of_identifier hword (by decide : isIdentChar ' ' = false)
    have htoken := not_mem_of_identifier htoken (by decide : isIdentChar ' ' = false)
    rw [heq] at hspace
    simp [hword, htoken] at hspace

/-- The target of a mock tells that a variable is meant, with its type and its name. -/
theorem mockTarget_variable {kind name : String}
    (h : mockTarget c = some (kind ++ "." ++ name, d)) :
    ∃ word next dot token, c.identifier = some (word, next) ∧ next.char '.' = some dot ∧
      dot.identifier = some (token, d) ∧ kind = word.text ∧ name = token.text := by
  have hdot : '.' ∈ (kind ++ "." ++ name).toList := by simp
  rcases mockTarget_cases h with ⟨start, token, hstart, htoken, heq⟩ | ⟨token, htoken, heq⟩ |
    ⟨word, next, dot, token, hword, hchar, htoken, heq⟩
  · have htoken := not_mem_of_identifier htoken (by decide : isIdentChar '.' = false)
    rw [heq] at hdot
    simp [htoken] at hdot
  · rw [heq] at hdot
    exact absurd hdot (not_mem_of_identifier htoken (by decide))
  · have hlist := congrArg String.toList heq.symm
    simp only [String.toList_append, List.append_assoc] at hlist
    obtain ⟨hkind, -, hname⟩ := (List.append_cons_inj_of_notMem
      (not_mem_of_identifier hword (by decide))
      (not_mem_of_identifier htoken (by decide))).1 hlist
    exact ⟨word, next, dot, token, hword, hchar, htoken, (String.toList_injective hkind).symm,
      (String.toList_injective hname).symm⟩

theorem heading_lt {word : List Char} {t : Token} (hword : word ≠ [])
    (h : heading word c = some (t, d)) : c < d := by
  obtain ⟨next, hnext, htitle⟩ := Option.bind_eq_some_iff.1 h
  exact (spacedWord_lt hword hnext).trans (quotedText_lt htitle)

/-- A suite is what its title and the items behind it make up. -/
theorem suite_eq (c : Cursor) : suite c = (heading "describe".toList c).map fun (title, body) =>
    let (items, last) := body.many suiteItem
    (⟨⟨title.text, items.filterMap SuiteItem.mock?, items.filterMap SuiteItem.test?⟩,
      ⟨c.offset, last.offset⟩⟩, items.filterMap SuiteItem.report?, last) := by
  simp only [suite, heading, bind, pure, Option.bind_assoc, Option.map_eq_bind]
  rfl

theorem suite_spec {v : Spanned TestSuite} {rs : List SyntaxReport}
    (h : suite c = some (v, rs, d)) : ∃ title body,
      heading "describe".toList c = some (title, body) ∧ d = (body.many suiteItem).2 ∧
        v.value.mocks = (body.many suiteItem).1.filterMap SuiteItem.mock? ∧
        v.value.tests = (body.many suiteItem).1.filterMap SuiteItem.test? := by
  rw [suite_eq] at h
  obtain ⟨⟨title, body⟩, htitle, heq⟩ := Option.map_eq_some_iff.1 h
  cases heq
  exact ⟨title, body, htitle, rfl, rfl, rfl⟩

/-- A test is what its title and the clauses behind it make up. -/
theorem test_eq (c : Cursor) : test c = (heading "it".toList c).map fun (title, body) =>
    ((testOfClauses title.text (body.many testClause).1).elim
      (.error ⟨.missingWhen title.text, ⟨c.offset, body.offset⟩⟩) .ok,
      (body.many testClause).2) := by
  simp only [test, heading, bind]
  cases spacedWord "it".toList c with
  | none => rfl
  | some next =>
    simp only [Option.bind_some]
    cases next.quotedText with
    | none => rfl
    | some r =>
      obtain ⟨title, body⟩ := r
      simp only [Option.bind_some, Option.map_some]
      cases testOfClauses title.text (body.many testClause).1 with
      | none => rfl
      | some t => rfl

theorem suiteItem_cases {i : SuiteItem} (h : suiteItem c = some (i, d)) :
    (∃ m, i = .mock m ∧ mock c.layout = some (m, d)) ∨
    mock c.layout = none ∧ ∃ title body, heading "it".toList c.layout = some (title, body) ∧
      d = (body.many testClause).2 ∧
      ((∃ r, i = .fault r) ∨
        ∃ t, i = .test t ∧ testOfClauses title.text (body.many testClause).1 = some t) := by
  simp only [suiteItem] at h
  split at h
  · next m next hmock =>
    cases h
    exact Or.inl ⟨m, rfl, hmock⟩
  · next hmock =>
    rw [test_eq] at h
    cases htitle : heading "it".toList c.layout with
    | none =>
      rw [htitle] at h
      cases h
    | some r =>
      obtain ⟨title, body⟩ := r
      rw [htitle] at h
      refine Or.inr ⟨hmock, title, body, rfl, ?_⟩
      cases htest : testOfClauses title.text (body.many testClause).1 with
      | none =>
        simp only [Option.map_some, htest, Option.elim] at h
        cases h
        exact ⟨rfl, Or.inl ⟨_, rfl⟩⟩
      | some t =>
        simp only [Option.map_some, htest, Option.elim] at h
        cases h
        exact ⟨rfl, Or.inr ⟨t, rfl, rfl⟩⟩

theorem suiteItem_of_mock {m : Mock} (h : mock c.layout = some (m, d)) :
    suiteItem c = some (.mock m, d) := by
  simp only [suiteItem, h]

theorem suiteItem_of_heading {title : Token} (hmock : mock c.layout = none)
    (h : heading "it".toList c.layout = some (title, b)) :
    ∃ i, suiteItem c = some (i, (b.many testClause).2) := by
  simp only [suiteItem, hmock, test_eq, h, Option.map_some]
  cases testOfClauses title.text (b.many testClause).1 with
  | none => exact ⟨_, rfl⟩
  | some t => exact ⟨_, rfl⟩

theorem testClause_cases {k : TestClause} (h : testClause c = some (k, d)) :
    (∃ m, k = .mock m ∧ mock c.layout = some (m, d)) ∨
    (∃ a, k = .action a ∧ action c.layout = some (a, d)) ∨
    (∃ s, k = .input s.text ∧ input c.layout = some (s, d)) ∨
    ∃ k', k = .condition k' ∧ condition c.layout = some (k', d) := by
  simp only [testClause, Option.or_eq_some_iff, Option.map_eq_some_iff] at h
  rcases h with ((⟨⟨m, e⟩, hm, heq⟩ | ⟨-, ⟨a, e⟩, ha, heq⟩) | ⟨-, ⟨s, e⟩, hs, heq⟩) |
    ⟨-, ⟨k', e⟩, hk, heq⟩
  · cases heq; exact Or.inl ⟨m, rfl, hm⟩
  · cases heq; exact Or.inr (Or.inl ⟨a, rfl, ha⟩)
  · cases heq; exact Or.inr (Or.inr (Or.inl ⟨s, rfl, hs⟩))
  · cases heq; exact Or.inr (Or.inr (Or.inr ⟨k', rfl, hk⟩))

/-- The words of the action are read between the cursors. -/
def ActionRead (c d : Cursor) : Action → Prop
  | .callRoute method path => ∃ next start word behind blank token,
      spacedWord "when".toList c = some next ∧ spacedWord "calling".toList next = some start ∧
      start.identifier = some (word, behind) ∧ word.text ∈ methods ∧
      behind.someBlanks = some blank ∧ blank.bareToken = some (token, d) ∧
      method = word.text ∧ path = token.text
  | .runPipeline name => ∃ next behind start token,
      spacedWord "when".toList c = some next ∧ spacedWord "executing".toList next = some behind ∧
      spacedWord "pipeline".toList behind = some start ∧ start.identifier = some (token, d) ∧
      name = token.text
  | .runVariable kind name => ∃ next behind first word blank start token,
      spacedWord "when".toList c = some next ∧ spacedWord "executing".toList next = some behind ∧
      spacedWord "variable".toList behind = some first ∧ first.identifier = some (word, blank) ∧
      blank.someBlanks = some start ∧ start.identifier = some (token, d) ∧
      kind = word.text ∧ name = token.text

theorem action_read {a : Action} (h : action c = some (a, d)) : ActionRead c d a := by
  simp only [action, bind, Option.bind_eq_some_iff] at h
  obtain ⟨next, hwhen, h⟩ := h
  split at h
  · next behind hcalling =>
    simp only [routeAction, method, bind, Option.bind_eq_some_iff] at h
    obtain ⟨start, hstart, ⟨word, behind'⟩, ⟨⟨word, behind'⟩, hword, hmethod⟩, blank, hblank,
      ⟨path, last⟩, hpath, heq⟩ := h
    cases heq
    split at hmethod
    · next hcontains =>
      cases hmethod
      exact ⟨next, start, word, behind', blank, path, hwhen,
        Option.bind_eq_some_iff.2 ⟨behind, hcalling, hstart⟩, hword,
        List.contains_iff_mem.1 hcontains, hblank, hpath, rfl, rfl⟩
    · cases hmethod
  · obtain ⟨behind, hexecuting, hrun⟩ := Option.bind_eq_some_iff.1 h
    unfold runAction at hrun
    split at hrun
    · next word hword =>
      simp only [bind, Option.bind_eq_some_iff] at hrun
      obtain ⟨start, hstart, ⟨name, last⟩, hname, heq⟩ := hrun
      cases heq
      exact ⟨next, behind, start, name, hwhen, hexecuting,
        Option.bind_eq_some_iff.2 ⟨word, hword, hstart⟩, hname, rfl⟩
    · simp only [variableAction, spacedName, bind, Option.bind_eq_some_iff] at hrun
      obtain ⟨first, hfirst, ⟨kind, start⟩, ⟨⟨kind, blank⟩, hkind, start, hstart, heq⟩,
        ⟨name, last⟩, hname, heq'⟩ := hrun
      cases heq
      cases heq'
      exact ⟨next, behind, first, kind, blank, start, name, hwhen, hexecuting, hfirst, hkind,
        hstart, hname, rfl, rfl⟩

theorem action_opening {a : Action} (h : action c = some (a, d)) :
    ∃ next, spacedWord "when".toList c = some next := by
  simp only [action, bind, Option.bind_eq_some_iff] at h
  obtain ⟨next, hwhen, -⟩ := h
  exact ⟨next, hwhen⟩

/-! ## Clauses of the program -/

theorem testOfClauses_spec {name : String} {ks : List TestClause} {t : TestCase}
    (h : testOfClauses name ks = some t) :
    (∀ m ∈ t.mocks, .mock m ∈ ks) ∧ .action t.action ∈ ks := by
  obtain ⟨a, ha, rfl⟩ := Option.map_eq_some_iff.1 h
  constructor
  · intro m hm
    obtain ⟨k, hk, hm⟩ := List.mem_filterMap.1 hm
    cases k <;> cases hm
    exact hk
  · obtain ⟨k, hk, ha⟩ := List.mem_filterMap.1 (List.mem_of_getLast? ha)
    cases k <;> cases ha
    exact hk

theorem exists_inSuite {s e body : Cursor} {v : Spanned TestSuite} {rs : List SyntaxReport}
    {title : Token} (hs : Comes item (start 0 text) s) (hsuite : item s = some (.suite v rs, e))
    (htitle : heading "describe".toList s.layout = some (title, body)) {i : SuiteItem}
    (hi : i ∈ (body.many suiteItem).1) : ∃ b d, InSuite text b ∧ suiteItem b = some (i, d) := by
  obtain ⟨b, d, hb, hd⟩ := exists_comes (fun _ _ _ => suiteItem_lt) body hi
  exact ⟨b, d, .intro hs hsuite htitle hb, hd⟩

theorem mock_of_suiteItem {m : Mock} (hb : InSuite text b) (h : suiteItem b = some (.mock m, d)) :
    ClauseRead text b.layout (.mock m) d := by
  rcases suiteItem_cases h with ⟨m', heq, hmock⟩ | ⟨-, -, -, -, -, ⟨r, heq⟩ | ⟨t, heq, -⟩⟩
  · cases heq
    exact .ofSuite hb hmock
  · cases heq
  · cases heq

theorem clauses_of_test {t : TestCase} (hb : InSuite text b)
    (h : suiteItem b = some (.test t, d)) :
    (∀ m ∈ t.mocks, ∃ c d, ClauseRead text c (.mock m) d) ∧
      ∃ c d, ClauseRead text c (.action t.action) d := by
  rcases suiteItem_cases h with
    ⟨m, heq, -⟩ | ⟨hmock, title, body, htitle, -, ⟨r, heq⟩ | ⟨t', heq, htest⟩⟩
  · cases heq
  · cases heq
  · cases heq
    have hclause {k : TestClause} (hk : k ∈ (body.many testClause).1) :
        ∃ c d, ClauseRead text c k d := by
      obtain ⟨a, e, ha, hread⟩ := exists_comes (fun _ _ _ => testClause_lt) body hk
      exact ⟨_, e, .ofTest (.intro hb hmock htitle ha) hread⟩
    obtain ⟨hmocks, haction⟩ := testOfClauses_spec htest
    exact ⟨fun m hm => hclause (hmocks m hm), hclause haction⟩

/-- **The mocks and the actions of the program are clauses that are read.** -/
theorem clauses_of_program (text : List Char) : ∀ v ∈ (parse text).program.suites,
    (∀ m ∈ v.value.mocks, ∃ c d, ClauseRead text c (.mock m) d) ∧
    ∀ t ∈ v.value.tests, (∀ m ∈ t.mocks, ∃ c d, ClauseRead text c (.mock m) d) ∧
      ∃ c d, ClauseRead text c (.action t.action) d := by
  intro v hv
  obtain ⟨i, hi, hv⟩ := List.mem_filterMap.1 hv
  cases i <;> cases hv
  obtain ⟨s, e, hs, hread⟩ := exists_comes (fun _ _ _ => item_lt) _ hi
  obtain ⟨-, hsuite | ⟨-, hline⟩⟩ := item_cases hread
  · obtain ⟨title, body, htitle, -, hmocks, htests⟩ := suite_spec (declaration_read hsuite)
    rw [hmocks, htests]
    constructor
    · intro m hm
      obtain ⟨i, hi, hm⟩ := List.mem_filterMap.1 hm
      cases i <;> cases hm
      obtain ⟨b, d, hb, hd⟩ := exists_inSuite hs hread htitle hi
      exact ⟨_, d, mock_of_suiteItem hb hd⟩
    · intro t ht
      obtain ⟨i, hi, ht⟩ := List.mem_filterMap.1 ht
      cases i <;> cases ht
      obtain ⟨b, d, hb, hd⟩ := exists_inSuite hs hread htitle hi
      exact clauses_of_test hb hd
  · cases hline

/-! ## What follows a clause -/

theorem peek_ne_of_any {p : Char → Bool} {x : Char} (h : c.peek.any p = true) (hx : p x = false) :
    c.peek ≠ some x := by
  intro heq
  rw [heq, Option.any_some, hx] at h
  cases h

theorem peek_of_keyword {word : List Char} (hword : word.head?.any isIdentChar = true)
    (h : c.keyword word = some d) : c.peek.any isIdentChar = true := by
  rw [peek, (keyword_spec h).1]
  cases word with
  | nil => cases hword
  | cons x xs => exact hword

theorem peek_of_spacedWord {word : List Char} (hword : word.head?.any isIdentChar = true)
    (h : spacedWord word c = some d) : c.peek.any isIdentChar = true := by
  obtain ⟨next, hnext, -⟩ := Option.bind_eq_some_iff.1 h
  exact peek_of_keyword hword hnext

theorem peek_of_identifier {t : Token} (h : c.identifier = some (t, d)) :
    c.peek.any isIdentChar = true := by
  obtain ⟨hbetween, -, hidentifier, -⟩ := identifier_spec h
  obtain ⟨x, xs, hcs, -⟩ := hidentifier.head
  rw [peek, hbetween.rest_eq, hcs]
  exact hidentifier.2 x (hcs ▸ List.mem_cons_self)

theorem peek_of_mockTarget {target : String} (h : mockTarget c = some (target, d)) :
    c.peek.any isIdentChar = true := by
  rcases mockTarget_cases h with ⟨start, token, hstart, -⟩ | ⟨token, htoken, -⟩ |
    ⟨token, next, dot, -, htoken, -⟩
  · exact peek_of_spacedWord (by decide) hstart
  · exact peek_of_identifier htoken
  · exact peek_of_identifier htoken

theorem peek_of_mock {m : Mock} (h : mock c = some (m, d)) : c.peek.any isIdentChar = true := by
  simp only [mock, bind, Option.bind_eq_some_iff] at h
  obtain ⟨next, hnext, -⟩ := h
  rcases Option.or_eq_some_iff.1 hnext with hnext | ⟨-, hnext⟩
  · exact peek_of_spacedWord (by decide) hnext
  · exact peek_of_spacedWord (by decide) hnext

theorem peek_of_heading {word : List Char} {t : Token} (hword : word.head?.any isIdentChar = true)
    (h : heading word c = some (t, d)) : c.peek.any isIdentChar = true := by
  obtain ⟨next, hnext, -⟩ := Option.bind_eq_some_iff.1 h
  exact peek_of_spacedWord hword hnext

theorem peek_of_testClause {k : TestClause} (h : testClause c = some (k, d)) :
    c.layout.peek.any isIdentChar = true := by
  rcases testClause_cases h with ⟨m, -, hm⟩ | ⟨a, -, ha⟩ | ⟨s, -, hs⟩ | ⟨k', -, hk⟩
  · exact peek_of_mock hm
  · obtain ⟨next, hnext⟩ := action_opening ha
    exact peek_of_spacedWord (by decide) hnext
  · simp only [input, bind, Option.bind_eq_some_iff] at hs
    obtain ⟨next, hnext, -⟩ := hs
    exact peek_of_spacedWord (by decide) hnext
  · simp only [condition, bind, Option.bind_eq_some_iff] at hk
    obtain ⟨⟨l, next⟩, hlead, -⟩ := hk
    unfold lead at hlead
    split at hlead
    · next hthen => exact peek_of_keyword (by decide) hthen
    · obtain ⟨behind, hand, -⟩ := Option.map_eq_some_iff.1 hlead
      exact peek_of_keyword (by decide) hand

theorem peek_of_suiteItem {i : SuiteItem} (h : suiteItem c = some (i, d)) :
    c.layout.peek.any isIdentChar = true := by
  rcases suiteItem_cases h with ⟨m, -, hm⟩ | ⟨-, title, body, htitle, -⟩
  · exact peek_of_mock hm
  · exact peek_of_heading (by decide) htitle

theorem peek_of_declaration {i : Item} (h : declaration c = some (i, d)) :
    c.peek.any isIdentChar = true := by
  rcases declaration_cases h with
    ⟨v, rs, -, hread⟩ | ⟨v, rs, -, hread⟩ | ⟨v, -, hread⟩ | ⟨v, rs, -, hread⟩ | ⟨v, rs, -, hread⟩
  · simp only [config, bind, Option.bind_eq_some_iff] at hread
    obtain ⟨next, hnext, -⟩ := hread
    exact peek_of_keyword (by decide) hnext
  · simp only [namedPipeline, bind, Option.bind_eq_some_iff] at hread
    obtain ⟨next, hnext, -⟩ := hread
    exact peek_of_keyword (by decide) hnext
  · obtain ⟨kind, next, -, -, -, hkind, -⟩ := typedVariable_spec hread
    exact peek_of_identifier hkind
  · simp only [route, method, bind, Option.bind_eq_some_iff] at hread
    obtain ⟨⟨word, next⟩, ⟨⟨word', next'⟩, hword, -⟩, -⟩ := hread
    exact peek_of_identifier hword
  · obtain ⟨title, body, htitle, -⟩ := suite_spec hread
    exact peek_of_heading (by decide) htitle

/-- Without reports every item is a declaration. -/
theorem declaration_of_clean {i : Item} (hclean : (parse text).reports = [])
    (hc : Comes item (start 0 text) c) (h : item c = some (i, d)) :
    declaration c.layout = some (i, d) := by
  obtain ⟨-, hread | ⟨-, hline⟩⟩ := item_cases h
  · exact hread
  · have hreports := (List.append_eq_nil_iff.1 hclean).1
    have hnone := List.flatMap_eq_nil_iff.1 hreports i (hc.mem_many (fun _ _ _ => item_lt) h)
    cases hline
    cases hnone

/-- Behind a suite the document goes on with a declaration or ends. -/
theorem InSuite.next (hclean : (parse text).reports = []) (hb : InSuite text b) :
    b.layout.atEnd = true ∨ b.layout.peek.any isIdentChar = true := by
  cases hb with
  | intro hs hsuite htitle hc =>
    cases hitem : suiteItem b with
    | some r => exact Or.inr (peek_of_suiteItem (d := r.2) hitem)
    | none =>
      have hread := declaration_of_clean hclean hs hsuite
      obtain ⟨title', body', htitle', hend, -⟩ := suite_spec (declaration_read hread)
      rw [htitle] at htitle'
      cases htitle'
      obtain rfl := (hc.stop (fun _ _ _ => suiteItem_lt) hitem).symm.trans hend.symm
      have hb : Comes item (start 0 text) b := hs.tail ⟨_, hsuite⟩
      cases hnext : item b with
      | none =>
        simp only [item] at hnext
        split at hnext
        · next hatEnd => exact Or.inl hatEnd
        · split at hnext
          · cases hnext
          · cases hnext
      | some r =>
        exact Or.inr (peek_of_declaration (declaration_of_clean (d := r.2) hclean hb hnext))

/-- Behind a clause of a test another clause stands, or something else that is read, or the document
ends. -/
theorem InTest.next (hclean : (parse text).reports = []) (hb : InTest text b) :
    b.layout.atEnd = true ∨ b.layout.peek.any isIdentChar = true := by
  cases hb with
  | intro ht hmock htitle hc =>
    cases hclause : testClause b with
    | some r => exact Or.inr (peek_of_testClause (d := r.2) hclause)
    | none =>
      obtain ⟨i, hi⟩ := suiteItem_of_heading hmock htitle
      rw [hc.stop (fun _ _ _ => testClause_lt) hclause] at hi
      cases ht with
      | intro hs hsuite htitle' hc' =>
        exact InSuite.next hclean (.intro hs hsuite htitle' (hc'.tail ⟨i, hi⟩))

end Grammar
end PipelineLang
