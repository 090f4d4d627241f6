import PipelineLang.Proofs.Grammar.ClauseLocality

/-!
# Test blocks with text in front and behind

A suite goes on to the end of the text that it stands in, so of the text behind it is assumed that it
is layout and nothing else (`IsVoid`). If no clause is torn, the suite is read as without that text,
and with text in front its places are shifted (`suite_within`).

Whatever is torn behind the last thing that is read in a suite starts no declaration, so in the text
alone it is part of a line that is reported (`declaration_of_torn`).
-/

namespace PipelineLang

instance : Framed (Except SyntaxReport TestCase) := .shifted fun n => Except.mapError (·.shift n)
instance : Framed Grammar.SuiteItem := .shifted Grammar.SuiteItem.shift

namespace Grammar

open Cursor

variable {front back : List Char} {c d : Cursor}

/-! ## Texts that hold nothing -/

/-- The text is layout to its end. -/
def IsVoid (text : List Char) : Prop := (start 0 text).layout.rest = []

theorem isVoid_nil : IsVoid [] := rfl

theorem IsVoid.opensAfresh (h : IsVoid back) : OpensAfresh back := by
  rw [OpensAfresh, h]
  exact isFresh_nil

/-- Behind the layout of a closed cursor something is left, and it is closed as well, or nothing is
left in either text. -/
theorem IsVoid.layout_cases (hback : IsVoid back) (h : Closed back c) (front : List Char) :
    (Closed back c.layout ∧ (c.within front back).layout = c.layout.within front back) ∨
      (c.layout.rest = [] ∧ (c.within front back).layout.rest = []) :=
  (h.layout_or_end front).imp_right fun ⟨hend, hrest⟩ => ⟨hend, hrest.trans hback⟩

/-! ## Where a clause is torn -/

theorem ne_end_of_peek {p : Char → Bool} (h : c.peek.any p = true) : c.rest ≠ [] := by
  intro hend
  rw [peek, hend] at h
  cases h

theorem testClause_of_end (h : c.layout.rest = []) : testClause c = none := by
  cases hk : testClause c with
  | none => rfl
  | some r => exact absurd h (ne_end_of_peek (peek_of_testClause (d := r.2) hk))

theorem suiteItem_of_end (h : c.layout.rest = []) : suiteItem c = none := by
  cases hi : suiteItem c with
  | none => rfl
  | some r => exact absurd h (ne_end_of_peek (peek_of_suiteItem (d := r.2) hi))

/-- The words that open a clause that may be torn. -/
def clauseWords : List String := ["with", "and", "then"]

theorem isIdentifier_of_mem_clauseWords : ∀ word ∈ clauseWords, IsIdentifier word := by decide

/-- A word of a clause stands at the cursor, and another word behind it, without an equals sign. -/
def OpensClause (c : Cursor) : Prop :=
  ∃ word ∈ clauseWords, ∃ next blank name behind, c.keyword word.toList = some next ∧
    next.someBlanks = some blank ∧ blank.identifier = some (name, behind) ∧
    behind.blanks.peek ≠ some '='

/-- No declaration starts with a word that none of them has, unless a name and an equals sign stand
behind it. -/
theorem declaration_of_word {word : String} (hword : IsIdentifier word)
    (hother : word ∉ "config" :: "pipeline" :: "describe" :: methods)
    (h : c.keyword word.toList = some d) (hname : word ∈ reservedTypes ∨ declaredName d = none) :
    declaration c = none := by
  have hkeyword {other : String} (hidentifier : IsIdentifier other)
      (hmem : other ∈ "config" :: "pipeline" :: "describe" :: methods) :
      c.keyword other.toList = none := by
    rw [Option.eq_none_iff_forall_ne_some]
    intro e he
    exact hother ((keyword_unique hword hidentifier h he).1 ▸ hmem)
  have hconfig := hkeyword (by decide : IsIdentifier "config") (by decide)
  have hpipeline := hkeyword (by decide : IsIdentifier "pipeline") (by decide)
  have hdescribe := hkeyword (by decide : IsIdentifier "describe") (by decide)
  have hmethod : methods.contains word = false := by
    rw [List.contains_eq_mem, decide_eq_false_iff_not]
    exact fun hmem => hother (List.mem_cons_of_mem _ (List.mem_cons_of_mem _
      (List.mem_cons_of_mem _ hmem)))
  have hvariable : typedVariable c = none := by
    simp only [typedVariable, bind, identifier_of_keyword hword h, Option.bind_some]
    split
    · rfl
    · next hreserved =>
      rcases hname with hname | hname
      · exact absurd (List.contains_iff_mem.2 hname) hreserved
      · rw [hname, Option.bind_none]
  simp only [declaration, config, namedPipeline, hvariable, route, method, suite, spacedWord, bind,
    identifier_of_keyword hword h, hconfig, hpipeline, hdescribe, hmethod, Bool.false_eq_true,
    if_false, Option.bind_some, Option.bind_none, Option.map_none, Option.or_none]

theorem OpensClause.declaration_eq_none (h : OpensClause c) : declaration c = none := by
  obtain ⟨word, hmem, next, blank, name, behind, hword, hblank, hname, hpeek⟩ := h
  have hother : ∀ word ∈ clauseWords, word ∉ "config" :: "pipeline" :: "describe" :: methods := by
    decide
  refine declaration_of_word (isIdentifier_of_mem_clauseWords word hmem) (hother word hmem) hword
    (Or.inr ?_)
  simp only [declaredName, bind, hblank, hname, char_eq_none hpeek, Option.bind_some,
    Option.bind_none]

/-- No test starts with a word of a clause. -/
theorem OpensClause.heading_eq_none (h : OpensClause c) : heading "it".toList c = none := by
  obtain ⟨word, hmem, next, -, -, -, hword, -⟩ := h
  have hit : c.keyword "it".toList = none := by
    rw [Option.eq_none_iff_forall_ne_some]
    intro d hd
    have heq := (keyword_unique (isIdentifier_of_mem_clauseWords word hmem)
      (by decide : IsIdentifier "it") hword hd).1
    exact absurd (heq ▸ hmem) (by decide)
  rw [heading, spacedWord, hit]
  rfl

theorem opensClause_of_mockHead {target : String} {behind returning : Cursor}
    (h : mockHead c = some (target, behind, returning)) : OpensClause c := by
  obtain ⟨word, hmem, next, blank, hword, hblank, first, hfirst, htarget⟩ := mockHead_keyword h
  obtain ⟨mocked, hmocked, hbehind⟩ := spacedWord_spec hfirst
  refine ⟨word, ?_, next, blank, _, mocked, hword, hblank,
    identifier_of_keyword (by decide : IsIdentifier "mock") hmocked, ?_⟩
  · exact List.mem_append_left ["then"] hmem
  · rw [← eq_blanks_of_someBlanks hbehind]
    exact peek_ne_of_any (peek_of_mockTarget htarget) (by decide)

/-- The head of a torn mock is in the text. -/
theorem mockHead_of_torn (h : Closed back c) (htorn : Torn front back mock c) :
    ∃ target behind returning, mockHead c = some (target, behind, returning) ∧
      ∃ mark ∈ back, (mark = tick ∨ mark = '"') ∧ returning.blanks.peek = some mark := by
  obtain ⟨hback, hnone, hread⟩ := htorn
  rw [mock_eq] at hnone hread
  rcases (mockHead_within h : Agrees front back _ _).cases with
    ⟨hx, hy⟩ | ⟨⟨target, behind, returning⟩, hx, hy, -, -, hreturning⟩
  · rw [hy] at hread
    exact absurd rfl hread
  · have hreturning : Closed back returning := hreturning
    have hvalue : Torn front back clauseValue returning.blanks := by
      refine ⟨hback, ?_, ?_⟩
      · simpa only [hx, Option.bind_some, Option.map_eq_none_iff] using hnone
      · simpa only [hy, Option.bind_some, Framed.within, hreturning.blanks_within, Ne,
          Option.map_eq_none_iff] using hread
    exact ⟨target, behind, returning, hx, mark_of_torn hreturning.blanks hvalue⟩

theorem opensClause_of_torn_input (h : Closed back c) (htorn : Torn front back input c) :
    OpensClause c := by
  obtain ⟨hback, hnone, hread⟩ := htorn
  rw [input_eq] at hnone hread
  rcases (inputHead_within h : Agrees front back _ _).cases with ⟨hx, hy⟩ | ⟨value, hx, hy, hvalue⟩
  · rw [hy] at hread
    exact absurd rfl hread
  · rw [hx, Option.bind_some] at hnone
    rw [hy, Option.bind_some] at hread
    obtain ⟨mark, -, hmark, hpeek⟩ := mark_of_torn hvalue ⟨hback, hnone, hread⟩
    simp only [inputHead, bind, Option.bind_eq_some_iff] at hx
    obtain ⟨blank, hwith, behind, hinput, heq⟩ := hx
    obtain ⟨next, hword, hblank⟩ := spacedWord_spec hwith
    cases heq
    refine ⟨"with", by decide, next, blank, _, behind, hword, hblank,
      identifier_of_keyword (by decide : IsIdentifier "input") hinput, ?_⟩
    rw [hpeek]
    rcases hmark with rfl | rfl <;> decide

theorem peek_of_conditionTail {lead : Lead} {field : String}
    (h : conditionTail lead field c ≠ none) : c.peek ≠ some '=' := by
  obtain ⟨r, hr⟩ := Option.ne_none_iff_exists'.1 h
  simp only [conditionTail, bind, Option.bind_eq_some_iff] at hr
  obtain ⟨⟨q, behind⟩, hquery, ⟨word, next⟩, hword, -⟩ := hr
  unfold query at hquery
  split at hquery
  · next htick =>
    rw [htick]
    decide
  · cases hquery
    obtain ⟨t, e, ht, -⟩ := comparison_cases hword
    exact peek_ne_of_any (peek_of_identifier ht) (by decide)

theorem opensClause_of_torn_condition (h : Closed back c) (htorn : Torn front back condition c) :
    OpensClause c := by
  obtain ⟨hback, hnone, hread⟩ := htorn
  rw [condition_eq] at hnone hread
  rcases (conditionHead_within h : Agrees front back _ _).cases with
    ⟨hx, hy⟩ | ⟨⟨l, field, behind⟩, hx, hy, -, -, hbehind⟩
  · rw [hy] at hread
    exact absurd rfl hread
  · rw [hy] at hread
    have hpeek : (behind.within front back).peek ≠ some '=' := peek_of_conditionTail hread
    rw [Closed.peek hbehind] at hpeek
    simp only [conditionHead, spacedName, bind, Option.bind_eq_some_iff] at hx
    obtain ⟨⟨l, next⟩, hlead, blank, hblank, ⟨name, behind⟩, ⟨⟨name, nameEnd⟩, hname, behind,
      hnameEnd, heq⟩, heq'⟩ := hx
    cases heq
    cases heq'
    rw [eq_blanks_of_someBlanks hnameEnd] at hpeek
    rcases lead_cases hlead with ⟨-, hword⟩ | ⟨-, hword⟩
    · exact ⟨"then", by decide, next, blank, name, nameEnd, hword, hblank, hname, hpeek⟩
    · exact ⟨"and", by decide, next, blank, name, nameEnd, hword, hblank, hname, hpeek⟩

theorem opensClause_of_torn (hback : IsVoid back) (h : Closed back c)
    (htorn : Torn front back testClause c) : c.layout.rest ≠ [] ∧ OpensClause c.layout := by
  obtain ⟨hne, hnone, hread⟩ := htorn
  rcases hback.layout_cases h front with ⟨hlayout, heq⟩ | ⟨-, hend⟩
  · refine ⟨(hlayout.resolve_left hne).ne_nil, ?_⟩
    simp only [testClause, Option.or_eq_none_iff, Option.map_eq_none_iff] at hnone
    obtain ⟨⟨⟨hmock, haction⟩, hinput⟩, hcondition⟩ := hnone
    obtain ⟨⟨k, e⟩, hk⟩ := Option.ne_none_iff_exists'.1 hread
    have hcases := testClause_cases hk
    rw [heq] at hcases
    rcases hcases with ⟨m, -, hm⟩ | ⟨a, -, ha⟩ | ⟨s, -, hs⟩ | ⟨k', -, hk'⟩
    · obtain ⟨target, behind, returning, hhead, -⟩ :=
        mockHead_of_torn hlayout ⟨hne, hmock, by rw [hm]; exact Option.some_ne_none _⟩
      exact opensClause_of_mockHead hhead
    · obtain ⟨heq', -⟩ : Agrees front back (action c.layout) _ := action_within hlayout
      rw [ha, haction] at heq'
      cases heq'
    · exact opensClause_of_torn_input hlayout ⟨hne, hinput, by rw [hs]; exact Option.some_ne_none _⟩
    · exact opensClause_of_torn_condition hlayout
        ⟨hne, hcondition, by rw [hk']; exact Option.some_ne_none _⟩
  · exact absurd (testClause_of_end hend) hread

/-- No declaration starts where something of a suite is torn. -/
theorem declaration_of_torn (hback : IsVoid back) (h : Closed back c ∨ c.rest = [])
    (htorn : Torn front back testClause c ∨ Torn front back suiteItem c) :
    c.layout.rest ≠ [] ∧ declaration c.layout = none := by
  have h : Closed back c := by
    refine h.resolve_right fun hend => ?_
    have hvoid : (c.within front back).layout.rest = [] := by
      have hlayout := layout_of_rest_nil hend
      rw [layout_within (Or.inr hend), hlayout, layout_rest_congr (d := start 0 back), hback]
      rw [within, hend]
      rfl
    rcases htorn with htorn | htorn
    · exact htorn.2.2 (testClause_of_end hvoid)
    · exact htorn.2.2 (suiteItem_of_end hvoid)
  rcases htorn with htorn | ⟨hne, hnone, hread⟩
  · obtain ⟨hrest, hopens⟩ := opensClause_of_torn hback h htorn
    exact ⟨hrest, hopens.declaration_eq_none⟩
  · rcases hback.layout_cases h front with ⟨hlayout, heq⟩ | ⟨-, hend⟩
    · refine ⟨(hlayout.resolve_left hne).ne_nil, ?_⟩
      obtain ⟨⟨i, e⟩, hi⟩ := Option.ne_none_iff_exists'.1 hread
      have hcases := suiteItem_cases hi
      rw [heq] at hcases
      rcases hcases with ⟨m, -, hm⟩ | ⟨-, title, body, htitle, -⟩
      · have hmock : mock c.layout = none := by
          cases hm' : mock c.layout with
          | none => rfl
          | some r => rw [suiteItem_of_mock (d := r.2) hm'] at hnone; cases hnone
        obtain ⟨target, behind, returning, hhead, -⟩ :=
          mockHead_of_torn hlayout ⟨hne, hmock, by rw [hm]; exact Option.some_ne_none _⟩
        exact (opensClause_of_mockHead hhead).declaration_eq_none
      · obtain ⟨next, hword, -⟩ := Option.bind_eq_some_iff.1 htitle
        rcases (spacedWord_within hlayout (by decide) : Agrees front back
          (spacedWord "it".toList c.layout) _).cases with ⟨-, hy⟩ | ⟨next', hx, -⟩
        · rw [hy] at hword
          cases hword
        · obtain ⟨itEnd, hit, -⟩ := spacedWord_spec hx
          exact declaration_of_word (by decide) (by decide) hit (Or.inl (by decide))
    · exact absurd (suiteItem_of_end hend) hread

/-! ## Clauses -/

/-- A reader that is not torn finds nothing in the larger text where it finds nothing in the text. -/
theorem agrees_of_not_torn {α : Type} [Framed α] {read : Cursor → Option α}
    (htorn : ¬Torn front back read c)
    (hread : back = [] ∨ read c ≠ none → Agrees front back (read c) (read (c.within front back))) :
    Agrees front back (read c) (read (c.within front back)) := by
  by_cases h : back = [] ∨ read c ≠ none
  · exact hread h
  · obtain ⟨hback, hnone⟩ := not_or.1 h
    rw [not_not] at hnone
    have hnone' : read (c.within front back) = none := by
      by_contra hsome
      exact htorn ⟨hback, hnone, hsome⟩
    rw [hnone, hnone']
    exact Agrees.none

/-- No action and no input starts as a mock does. -/
theorem eq_none_of_mockHead {target : String} {behind returning : Cursor}
    (h : mockHead c = some (target, behind, returning)) : action c = none ∧ input c = none := by
  obtain ⟨word, hmem, next, blank, hword, hblank, first, hfirst, -⟩ := mockHead_keyword h
  have hidentifier : ∀ word ∈ ["with", "and"], IsIdentifier word := by decide
  have hunique {other : String} {e : Cursor} (hother : IsIdentifier other)
      (hc : c.keyword other.toList = some e) : word = other ∧ next = e :=
    keyword_unique (hidentifier word hmem) hother hword hc
  constructor
  · rw [Option.eq_none_iff_forall_ne_some]
    rintro ⟨a, e⟩ ha
    obtain ⟨start, hstart⟩ := action_opening ha
    obtain ⟨e, hwhen, -⟩ := spacedWord_spec hstart
    exact absurd ((hunique (by decide : IsIdentifier "when") hwhen).1 ▸ hmem) (by decide)
  · rw [Option.eq_none_iff_forall_ne_some]
    rintro ⟨t, e⟩ ht
    rw [input_eq] at ht
    obtain ⟨value, hhead, -⟩ := Option.bind_eq_some_iff.1 ht
    simp only [inputHead, bind, Option.bind_eq_some_iff] at hhead
    obtain ⟨start, hstart, inputEnd, hinput, -⟩ := hhead
    obtain ⟨e, hwith, hstart⟩ := spacedWord_spec hstart
    obtain ⟨-, rfl⟩ := hunique (by decide : IsIdentifier "with") hwith
    rw [hblank] at hstart
    cases hstart
    obtain ⟨mockEnd, hmock, -⟩ := spacedWord_spec hfirst
    exact absurd (keyword_unique (by decide : IsIdentifier "mock")
      (by decide : IsIdentifier "input") hmock hinput).1 (by decide)

/-- No condition starts as an input does. -/
theorem condition_of_inputHead (h : inputHead c = some d) : condition c = none := by
  simp only [inputHead, bind, Option.bind_eq_some_iff] at h
  obtain ⟨blank, hblank, -⟩ := h
  obtain ⟨next, hwith, -⟩ := spacedWord_spec hblank
  rw [Option.eq_none_iff_forall_ne_some]
  rintro ⟨k, e⟩ hk
  simp only [condition, bind, Option.bind_eq_some_iff] at hk
  obtain ⟨⟨l, start⟩, hlead, -⟩ := hk
  rcases lead_cases hlead with ⟨-, hword⟩ | ⟨-, hword⟩
  · exact absurd (keyword_unique (by decide : IsIdentifier "with")
      (by decide : IsIdentifier "then") hwith hword).1 (by decide)
  · exact absurd (keyword_unique (by decide : IsIdentifier "with")
      (by decide : IsIdentifier "and") hwith hword).1 (by decide)

/-- The mark that tears a mock also stands in the condition that is read in its place. -/
theorem not_torn_mock {k : TestClause} (h : Closed back c.layout) (hread : testClause c = some (k, d))
    (hopen : ∀ k' d, testClause c = some (.condition k', d) → ∀ x ∈ back, ¬k'.MayOpen x) :
    ¬Torn front back mock c.layout := by
  intro htorn
  obtain ⟨target, behind, returning, hhead, mark, hmem, hmark, hpeek⟩ := mockHead_of_torn h htorn
  obtain ⟨haction, hinput⟩ := eq_none_of_mockHead hhead
  rcases testClause_cases hread with ⟨m, rfl, hm⟩ | ⟨a, rfl, ha⟩ | ⟨s, rfl, hs⟩ | ⟨k', rfl, hk⟩
  · rw [htorn.2.1] at hm
    cases hm
  · rw [haction] at ha
    cases ha
  · rw [hinput] at hs
    cases hs
  · exact hopen k' d hread mark hmem (mayOpen_of_mockHead hhead hmark hpeek hk)

theorem testClause_within (hback : IsVoid back) (h : Closed back c)
    (htorn : ¬Torn front back testClause c)
    (hopen : ∀ k d, testClause c = some (.condition k, d) → ∀ x ∈ back, ¬k.MayOpen x) :
    Agrees front back (testClause c) (testClause (c.within front back)) := by
  refine agrees_of_not_torn htorn fun hread => ?_
  rcases hback.layout_cases h front with ⟨hlayout, heq⟩ | ⟨hend, hend'⟩
  · have hmock : Agrees front back (mock c.layout) (mock (c.layout.within front back)) := by
      refine agrees_of_not_torn (fun htorn => ?_) (mock_within hlayout)
      obtain ⟨r, hr⟩ := Option.ne_none_iff_exists'.1 (hread.resolve_left htorn.1)
      exact not_torn_mock (d := r.2) hlayout hr hopen htorn
    have hinput (hnone : mock c.layout = none) (hnone' : action c.layout = none) :
        Agrees front back (input c.layout) (input (c.layout.within front back)) := by
      refine agrees_of_not_torn (fun htorn => ?_) (input_within hlayout)
      obtain ⟨r, hr⟩ := Option.ne_none_iff_exists'.1 (hread.resolve_left htorn.1)
      rcases testClause_cases (d := r.2) hr with ⟨m, -, hm⟩ | ⟨a, -, ha⟩ | ⟨s, -, hs⟩ | ⟨k, -, hk⟩
      · rw [hnone] at hm
        cases hm
      · rw [hnone'] at ha
        cases ha
      · rw [htorn.2.1] at hs
        cases hs
      · rcases (inputHead_within hlayout : Agrees front back _ _).cases with
          ⟨-, hy⟩ | ⟨value, hx, -⟩
        · exact htorn.2.2 (by rw [input_eq, hy, Option.bind_none])
        · rw [condition_of_inputHead hx] at hk
          cases hk
    rw [testClause, testClause, heq]
    rw [testClause] at hread
    refine Agrees.or (Agrees.or (Agrees.or ?_ fun hm => ?_) fun ha => ?_) fun hs => ?_
    · exact hmock.map fun r hr => ⟨rfl, trivial, hr.2⟩
    · exact (action_within hlayout).map fun r hr => ⟨rfl, trivial, hr.2⟩
    · rw [Option.or_eq_none_iff, Option.map_eq_none_iff, Option.map_eq_none_iff] at ha
      exact (hinput ha.1 ha.2).map fun r hr => ⟨rfl, trivial, hr.2⟩
    · rw [hs, Option.none_or, Ne, Option.map_eq_none_iff] at hread
      exact (condition_within hlayout hread).map fun r hr => ⟨rfl, trivial, hr.2⟩
  · rw [testClause_of_end hend, testClause_of_end hend']
    exact Agrees.none

/-! ## Tests and suites -/

theorem heading_within {word : List Char} (hword : '\n' ∉ word) (h : Closed back c)
    (hread : back = [] ∨ heading word c ≠ none) :
    Agrees front back (heading word c) (heading word (c.within front back)) :=
  (spacedWord_within h hword).bind_of_read hread fun _ _ hnext hread =>
    Closed.quotedText hnext (hread.imp_left Or.inl)

/-- What is known of the clauses behind the title of a test: none is torn, and the text behind holds
no mark that a condition may open with. -/
def ClausesHold (front back : List Char) (body : Cursor) : Prop :=
  ∀ d, Comes testClause body d → Closed back d → ¬Torn front back testClause d ∧
    ∀ k e, testClause d = some (.condition k, e) → ∀ x ∈ back, ¬k.MayOpen x

theorem test_within (hback : IsVoid back) (h : Closed back c) (hread : back = [] ∨ test c ≠ none)
    (hclauses : ∀ title body, heading "it".toList c = some (title, body) →
      ClausesHold front back body) :
    Agrees front back (test c) (test (c.within front back)) := by
  have htitle : back = [] ∨ heading "it".toList c ≠ none :=
    hread.imp_right fun hread hnone => hread (by rw [test_eq, hnone]; rfl)
  rw [test_eq, test_eq]
  rcases (heading_within (by decide) h htitle : Agrees front back _ _).cases with
    ⟨hx, hy⟩ | ⟨⟨title, body⟩, hx, hy, -, hbody⟩
  · rw [hx, hy]
    exact Agrees.none
  · obtain ⟨hmany, hlast⟩ := many_within front (fun _ _ _ => testClause_lt) hbody fun d hd hd' =>
      testClause_within hback hd' (hclauses title body hx d hd hd').1
        (hclauses title body hx d hd hd').2
    rw [hx, hy]
    simp only [Option.map_some, Framed.within] at hmany ⊢
    simp only [hmany, Token.shift, List.map_id']
    cases testOfClauses title.text (body.many testClause).1 with
    | none => exact Agrees.some ⟨trivial, hlast⟩
    | some t => exact Agrees.some ⟨trivial, hlast⟩

theorem suiteItem_within (hback : IsVoid back) (h : Closed back c)
    (htorn : ¬Torn front back suiteItem c)
    (hclauses : ∀ title body, mock c.layout = none →
      heading "it".toList c.layout = some (title, body) → ClausesHold front back body) :
    Agrees front back (suiteItem c) (suiteItem (c.within front back)) := by
  refine agrees_of_not_torn htorn fun hread => ?_
  rcases hback.layout_cases h front with ⟨hlayout, heq⟩ | ⟨hend, hend'⟩
  · have hmock : Agrees front back (mock c.layout) (mock (c.layout.within front back)) := by
      refine agrees_of_not_torn (fun htorn => ?_) (mock_within hlayout)
      obtain ⟨r, hr⟩ := Option.ne_none_iff_exists'.1 (hread.resolve_left htorn.1)
      obtain ⟨target, behind, returning, hhead, -⟩ := mockHead_of_torn hlayout htorn
      rcases suiteItem_cases (d := r.2) hr with ⟨m, -, hm⟩ | ⟨-, title, body, htitle, -⟩
      · rw [htorn.2.1] at hm
        cases hm
      · rw [(opensClause_of_mockHead hhead).heading_eq_none] at htitle
        cases htitle
    rw [suiteItem] at hread
    rw [suiteItem, suiteItem, heq]
    rcases hmock.cases with ⟨hx, hy⟩ | ⟨⟨m, next⟩, hx, hy, -, hnext⟩
    · have htest : back = [] ∨ test c.layout ≠ none :=
        hread.imp_right fun hread hnone => hread (by simp only [hx, hnone])
      rcases (test_within hback hlayout htest fun title body => hclauses title body hx :
          Agrees front back _ _).cases with ⟨hx', hy'⟩ | ⟨⟨t | t, next⟩, hx', hy', -, hnext⟩
      · simp only [hx, hy, hx', hy']
        exact Agrees.none
      · simp only [hx, hy, hx', hy']
        exact Agrees.some ⟨trivial, hnext⟩
      · simp only [hx, hy, hx', hy']
        exact Agrees.some ⟨trivial, hnext⟩
    · simp only [hx, hy]
      exact Agrees.some ⟨trivial, hnext⟩
  · rw [suiteItem_of_end hend, suiteItem_of_end hend']
    exact Agrees.none

theorem SuiteItem.mock?_shift (n : Nat) : SuiteItem.mock? ∘ SuiteItem.shift n = SuiteItem.mock? :=
  funext fun i => by cases i <;> rfl

theorem SuiteItem.test?_shift (n : Nat) : SuiteItem.test? ∘ SuiteItem.shift n = SuiteItem.test? :=
  funext fun i => by cases i <;> rfl

theorem SuiteItem.report?_shift (n : Nat) :
    SuiteItem.report? ∘ SuiteItem.shift n = fun i => i.report?.map (SyntaxReport.shift n) :=
  funext fun i => by cases i <;> rfl

theorem mem_conditions {name : String} {ks : List TestClause} {t : TestCase} {k : Condition}
    (h : testOfClauses name ks = some t) (hk : .condition k ∈ ks) : k ∈ t.conditions := by
  obtain ⟨a, -, rfl⟩ := Option.map_eq_some_iff.1 h
  exact List.mem_filterMap.2 ⟨_, hk, rfl⟩

/-- Nothing is torn in a test if nothing is behind the suite, as the suite goes on with what stands
behind the test. -/
theorem clausesHold {body e b : Cursor} {title : Token} (hback : IsVoid back)
    (he : Comes suiteItem body e) (hmock : mock e.layout = none)
    (htitle : heading "it".toList e.layout = some (title, b))
    (hlast : ¬Torn front back testClause (body.many suiteItem).2)
    (hclean : (body.many suiteItem).1.filterMap SuiteItem.report? = [])
    (hshut : ∀ t ∈ (body.many suiteItem).1.filterMap SuiteItem.test?, ∀ k ∈ t.conditions,
      ∀ x ∈ back, ¬k.MayOpen x) : ClausesHold front back b := by
  obtain ⟨i, hi⟩ := suiteItem_of_heading hmock htitle
  intro d hd hclosed
  constructor
  · intro htorn
    have hend := hd.stop (fun _ _ _ => testClause_lt) htorn.2.1
    rw [hend] at hi
    have hcomes : Comes suiteItem body d := he.tail ⟨i, hi⟩
    obtain ⟨-, hopens⟩ := opensClause_of_torn hback hclosed htorn
    have hnone : suiteItem d = none := by
      rw [Option.eq_none_iff_forall_ne_some]
      rintro ⟨j, a⟩ hj
      rcases suiteItem_cases hj with ⟨m, -, hm⟩ | ⟨-, title, body, htitle, -⟩
      · have hclause := htorn.2.1
        rw [testClause, hm] at hclause
        cases hclause
      · rw [hopens.heading_eq_none] at htitle
        cases htitle
    exact hlast (hcomes.stop (fun _ _ _ => suiteItem_lt) hnone ▸ htorn)
  · intro k a hk
    have hmem := hd.mem_many (fun _ _ _ => testClause_lt) hk
    have hitem := he.mem_many (fun _ _ _ => suiteItem_lt) hi
    rcases suiteItem_cases hi with ⟨m, -, hm⟩ | ⟨-, title', b', htitle', -, ⟨r, rfl⟩ | ⟨t, rfl, ht⟩⟩
    · rw [hmock] at hm
      cases hm
    · cases List.filterMap_eq_nil_iff.1 hclean _ hitem
    · rw [htitle] at htitle'
      cases htitle'
      exact hshut t (List.mem_filterMap.2 ⟨_, hitem, rfl⟩) k (mem_conditions ht hmem)

/-- A suite of which nothing is reported, behind which nothing is torn and none of whose conditions
may be left of a mock that the text behind closes is read as without that text. -/
theorem suite_within (hback : IsVoid back) (h : Closed back c)
    (hread : back = [] ∨ ∃ v d, suite c = some (v, [], d) ∧ ¬Torn front back testClause d ∧
      ¬Torn front back suiteItem d ∧
      ∀ t ∈ v.value.tests, ∀ k ∈ t.conditions, ∀ x ∈ back, ¬k.MayOpen x) :
    Agrees front back (suite c) (suite (c.within front back)) := by
  have htitle : back = [] ∨ heading "describe".toList c ≠ none := by
    refine hread.imp_right fun ⟨v, d, hsuite, _⟩ hnone => ?_
    rw [suite_eq, hnone] at hsuite
    cases hsuite
  rw [suite_eq] at hread
  rw [suite_eq, suite_eq]
  rcases (heading_within (by decide) h htitle : Agrees front back _ _).cases with
    ⟨hx, hy⟩ | ⟨⟨title, body⟩, hx, hy, -, hbody⟩
  · rw [hx, hy]
    exact Agrees.none
  · obtain ⟨hmany, hlast⟩ := many_within front (fun _ _ _ => suiteItem_lt) hbody fun e he he' => by
      rcases hread with rfl | ⟨v, d, hsuite, hclause, hitem, hshut⟩
      · exact suiteItem_within hback he' (fun h => h.1 rfl) fun _ _ _ _ d _ _ =>
          ⟨fun h => h.1 rfl, fun _ _ _ => nofun⟩
      · rw [hx, Option.map_some, Option.some.injEq, Prod.mk.injEq, Prod.mk.injEq] at hsuite
        obtain ⟨rfl, hclean, rfl⟩ := hsuite
        refine suiteItem_within hback he' (fun htorn => hitem ?_) fun title b hmock htitle =>
          clausesHold hback he hmock htitle hclause hclean hshut
        rwa [he.stop (fun _ _ _ => suiteItem_lt) htorn.2.1]
    rw [hx, hy]
    simp only [Option.map_some, Framed.within] at hmany ⊢
    simp only [hmany, Token.shift, List.filterMap_map, SuiteItem.mock?_shift,
      SuiteItem.test?_shift, SuiteItem.report?_shift, ← List.map_filterMap]
    exact Agrees.some ⟨trivial, fun _ _ => trivial, hlast⟩

end Grammar
end PipelineLang
