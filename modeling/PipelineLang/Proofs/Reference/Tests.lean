import PipelineLang.Proofs.Reference.Openings

/-!
# The references made by tests

The search for references finds the names in the clauses of a test block that are read of a document.
No match of the shape of a mock starts inside another one. The shapes of actions may: the word `when`
can be the name that one of them expects. But what stands in front of a clause is never what such a
match would have there (`Opens`), so none runs into a clause (`whenPipeline_clear`,
`whenVariable_clear`).

The name of an action counts only where it is bare. In a document without reports only a comment can
stand directly behind it (`ClauseRead.bare`). A mock counts only where a word ends with `returning`.
-/

namespace PipelineLang

open Cursor

namespace Reference

variable {text front : List Char} {b c d x y : Cursor} {n : Token} {r : Reference}

/-! ## Mocks stand apart -/

theorem withMock_peek (h : withMock c = some d) : ∃ z ∈ ['w', 'a'], c.peek = some z := by
  obtain ⟨word, bs₀, bs₁, hword, -, -, hrun⟩ := withMock_spec h
  rw [peek, hrun.rest_eq]
  rcases hword with rfl | rfl
  · exact ⟨'w', by decide, rfl⟩
  · exact ⟨'a', by decide, rfl⟩

theorem withMock_eq_none (h : ∀ z ∈ b.peek, z ∉ ['w', 'a']) : withMock b = none := by
  rw [Option.eq_none_iff_forall_ne_some]
  intro d hd
  obtain ⟨z, hz, hpeek⟩ := withMock_peek hd
  exact h z hpeek hz

theorem withMock_eq_none_of_run {run : List Char} (h : Between c run d)
    (hrun : ∀ z ∈ run, z ∉ ['w', 'a']) (hcb : c ≤ b) (hbd : b < d) : withMock b = none := by
  obtain ⟨z, hz, hpeek⟩ := h.peek_mem hcb hbd
  refine withMock_eq_none fun z' hz' => ?_
  obtain rfl := Option.some.inj (hpeek.symm.trans hz')
  exact hrun z hz

theorem not_lead_of_isBlanks {bs : List Char} (hbs : IsBlanks bs) : ∀ z ∈ bs, z ∉ ['w', 'a'] := by
  intro z hz hmem
  obtain ⟨-, -, hinline, -⟩ := Grammar.lead_spec z hmem
  rw [hbs.2 z hz] at hinline
  cases hinline

/-- Behind the first letter of `with mock` and `and mock` no mock starts. -/
theorem withMock_inside (h : withMock c = some d) (hcb : c < b) (hbd : b < d) :
    withMock b = none := by
  obtain ⟨word, bs₀, bs₁, hword, h₀, h₁, hrun⟩ := withMock_spec h
  obtain ⟨z, tail, rfl, htail⟩ : ∃ z tail, word = z :: tail ∧ ∀ z ∈ tail, z ∉ ['w', 'a'] := by
    rcases hword with rfl | rfl
    · exact ⟨_, _, rfl, List.all_iff_forall_prop.1 (by decide)⟩
    · exact ⟨_, _, rfl, List.all_iff_forall_prop.1 (by decide)⟩
  obtain ⟨y, hy, hpeek⟩ := hrun.peek_mem_tail hcb hbd
  refine withMock_eq_none fun z hz => ?_
  obtain rfl := Option.some.inj (hpeek.symm.trans hz)
  have hall : ∀ z ∈ tail ++ (bs₀ ++ "mock".toList ++ bs₁), z ∉ ['w', 'a'] := by
    simp only [List.forall_mem_append]
    exact ⟨htail, ⟨not_lead_of_isBlanks h₀, List.all_iff_forall_prop.1 (by decide)⟩,
      not_lead_of_isBlanks h₁⟩
  exact hall y hy

/-- A word read inside an identifier ends with it, if no more characters of an identifier follow. -/
theorem chars_end_eq {e : Cursor} {word : List Char} (hn : x.identifier = some (n, y)) (hxb : x ≤ b)
    (hby : b < y) (hword : IsWord word) (h : b.chars word = some e)
    (he : ∀ z ∈ e.peek, isIdentChar z = false) : e = y := by
  obtain ⟨hbetween, -, hidentifier, hnext⟩ := identifier_spec hn
  have hrun := chars_between h
  rcases lt_trichotomy_of_le hrun.le hby.le with hlt | heq | hlt
  · have hpeek := hbetween.peek_any hidentifier.2 (hxb.trans hrun.le) hlt
    rw [(Option.any_eq_false _ _).2 he] at hpeek
    cases hpeek
  · exact heq
  · have hpeek := hrun.peek_any hword.2 hby.le hlt
    rw [(Option.any_eq_false _ _).2 hnext] at hpeek
    cases hpeek

/-- Where a mock starts in an identifier, blanks and `mock` stand behind that. -/
theorem withMock_in_identifier (hn : x.identifier = some (n, y)) (hxb : x ≤ b) (hby : b < y)
    (h : withMock b = some d) : ∃ mock, y.someBlanks = some mock ∧ mock.peek = some 'm' := by
  simp only [withMock, bind] at h
  split at h
  · simp only [Option.bind_eq_some_iff] at h
    obtain ⟨e, hword, mock, hmock, hspaced⟩ := h
    obtain ⟨bs, hbs, -⟩ := spaced_spec hspaced
    have hend : e = y := by
      rcases Option.or_eq_some_iff.1 hword with hword | ⟨-, hword⟩
      · exact chars_end_eq hn hxb hby (by decide) hword (peek_of_someBlanks hmock)
      · exact chars_end_eq hn hxb hby (by decide) hword (peek_of_someBlanks hmock)
    refine ⟨mock, hend ▸ hmock, ?_⟩
    rw [peek, hbs.rest_eq]
    rfl
  · cases h

/-- In a name and up to the end of `returning` behind it no mock starts. -/
theorem withMock_of_returning (hn : x.identifier = some (n, y)) (hr : thenReturning y = some d)
    (hxb : x ≤ b) (hbd : b < d) : withMock b = none := by
  obtain ⟨word, hword, hreturning⟩ := thenReturning_spec hr
  rcases lt_or_le_of_le hxb (identifier_lt hn).le with hby | hyb
  · rw [Option.eq_none_iff_forall_ne_some]
    intro e he
    obtain ⟨mock, hmock, hpeek⟩ := withMock_in_identifier hn hxb hby he
    obtain rfl := Option.some.inj (hword.symm.trans hmock)
    rw [peek, (chars_between hreturning).rest_eq] at hpeek
    revert hpeek
    simp
  · obtain ⟨bs, hbs, hblanks⟩ := someBlanks_spec hword
    refine withMock_eq_none_of_run (hbs.trans (chars_between hreturning)) ?_ hyb hbd
    rw [List.forall_mem_append]
    exact ⟨not_lead_of_isBlanks hblanks, List.all_iff_forall_prop.1 (by decide)⟩

theorem separate_mockPipeline : Separate mockPipelineShape := by
  intro c r d b h hcb hbd
  suffices hnone : withMock b = none by
    rw [mockPipelineShape, hnone]
    rfl
  simp only [mockPipelineShape, bind, Option.bind_eq_some_iff] at h
  obtain ⟨first, hfirst, x, hx, ⟨n, y⟩, hn, last, hlast, heq⟩ := h
  cases heq
  obtain ⟨bs, hbs, hblanks⟩ := spaced_spec hx
  rcases lt_or_le_of_le hcb.le (withMock_le hfirst) with hlt | hle
  · exact withMock_inside hfirst hcb hlt
  · rcases lt_or_le_of_le hle hbs.le with hlt | hle
    · refine withMock_eq_none_of_run hbs ?_ hle hlt
      rw [List.forall_mem_append]
      exact ⟨List.all_iff_forall_prop.1 (by decide), not_lead_of_isBlanks hblanks⟩
    · exact withMock_of_returning hn hlast hle hbd

theorem separate_mockVariable : Separate mockVariableShape := by
  intro c r d b h hcb hbd
  suffices hnone : withMock b = none by
    rw [mockVariableShape, hnone]
    rfl
  simp only [mockVariableShape, bind, Option.bind_eq_some_iff] at h
  obtain ⟨first, hfirst, ⟨kind, next⟩, hkind, x, hx, ⟨n, y⟩, hn, last, hlast, heq⟩ := h
  cases heq
  rcases lt_or_le_of_le hcb.le (withMock_le hfirst) with hlt | hle
  · exact withMock_inside hfirst hcb hlt
  · rcases lt_or_le_of_le hle (identifier_lt hkind).le with hlt | hle'
    · -- behind the type stands a dot and no blank
      rw [Option.eq_none_iff_forall_ne_some]
      intro e he
      obtain ⟨mock, hmock, -⟩ := withMock_in_identifier hkind hle hlt he
      have hdot : next.peek = some '.' := by rw [peek, (char_between hx).rest_eq]; rfl
      rw [someBlanks_eq, hdot] at hmock
      cases hmock
    · rcases lt_or_le_of_le hle' (char_lt hx).le with hlt | hle
      · have hdot : ∀ z ∈ ['.'], z ∉ ['w', 'a'] := List.all_iff_forall_prop.1 (by decide)
        exact withMock_eq_none_of_run (char_between hx) hdot hle' hlt
      · exact withMock_of_returning hn hlast hle hbd

/-! ## No action runs into a clause -/

/-- Behind its first letter an action has no `w` in front of what it names. -/
theorem whenExecuting_inside {word : List Char} (h : whenExecuting word b = some x)
    (hword : 'w' ∉ word) (hbc : b < c) (hcx : c < x) : c.peek ≠ some 'w' := by
  obtain ⟨bs₀, bs₁, bs₂, h₀, h₁, h₂, hrun⟩ := whenExecuting_spec h
  have hletter : Between b ('w' :: ("hen".toList
      ++ (bs₀ ++ "executing".toList ++ bs₁ ++ word ++ bs₂))) x := hrun
  obtain ⟨z, hz, hpeek⟩ := hletter.peek_mem_tail hbc hcx
  have hblank {bs : List Char} (hbs : IsBlanks bs) : 'w' ∉ bs :=
    fun hmem => Bool.noConfusion (hbs.2 'w' hmem)
  rw [hpeek]
  rintro ⟨⟩
  simp only [List.mem_append, hblank h₀, hblank h₁, hblank h₂, hword, false_or, or_false] at hz
  revert hz
  decide

/-- No clause stands where an action expects a name. -/
theorem not_opens_whenExecuting {word : List Char} (hword : IsWord word) (hb : start 0 text ≤ b)
    (h : whenExecuting word b = some c) (hfront : Between (start 0 text) front c) :
    ¬ Opens front := by
  intro hopens
  obtain ⟨bs₀, bs₁, bs₂, h₀, h₁, h₂, hrun⟩ := whenExecuting_spec h
  obtain ⟨pre, hpre⟩ := exists_run hb
  have hends := endsInWords_append pre (by decide : "when".toList.getLast? = some 'n') (by decide) h₀
    (by decide : IsWord "executing".toList).isUnbroken h₁ hword.isUnbroken
  rw [hfront.run_eq (hpre.trans hrun)] at hopens
  refine Opens.not_endsInWords ?_ h₂ (Or.inl rfl) hword hends
  simpa only [List.append_assoc] using hopens

section
variable (hfront : Between (start 0 text) front c) (hopens : Opens front)

include hfront hopens

theorem before_not_ident : c.before.any isIdentChar = false := by
  rw [hfront.before_eq, start, Option.or_none, Option.any_eq_false]
  exact fun z hz => by simpa using (hopens.last_spec z hz).2

theorem atBoundary_of_opens {z : Char} (hpeek : c.peek = some z) (hz : z ∈ ['w', 'a']) :
    atBoundary c = true := by
  obtain ⟨-, -, -, -, hword⟩ := Grammar.lead_spec z hz
  have hbefore : c.before.any Word.isWordChar = false := by
    rw [hfront.before_eq, start, Option.or_none, Option.any_eq_false]
    exact fun z hz => by simpa using (hopens.last_spec z hz).1
  rw [atBoundary, Word.isBoundary, hbefore, hpeek, Option.any_some, hword]
  rfl

/-- The words of an action do not run into a clause. -/
theorem whenExecuting_clear {word : List Char} (hword : IsWord word) (hnot : 'w' ∉ word)
    (hpeek : c.peek = some 'w') (hb : start 0 text ≤ b) (hbc : b < c)
    (h : whenExecuting word b = some x) : x < c := by
  rcases lt_trichotomy_of_le hbc.le (whenExecuting_before h).1 with hlt | rfl | hlt
  · exact absurd hpeek (whenExecuting_inside h hnot hbc hlt)
  · exact absurd hopens (not_opens_whenExecuting hword hb h hfront)
  · exact hlt

/-- No match of an action that runs a pipeline runs into a clause. -/
theorem whenPipeline_clear (hpeek : c.peek = some 'w') (hb : start 0 text ≤ b) (hbc : b < c)
    (h : whenPipelineShape b = some (r, d)) : d ≤ c := by
  simp only [whenPipelineShape, bind, Option.bind_eq_some_iff] at h
  obtain ⟨x, hx, ⟨n, last⟩, hn, heq⟩ := h
  cases heq
  have hlt := whenExecuting_clear hfront hopens (by decide) (by decide) hpeek hb hbc hx
  exact (IdentifierAt.lt_of_lt hn hlt (before_not_ident hfront hopens)).le

/-- No match of an action that runs a variable runs into a clause. -/
theorem whenVariable_clear (hpeek : c.peek = some 'w') (hb : start 0 text ≤ b) (hbc : b < c)
    (h : whenVariableShape b = some (r, d)) : d ≤ c := by
  simp only [whenVariableShape, bind, Option.bind_eq_some_iff] at h
  obtain ⟨first, hfirst, ⟨kind, next⟩, hkind, x, hx, ⟨n, last⟩, hn, heq⟩ := h
  cases heq
  have hbefore := before_not_ident hfront hopens
  have hlt := whenExecuting_clear hfront hopens (by decide) (by decide) hpeek hb hbc hfirst
  have hnext := IdentifierAt.lt_of_lt hkind hlt hbefore
  obtain ⟨bs, hbs, hblanks⟩ := someBlanks_spec hx
  rcases lt_trichotomy_of_le hnext.le hbs.le with hlt | rfl | hlt
  · have hblank := hbs.peek_any hblanks.2 hnext.le hlt
    rw [hpeek] at hblank
    cases hblank
  · -- the clause would stand behind `executing variable` and a type
    obtain ⟨bs₀, bs₁, bs₂, h₀, h₁, h₂, hrun⟩ := whenExecuting_spec hfirst
    obtain ⟨hword, -, hidentifier, -⟩ := identifier_spec hkind
    obtain ⟨pre, hpre⟩ := exists_run hb
    have hends := endsInWords_append (pre ++ ("when".toList ++ bs₀))
      (by decide : "executing".toList.getLast? = some 'g') (by decide) h₁
      (by decide : IsWord "variable".toList).isUnbroken h₂ hidentifier.isWord.isUnbroken
    rw [hfront.run_eq (((hpre.trans hrun).trans hword).trans hbs)] at hopens
    refine absurd hends (Opens.not_endsInWords ?_ hblanks (Or.inr ⟨rfl, rfl⟩)
      hidentifier.isWord)
    simpa only [List.append_assoc] using hopens
  · exact (IdentifierAt.lt_of_lt hn hlt hbefore).le

end

/-! ## Clauses match -/

/-- An action that runs a pipeline matches the shape of one. -/
theorem action_pipeline_matched {name : String} (hc : atBoundary c = true)
    (h : Grammar.action c = some (.runPipeline name, d)) :
    ∃ s, whenPipelineShape c = some (⟨.pipeline name, s⟩, d) ∧ s.stop = d.offset := by
  obtain ⟨next, behind, start, token, hwhen, hexecuting, hpipeline, htoken, rfl⟩ :=
    Grammar.action_read h
  refine ⟨token.span, ?_, by rw [(identifier_spec htoken).2.1]⟩
  simp only [whenPipelineShape, whenExecuting, hc, bind, if_true,
    Grammar.spaced_of_spacedWord hwhen, Grammar.spaced_of_spacedWord hexecuting,
    Grammar.spaced_of_spacedWord hpipeline, htoken, Option.bind_some]
  rfl

/-- An action that runs a variable matches the shape of one. -/
theorem action_variable_matched {kind name : String} (hc : atBoundary c = true)
    (h : Grammar.action c = some (.runVariable kind name, d)) :
    ∃ s, whenVariableShape c = some (⟨.typed kind name, s⟩, d) ∧ s.stop = d.offset := by
  obtain ⟨next, behind, first, word, blank, start, token, hwhen, hexecuting, hvariable, hword,
    hblank, htoken, rfl, rfl⟩ := Grammar.action_read h
  refine ⟨token.span, ?_, by rw [(identifier_spec htoken).2.1]⟩
  simp only [whenVariableShape, whenExecuting, hc, bind, if_true,
    Grammar.spaced_of_spacedWord hwhen, Grammar.spaced_of_spacedWord hexecuting,
    Grammar.spaced_of_spacedWord hvariable, hword, hblank, htoken, Option.bind_some]
  rfl

theorem withMock_of_words {next : Cursor} (hc : atBoundary c = true)
    (hnext : (Grammar.spacedWord "with".toList c).or (Grammar.spacedWord "and".toList c) = some next)
    (hmock : Grammar.spacedWord "mock".toList next = some d) : withMock c = some d := by
  obtain ⟨word, hword, hblanks⟩ : ∃ word,
      (c.chars "with".toList).or (c.chars "and".toList) = some word ∧ word.someBlanks = some next := by
    rcases Option.or_eq_some_iff.1 hnext with h | ⟨-, h⟩
    · obtain ⟨word, hword, hblanks⟩ := Option.bind_eq_some_iff.1 h
      exact ⟨word, by rw [(chars_of_keyword hword).1, Option.some_or], hblanks⟩
    · obtain ⟨word, hword, hblanks⟩ := Option.bind_eq_some_iff.1 h
      have hand := (chars_of_keyword hword).1
      have hnone : c.chars "with".toList = none := by
        rw [show "with".toList = 'w' :: "ith".toList from rfl, chars, char_eq_none, Option.bind_none]
        rw [(chars_between hand).rest_eq]
        exact fun h => absurd (Option.some.inj h) (by decide)
      exact ⟨word, by rw [hnone, hand, Option.none_or], hblanks⟩
  simp only [withMock, hc, bind, if_true, hword, hblanks, Grammar.spaced_of_spacedWord hmock,
    Option.bind_some]

/-- `returning` is matched where no word goes on behind it. -/
theorem thenReturning_of_words {blank : Cursor} (hblank : c.someBlanks = some blank)
    (hword : blank.keyword "returning".toList = some d)
    (hnext : d.peek.any Word.isWordChar = false) : thenReturning c = some d := by
  have hchars := (chars_of_keyword hword).1
  have hbefore : d.before = some 'g' := by
    rw [(chars_between hchars).before_eq]
    rfl
  have hboundary : atBoundary d = true := by
    rw [atBoundary, Word.isBoundary, hnext, hbefore]
    decide
  simp only [thenReturning, bind, hblank, hchars, Option.bind_some, hboundary, if_true]

/-- A mock of a pipeline matches the shape of one. -/
theorem mock_pipeline_matched {name : String} {behind returning : Cursor}
    (hc : atBoundary c = true)
    (h : Grammar.mockHead c = some ("pipeline " ++ name, behind, returning))
    (hnext : returning.peek.any Word.isWordChar = false) : ∃ s,
      mockPipelineShape c = some (⟨.pipeline name, s⟩, returning) ∧ s.stop = behind.offset := by
  obtain ⟨next, first, blank, hlead, hfirst, htarget, hblank, hreturning⟩ := Grammar.mockHead_spec h
  obtain ⟨start, token, hstart, htoken, rfl⟩ := Grammar.mockTarget_pipeline htarget
  refine ⟨token.span, ?_, by rw [(identifier_spec htoken).2.1]⟩
  simp only [mockPipelineShape, bind, withMock_of_words hc hlead hfirst,
    Grammar.spaced_of_spacedWord hstart, htoken, thenReturning_of_words hblank hreturning hnext,
    Option.bind_some]
  rfl

/-- A mock of a variable matches the shape of one. -/
theorem mock_variable_matched {kind name : String} {behind returning : Cursor}
    (hc : atBoundary c = true)
    (h : Grammar.mockHead c = some (kind ++ "." ++ name, behind, returning))
    (hnext : returning.peek.any Word.isWordChar = false) : ∃ s,
      mockVariableShape c = some (⟨.typed kind name, s⟩, returning) ∧ s.stop = behind.offset := by
  obtain ⟨next, first, blank, hlead, hfirst, htarget, hblank, hreturning⟩ := Grammar.mockHead_spec h
  obtain ⟨word, next', dot, token, hword, hdot, htoken, rfl, rfl⟩ :=
    Grammar.mockTarget_variable htarget
  refine ⟨token.span, ?_, by rw [(identifier_spec htoken).2.1]⟩
  simp only [mockVariableShape, bind, withMock_of_words hc hlead hfirst, hword, hdot, htoken,
    thenReturning_of_words hblank hreturning hnext, Option.bind_some]
  rfl

end Reference

/-! ## Clauses of a document -/

namespace Grammar

variable {text : List Char} {c d : Cursor} {a : Action} {m : Mock}

theorem ClauseRead.action (h : ClauseRead text c (.action a) d) :
    action c = some (a, d) ∧ InTest text d := by
  cases h with
  | ofTest hb hread =>
    rcases testClause_cases hread with ⟨m, heq, -⟩ | ⟨a', heq, ha⟩ | ⟨s, heq, -⟩ | ⟨k, heq, -⟩
    · cases heq
    · cases heq
      cases hb with
      | intro ht hmock htitle hc => exact ⟨ha, .intro ht hmock htitle (hc.tail ⟨_, hread⟩)⟩
    · cases heq
    · cases heq

theorem ClauseRead.mock (h : ClauseRead text c (.mock m) d) : mock c = some (m, d) := by
  cases h with
  | ofSuite hb hread => exact hread
  | ofTest hb hread =>
    rcases testClause_cases hread with ⟨m', heq, hm⟩ | ⟨a, heq, -⟩ | ⟨s, heq, -⟩ | ⟨k, heq, -⟩
    · cases heq
      exact hm
    · cases heq
    · cases heq
    · cases heq

/-- What stands in front of a clause. -/
theorem ClauseRead.opens {k : TestClause} {x : Char} (h : ClauseRead text c k d)
    (hpeek : c.peek = some x) (hx : x ∈ ['w', 'a']) :
    ∃ front, Between (start 0 text) front c ∧ Opens front := by
  cases h with
  | ofSuite hb _ => exact hb.closes.2.opens hb.closes.1 hpeek hx
  | ofTest hb _ => exact hb.closes.2.opens hb.closes.1 hpeek hx

theorem peek_of_chars {word : List Char} {x : Char} {xs : List Char} (hword : word = x :: xs)
    (h : c.chars word = some d) : c.peek = some x := by
  rw [peek, (chars_between h).rest_eq, hword]
  rfl

theorem action_peek (h : action c = some (a, d)) : c.peek = some 'w' := by
  obtain ⟨next, hwhen⟩ := action_opening h
  obtain ⟨word, hword, -⟩ := Option.bind_eq_some_iff.1 hwhen
  exact peek_of_chars rfl (chars_of_keyword hword).1

theorem mock_peek (h : mock c = some (m, d)) : ∃ x ∈ ['w', 'a'], c.peek = some x := by
  obtain ⟨behind, returning, value, hhead, -⟩ := mock_spec h
  obtain ⟨next, first, blank, hlead, -⟩ := mockHead_spec hhead
  rcases Option.or_eq_some_iff.1 hlead with h | ⟨-, h⟩
  · obtain ⟨word, hword, -⟩ := Option.bind_eq_some_iff.1 h
    exact ⟨'w', by decide, peek_of_chars rfl (chars_of_keyword hword).1⟩
  · obtain ⟨word, hword, -⟩ := Option.bind_eq_some_iff.1 h
    exact ⟨'a', by decide, peek_of_chars rfl (chars_of_keyword hword).1⟩

/-- An action is read at a boundary of words, behind a text that opens a clause. -/
theorem ClauseRead.action_opens (h : ClauseRead text c (.action a) d) :
    ∃ front, Between (start 0 text) front c ∧ Opens front ∧ Reference.atBoundary c = true := by
  have hpeek := action_peek h.action.1
  obtain ⟨front, hfront, hopens⟩ := h.opens hpeek (by decide)
  exact ⟨front, hfront, hopens, Reference.atBoundary_of_opens hfront hopens hpeek (by decide)⟩

/-- Without reports the name at the end of an action is bare, if no comment starts right behind it. -/
theorem ClauseRead.bare (hclean : (parse text).reports = []) (h : ClauseRead text c (.action a) d)
    (hcomment : d.peek ≠ some '#') : Reference.isBare d = true := by
  obtain ⟨hread, hd⟩ := h.action
  obtain ⟨-, -, -, -, -, -, -, hnext⟩ := action_words hread
  rw [Reference.isBare]
  cases hpeek : d.peek with
  | none => rfl
  | some x =>
    refine isWhite_of_isLayout ?_
    -- else what stands there is read next, and it would have to begin with a letter
    by_contra hlayout
    have hstay : d.layout = d := by
      refine layout_of_head fun y hy => ?_
      obtain rfl := Option.some.inj (hpeek.symm.trans hy)
      exact ⟨eq_false_of_ne_true hlayout, fun heq => hcomment (heq ▸ hpeek)⟩
    rcases hd.next hclean with hend | hident
    · rw [hstay, atEnd] at hend
      obtain ⟨xs, hrest⟩ := List.head?_eq_some_iff.1 hpeek
      rw [hrest] at hend
      cases hend
    · rw [hstay, hpeek, Option.any_some, hnext x hpeek] at hident
      cases hident

section
variable (hclean : (parse text).reports = []) (hcomment : d.peek ≠ some '#')

include hclean hcomment

theorem ClauseRead.mem_scan_pipeline {name : String}
    (h : ClauseRead text c (.action (.runPipeline name)) d) :
    ∃ s, ⟨.pipeline name, s⟩ ∈ Reference.scan text ∧ s.stop = d.offset := by
  have hread := h.action.1
  obtain ⟨front, hfront, hopens, hboundary⟩ := h.action_opens
  obtain ⟨s, hmatch, hstop⟩ := Reference.action_pipeline_matched hboundary hread
  have hmem := Reference.mem_searchAll_of_clear Reference.namesBehind_whenPipeline.moves hfront.le
    hmatch fun _ _ _ => Reference.whenPipeline_clear hfront hopens (action_peek hread)
  refine ⟨s, Reference.mem_scan.2 (Reference.mem_foundFrom.2 (Or.inr (Or.inl ?_))), hstop⟩
  exact List.mem_map.2 ⟨_, List.mem_filter.2 ⟨hmem, h.bare hclean hcomment⟩, rfl⟩

theorem ClauseRead.mem_scan_variable {kind name : String}
    (h : ClauseRead text c (.action (.runVariable kind name)) d) :
    ∃ s, ⟨.typed kind name, s⟩ ∈ Reference.scan text ∧ s.stop = d.offset := by
  have hread := h.action.1
  obtain ⟨front, hfront, hopens, hboundary⟩ := h.action_opens
  obtain ⟨s, hmatch, hstop⟩ := Reference.action_variable_matched hboundary hread
  have hmem := Reference.mem_searchAll_of_clear Reference.namesBehind_whenVariable.moves hfront.le
    hmatch fun _ _ _ => Reference.whenVariable_clear hfront hopens (action_peek hread)
  refine ⟨s, Reference.mem_scan.2 (Reference.mem_foundFrom.2 (Or.inr (Or.inr (Or.inl ?_)))), hstop⟩
  exact List.mem_map.2 ⟨_, List.mem_filter.2 ⟨hmem, h.bare hclean hcomment⟩, rfl⟩

end

/-- The name of a mock is found where `returning` ends a word. -/
theorem ClauseRead.mem_scan_mock {behind returning : Cursor} (h : ClauseRead text c (.mock m) d)
    (hhead : mockHead c = some (m.target, behind, returning))
    (hnext : returning.peek.any Word.isWordChar = false) :
    (∀ name, m.target = "pipeline " ++ name →
      ∃ s, ⟨.pipeline name, s⟩ ∈ Reference.scan text ∧ s.stop = behind.offset) ∧
    ∀ kind name, m.target = kind ++ "." ++ name →
      ∃ s, ⟨.typed kind name, s⟩ ∈ Reference.scan text ∧ s.stop = behind.offset := by
  obtain ⟨x, hx, hpeek⟩ := mock_peek h.mock
  obtain ⟨front, hfront, hopens⟩ := h.opens hpeek hx
  have hboundary := Reference.atBoundary_of_opens hfront hopens hpeek hx
  constructor
  · intro name hname
    rw [hname] at hhead
    obtain ⟨s, hmatch, hstop⟩ := Reference.mock_pipeline_matched hboundary hhead hnext
    have hmem := Reference.mem_searchAll_of_match Reference.namesBehind_mockPipeline.moves
      Reference.separate_mockPipeline hfront.le hmatch
    refine ⟨s, Reference.mem_scan.2 (Reference.mem_foundFrom.2 ?_), hstop⟩
    exact Or.inr (Or.inr (Or.inr (Or.inl (List.mem_map.2 ⟨_, hmem, rfl⟩))))
  · intro kind name hname
    rw [hname] at hhead
    obtain ⟨s, hmatch, hstop⟩ := Reference.mock_variable_matched hboundary hhead hnext
    have hmem := Reference.mem_searchAll_of_match Reference.namesBehind_mockVariable.moves
      Reference.separate_mockVariable hfront.le hmatch
    refine ⟨s, Reference.mem_scan.2 (Reference.mem_foundFrom.2 ?_), hstop⟩
    exact Or.inr (Or.inr (Or.inr (Or.inr (List.mem_map.2 ⟨_, hmem, rfl⟩))))

end Grammar
end PipelineLang
