import PipelineLang.Proofs.Grammar.Clauses
import PipelineLang.Proofs.Grammar.Reading
import PipelineLang.Proofs.Grammar.WrittenSuite

/-!
# Reading the clauses of test blocks

A clause that stands on a line of its own is read as it is written (`testClause_written`). The readers
of clauses are tried one after the other, and their words overlap: `and` opens mocks and conditions,
`with` mocks and inputs. What keeps a mock out of a condition on a field called `mock` is that no
`returning` can stand where the value of the condition is to come (`mock_of_condition`).
-/

namespace PipelineLang.Grammar

open Cursor

variable {c d : Cursor} {rest : List Char} {word other : String}

/-- A line ends here. -/
def AtLineEnd (rest : List Char) : Prop := ∀ x ∈ rest.head?, Blank.isLayout x = true

/-! ## Words -/

/-- Words end where a blank stands. -/
theorem head?_space (rest : List Char) : ∀ x ∈ (' ' :: rest).head?, isIdentChar x = false := by
  rintro x ⟨⟩
  rfl

theorem keyword_word_ne (hword : IsIdentifier word) (hother : IsIdentifier other)
    (h : c.rest = word.toList ++ ' ' :: rest) (hne : word ≠ other) :
    c.keyword other.toList = none :=
  keyword_eq_none hother h hword.2 (head?_space rest) fun heq => hne (String.toList_injective heq)

theorem spacedWord_ne (hword : IsIdentifier word) (hother : IsIdentifier other)
    (h : c.rest = word.toList ++ ' ' :: rest) (hne : word ≠ other) :
    spacedWord other.toList c = none := by
  rw [spacedWord, keyword_word_ne hword hother h hne, Option.bind_none]

theorem spacedWord_word (h : c.rest = word.toList ++ ' ' :: rest)
    (hrest : ∀ x ∈ rest.head?, Blank.isInline x = false) :
    ∃ d, spacedWord word.toList c = some d ∧ d.rest = rest := by
  obtain ⟨next, hnext, hblank⟩ := keyword_append h (head?_space rest)
  obtain ⟨d, hd, hend⟩ := someBlanks_space hblank hrest
  exact ⟨d, Option.bind_eq_some_iff.2 ⟨next, hnext, hd⟩, hend⟩

/-- No blank stands behind the type of a variable, whatever word it is. -/
theorem spacedWord_eq_none_of_dot (hword : IsIdentifier word) (h : c.rest = word.toList ++ '.' :: rest) :
    spacedWord "pipeline".toList c = none := by
  rcases eq_or_ne word "pipeline" with rfl | hne
  · obtain ⟨next, hnext, hdot⟩ := keyword_append h (by rintro x ⟨⟩; rfl)
    rw [spacedWord, hnext, Option.bind_some, someBlanks_eq, peek, hdot]
    rfl
  · rw [spacedWord, keyword_eq_none (by decide) h hword.2 (by rintro x ⟨⟩; rfl) fun heq =>
      hne (String.toList_injective heq), Option.bind_none]

/-- The word that is read is the one that stands there. -/
theorem spacedWord_inv (hword : IsIdentifier word) (hother : IsIdentifier other)
    (h : c.rest = word.toList ++ ' ' :: rest)
    (hrest : ∀ x ∈ rest.head?, Blank.isInline x = false)
    (hread : spacedWord other.toList c = some d) : word = other ∧ d.rest = rest := by
  by_cases hne : word = other
  · obtain ⟨d', hd', hend⟩ := spacedWord_word h hrest
    rw [hne, hread] at hd'
    cases hd'
    exact ⟨hne, hend⟩
  · rw [spacedWord_ne hword hother h hne] at hread
    cases hread

theorem identifier_inv {t : Token} (hword : IsIdentifier word) (h : c.rest = word.toList ++ rest)
    (hrest : ∀ x ∈ rest.head?, isIdentChar x = false) (hread : c.identifier = some (t, d)) :
    t.text = word ∧ d.rest = rest := by
  obtain ⟨t', d', hread', htext, hend⟩ := identifier_append h hword hrest
  rw [hread] at hread'
  cases hread'
  exact ⟨htext, hend⟩

theorem someBlanks_inv (h : c.rest = ' ' :: rest)
    (hrest : ∀ x ∈ rest.head?, Blank.isInline x = false) (hread : c.someBlanks = some d) :
    d.rest = rest := by
  obtain ⟨d', hd', hend⟩ := someBlanks_space h hrest
  rw [hread] at hd'
  cases hd'
  exact hend

/-! ## Values -/

/-- A value between backticks is read behind one blank. -/
theorem clauseValue_space {value : String} (hvalue : (Payload.backtick value).IsWritable)
    (h : c.rest = ' ' :: tick :: (value.toList ++ tick :: rest)) :
    ∃ t d, clauseValue c.blanks = some (t, d) ∧ t.text = value ∧ d.rest = rest := by
  have hblanks : c.blanks.rest = tick :: (value.toList ++ tick :: rest) := blanks_space h (by decide)
  obtain ⟨t, d, hread, htext, hend⟩ := backtickText_append hblanks hvalue
  refine ⟨t, d, ?_, htext.trans String.ofList_toList, hend⟩
  rw [clauseValue, peek, hblanks, List.head?_cons, if_pos rfl, hread]

theorem heading_written {name : String} (hname : (Payload.quoted name).IsWritable)
    (h : c.rest = writtenHeading word name ++ rest) :
    ∃ t d, heading word.toList c = some (t, d) ∧ t.text = name ∧ d.rest = rest := by
  rw [writtenHeading, List.append_assoc] at h
  obtain ⟨next, hnext, hquote⟩ := spacedWord_word h (by rintro x ⟨⟩; decide)
  obtain ⟨t, d, hread, htext, hend⟩ := quotedText_written hname hquote
  exact ⟨t, d, Option.bind_eq_some_iff.2 ⟨next, hnext, hread⟩, htext, hend⟩

/-! ## Mocks -/

theorem mockTarget_written {target : String} (htarget : IsTarget target)
    (h : c.rest = target.toList ++ ' ' :: rest) :
    ∃ d, mockTarget c = some (target, d) ∧ d.rest = ' ' :: rest := by
  cases htarget with
  | @pipeline name hname =>
    rw [String.toList_append, List.append_assoc] at h
    have h : c.rest = "pipeline".toList ++ ' ' :: (name.toList ++ ' ' :: rest) := h
    obtain ⟨start, hstart, hbehind⟩ := spacedWord_word h (hname.head?_append _)
    obtain ⟨t, d, hread, rfl, hend⟩ := identifier_append hbehind hname (head?_space rest)
    refine ⟨d, ?_, hend⟩
    rw [mockTarget, pipelineTarget, hstart, Option.bind_some, hread]
  | @typed kind name hkind hname =>
    have h : c.rest = kind.toList ++ '.' :: (name.toList ++ ' ' :: rest) := by simpa using h
    have hdot : ∀ x ∈ ('.' :: (name.toList ++ ' ' :: rest)).head?, isIdentChar x = false := by
      rintro x ⟨⟩
      rfl
    have hpipeline : pipelineTarget c = none := by
      rw [pipelineTarget, spacedWord_eq_none_of_dot hkind h, Option.bind_none]
    obtain ⟨t, next, hread, rfl, hnext⟩ := identifier_append h hkind hdot
    obtain ⟨t', d, hread', rfl, hend⟩ := identifier_append
      (rfl : (next.step '.' (name.toList ++ ' ' :: rest)).rest = _) hname (head?_space rest)
    refine ⟨d, ?_, hend⟩
    simp only [mockTarget, hpipeline, bind, hread, Option.bind_some, char_cons hnext, hread']
    rfl
  | bare hname hne =>
    have hpipeline : pipelineTarget c = none := by
      rw [pipelineTarget, spacedWord_ne hname (by decide) h hne, Option.bind_none]
    obtain ⟨t, next, hread, rfl, hnext⟩ := identifier_append h hname (head?_space rest)
    have hdot : next.char '.' = none := char_eq_none (by rw [hnext]; rintro ⟨⟩)
    refine ⟨next, ?_, hnext⟩
    simp only [mockTarget, hpipeline, bind, hread, Option.bind_some, hdot]
    rfl

/-- A mock is read, whichever word opens it. -/
theorem mock_written {m : Mock} (hm : m.IsWritable) (lead : Lead)
    (h : c.rest = m.written lead ++ rest) : ∃ d, mock c = some (m, d) ∧ d.rest = rest := by
  simp only [Mock.written, Payload.written, List.append_assoc, List.cons_append,
    List.nil_append] at h
  have hmock : IsIdentifier "mock" := by decide
  have hreturning : IsIdentifier "returning" := by decide
  obtain ⟨next, hnext, hbehind⟩ := spacedWord_word h (hmock.head?_append _)
  have hopens : (spacedWord "with".toList c).or (spacedWord "and".toList c) = some next := by
    cases lead with
    | opening =>
      have hnext : spacedWord "with".toList c = some next := hnext
      rw [hnext, Option.some_or]
    | continuing =>
      have hand : IsIdentifier "and" := by decide
      have hnext : spacedWord "and".toList c = some next := hnext
      rw [show spacedWord "with".toList c = none from spacedWord_ne hand (by decide) h (by decide),
        hnext, Option.none_or]
  obtain ⟨first, hfirst, hbehind⟩ := spacedWord_word hbehind (hm.target.head?_append _)
  obtain ⟨behind, htarget, hbehind⟩ := mockTarget_written hm.target hbehind
  obtain ⟨blank, hblank, hbehind⟩ :=
    someBlanks_space hbehind (hreturning.head?_append _)
  obtain ⟨returning, hreturning, hbehind⟩ := keyword_append hbehind (head?_space _)
  obtain ⟨t, d, hvalue, htext, hend⟩ := clauseValue_space hm.returns hbehind
  refine ⟨d, ?_, hend⟩
  simp only [mock, bind, hopens, hfirst, htarget, hblank, hreturning, hvalue, htext, Option.bind_some]
  rfl

/-- No mock is read where the first word opens none, or the second one is not `mock`. -/
theorem mock_eq_none {field : String} (hword : IsIdentifier word) (hfield : IsIdentifier field)
    (h : c.rest = word.toList ++ ' ' :: (field.toList ++ ' ' :: rest))
    (hrest : ∀ x ∈ rest.head?, Blank.isInline x = false)
    (hnot : (word = "with" ∨ word = "and") → field = "mock" → ∀ first target behind blank,
      first.rest = rest → mockTarget first = some (target, behind) → behind.someBlanks = some blank →
      blank.keyword "returning".toList = none) :
    mock c = none := by
  rw [Option.eq_none_iff_forall_ne_some]
  rintro ⟨m, d⟩ hm
  obtain ⟨behind, returning, value, hhead, -⟩ := mock_spec hm
  obtain ⟨next, first, blank, hnext, hfirst, htarget, hblank, hreturning⟩ := mockHead_spec hhead
  have hinline := hfield.head?_append (' ' :: rest)
  obtain ⟨hlead, hbehind⟩ : (word = "with" ∨ word = "and") ∧
      next.rest = field.toList ++ ' ' :: rest := by
    rcases Option.or_eq_some_iff.1 hnext with hnext | ⟨-, hnext⟩
    · obtain ⟨heq, hend⟩ := spacedWord_inv hword (by decide) h hinline hnext
      exact ⟨Or.inl heq, hend⟩
    · obtain ⟨heq, hend⟩ := spacedWord_inv hword (by decide) h hinline hnext
      exact ⟨Or.inr heq, hend⟩
  obtain ⟨heq, hend⟩ := spacedWord_inv hfield (by decide) hbehind hrest hfirst
  rw [hnot hlead heq first m.target behind blank hend htarget hblank] at hreturning
  cases hreturning

/-- What stands behind the word of a comparison: a value, perhaps with `not` before it. -/
inductive OpensValue : List Char → Prop where
  | value (text : List Char) : OpensValue (tick :: text)
  | negated (text : List Char) : OpensValue ("not".toList ++ ' ' :: tick :: text)

namespace OpensValue

variable {more : List Char}

theorem head?_inline (h : OpensValue more) : ∀ x ∈ more.head?, Blank.isInline x = false := by
  cases h with
  | value text => rintro x ⟨⟩; decide
  | negated text => rintro x ⟨⟩; decide

theorem not_returning (h : OpensValue more) (hc : c.rest = more) :
    c.keyword "returning".toList = none := by
  have hreturning : IsIdentifier "returning" := by decide
  have hnot : IsIdentifier "not" := by decide
  cases h with
  | value text =>
    have hc : c.rest = [] ++ tick :: text := hc
    exact keyword_eq_none hreturning hc (by rintro x ⟨⟩) (by rintro x ⟨⟩; decide) (by decide)
  | negated text => exact keyword_word_ne hnot hreturning hc (by decide)

/-- A name that is read there is `not`, and the value stands behind it. -/
theorem behind_identifier {t : Token} (h : OpensValue more) (hc : c.rest = more)
    (hread : c.identifier = some (t, d)) : ∃ text, d.rest = ' ' :: tick :: text := by
  cases h with
  | value text =>
    have hpeek := peek_of_identifier hread
    rw [peek, hc, List.head?_cons, Option.any_some] at hpeek
    exact absurd hpeek (by decide)
  | negated text =>
    have hnot : IsIdentifier "not" := by decide
    exact ⟨text, (identifier_inv hnot hc (head?_space _) hread).2⟩

end OpensValue

theorem exists_words {text : String} (h : IsComparison text) (value : List Char) :
    ∃ word more, IsIdentifier word ∧ OpensValue more ∧
      text.toList ++ ' ' :: tick :: value = word.toList ++ ' ' :: more := by
  cases h with
  | plain hword => exact ⟨_, _, hword, .value value, rfl⟩
  | @negated word hword =>
    refine ⟨word, _, hword, .negated value, ?_⟩
    rw [String.toList_append, List.append_assoc]
    rfl

/-- Whatever could be mocked in a comparison, no `returning` stands behind it. -/
theorem not_returning_of_comparison {first behind blank : Cursor} {target text : String} {value : List Char}
    (hcomparison : IsComparison text) (h : first.rest = text.toList ++ ' ' :: tick :: value)
    (htarget : mockTarget first = some (target, behind)) (hblank : behind.someBlanks = some blank) :
    blank.keyword "returning".toList = none := by
  obtain ⟨word, more, hword, hmore, heq⟩ := exists_words hcomparison value
  rw [heq] at h
  rcases mockTarget_cases htarget with ⟨start, token, hstart, htoken, -⟩ | ⟨token, htoken, -⟩ |
    ⟨token, next, dot, -, htoken, hdot, -, -⟩
  · -- `pipeline` is the word of the comparison, and `not` would be the name of the pipeline
    obtain ⟨-, hbehind⟩ := spacedWord_inv hword (by decide) h hmore.head?_inline hstart
    obtain ⟨text, hend⟩ := hmore.behind_identifier hbehind htoken
    exact (OpensValue.value text).not_returning
      (someBlanks_inv hend (OpensValue.value text).head?_inline hblank)
  · obtain ⟨-, hend⟩ := identifier_inv hword h (head?_space more) htoken
    exact hmore.not_returning (someBlanks_inv hend hmore.head?_inline hblank)
  · obtain ⟨-, hend⟩ := identifier_inv hword h (head?_space more) htoken
    rw [char_eq_none (by rw [hend]; rintro ⟨⟩)] at hdot
    cases hdot

/-! ## Clauses -/

theorem bareToken_append {path : List Char} (hne : path ≠ [])
    (hpath : ∀ x ∈ path, Blank.isAscii x = false) (hrest : ∀ x ∈ rest.head?, Blank.isAscii x = true)
    (h : c.rest = path ++ rest) :
    ∃ t d, c.bareToken = some (t, d) ∧ t.text = String.ofList path ∧ d.rest = rest := by
  obtain ⟨x, xs, rfl⟩ := List.exists_cons_of_ne_nil hne
  have hx : (!Blank.isAscii x) = true := by rw [hpath x List.mem_cons_self]; rfl
  obtain ⟨htext, hend⟩ := run_append h (fun y hy => by rw [hpath y hy]; rfl)
    (fun y hy => by rw [hrest y hy]; rfl : ∀ y ∈ rest.head?, (!Blank.isAscii y) = false)
  have hspan := span_takeWhile_cons (p := (!Blank.isAscii ·)) h hx
  refine ⟨_, _, ?_, htext, hend⟩
  simp only [bareToken, hspan, Bool.false_eq_true, if_false]

/-- Blanks end where a path stands. -/
theorem head?_path_append {path : List Char} (hne : path ≠ [])
    (hpath : ∀ x ∈ path, Blank.isAscii x = false ∧ x ≠ tick) (rest : List Char) :
    ∀ x ∈ (path ++ rest).head?, Blank.isInline x = false := by
  intro x hx
  rw [List.head?_append_of_ne_nil _ hne] at hx
  have hascii := (hpath x (List.mem_of_head? hx)).1
  simp only [Blank.isAscii, Bool.or_eq_false_iff] at hascii
  simp only [Blank.isInline, hascii, Bool.or_false]

/-- An action is read, if its line ends behind it. -/
theorem action_written {a : Action} (ha : a.IsWritable)
    (hrest : AtLineEnd rest) (h : c.rest = a.written ++ rest) :
    ∃ d, action c = some (a, d) ∧ d.rest = rest := by
  have hcalling : IsIdentifier "calling" := by decide
  have hexecuting : IsIdentifier "executing" := by decide
  have hident : ∀ x ∈ rest.head?, isIdentChar x = false :=
    fun x hx => isIdentChar_of_isLayout (hrest x hx)
  cases a with
  | callRoute method path =>
    obtain ⟨hmethod, hne, hpath⟩ := ha
    have hidentifier : ∀ word ∈ methods, IsIdentifier word := by decide
    have hmethod' := hidentifier method hmethod
    simp only [Action.written, List.append_assoc, List.cons_append] at h
    obtain ⟨next, hwhen, hbehind⟩ := spacedWord_word h (hcalling.head?_append _)
    obtain ⟨behind, hword, hbehind⟩ := keyword_append hbehind (head?_space _)
    obtain ⟨start, hstart, hbehind⟩ := someBlanks_space hbehind (hmethod'.head?_append _)
    obtain ⟨t, last, hread, rfl, hlast⟩ := identifier_append hbehind hmethod' (head?_space _)
    obtain ⟨token, htoken, hpath'⟩ := someBlanks_space hlast (head?_path_append hne hpath rest)
    obtain ⟨t', d, hpath', htext, hend⟩ := bareToken_append hne (fun x hx => (hpath x hx).1)
      (fun x hx => isAscii_of_isLayout (hrest x hx)) hpath'
    refine ⟨d, ?_, hend⟩
    simp only [action, bind, hwhen, hword, hstart, routeAction, Grammar.method, hread,
      List.contains_iff_mem.2 hmethod, if_true, htoken, hpath', htext, String.ofList_toList,
      Option.bind_some]
    rfl
  | runPipeline name =>
    have hpipeline : IsIdentifier "pipeline" := by decide
    have hname : IsIdentifier name := ha
    simp only [Action.written, List.append_assoc, List.cons_append] at h
    obtain ⟨next, hwhen, hbehind⟩ := spacedWord_word h (hexecuting.head?_append _)
    have hnot : next.keyword "calling".toList = none :=
      keyword_word_ne hexecuting hcalling hbehind (by decide)
    obtain ⟨behind, hword, hbehind⟩ := spacedWord_word hbehind (hpipeline.head?_append _)
    obtain ⟨next', hnext', hbehind⟩ := keyword_append hbehind (head?_space _)
    obtain ⟨start, hstart, hbehind⟩ := someBlanks_space hbehind (hname.head?_append _)
    obtain ⟨t, d, hread, rfl, hend⟩ := identifier_append hbehind hname hident
    refine ⟨d, ?_, hend⟩
    simp only [action, bind, hwhen, hnot, hword, runAction, hnext', hstart, hread, Option.bind_some]
    rfl
  | runVariable kind name =>
    have hvariable : IsIdentifier "variable" := by decide
    have hpipeline : IsIdentifier "pipeline" := by decide
    obtain ⟨hkind, hname⟩ := ha
    simp only [Action.written, List.append_assoc, List.cons_append] at h
    obtain ⟨next, hwhen, hbehind⟩ := spacedWord_word h (hexecuting.head?_append _)
    have hnot : next.keyword "calling".toList = none :=
      keyword_word_ne hexecuting hcalling hbehind (by decide)
    obtain ⟨behind, hword, hbehind⟩ := spacedWord_word hbehind (hvariable.head?_append _)
    have hnot' : behind.keyword "pipeline".toList = none :=
      keyword_word_ne hvariable hpipeline hbehind (by decide)
    obtain ⟨first, hfirst, hbehind⟩ := spacedWord_word hbehind (hkind.head?_append _)
    obtain ⟨t, blank, hread, rfl, hblank'⟩ := identifier_append hbehind hkind (head?_space _)
    obtain ⟨start, hstart, hbehind⟩ := someBlanks_space hblank' (hname.head?_append _)
    obtain ⟨t', d, hread', rfl, hend⟩ := identifier_append hbehind hname hident
    refine ⟨d, ?_, hend⟩
    simp only [action, bind, hwhen, hnot, hword, runAction, hnot', variableAction, spacedName, hfirst,
      hread, hstart, hread', Option.bind_some, pure]

theorem input_written {text : String} (htext : (Payload.backtick text).IsWritable)
    (h : c.rest = "with".toList
      ++ ' ' :: ("input".toList ++ ' ' :: tick :: (text.toList ++ tick :: rest))) :
    ∃ t d, input c = some (t, d) ∧ t.text = text ∧ d.rest = rest := by
  have hinput : IsIdentifier "input" := by decide
  obtain ⟨next, hwith, hbehind⟩ := spacedWord_word h (hinput.head?_append _)
  obtain ⟨behind, hword, hbehind⟩ := keyword_append hbehind (head?_space _)
  obtain ⟨t, d, hvalue, rfl, hend⟩ := clauseValue_space htext hbehind
  exact ⟨t, d, by simp only [input, bind, hwith, hword, hvalue, Option.bind_some], rfl, hend⟩

/-! ## Conditions -/

theorem lead_written {lead : Lead} (h : c.rest = lead.conditionWord.toList ++ ' ' :: rest) :
    ∃ d, Grammar.lead c = some (lead, d) ∧ d.rest = ' ' :: rest := by
  obtain ⟨d, hd, hend⟩ := keyword_append h (head?_space _)
  refine ⟨d, ?_, hend⟩
  cases lead with
  | opening =>
    have hd : c.keyword "then".toList = some d := hd
    rw [Grammar.lead, hd]
  | continuing =>
    have hand : IsIdentifier "and" := by decide
    have hthen : c.keyword "then".toList = none := keyword_word_ne hand (by decide) h (by decide)
    have hd : c.keyword "and".toList = some d := hd
    rw [Grammar.lead, hthen, hd]
    rfl

theorem query_written {k : Condition} (hk : ∀ q ∈ k.query, (Payload.backtick q).IsWritable)
    (hrest : ∀ x ∈ rest.head?, isIdentChar x = true) (h : c.rest = k.writtenQuery ++ rest) :
    ∃ d, query c = some (k.query, d) ∧ d.rest = rest := by
  unfold Condition.writtenQuery at h
  cases hq : k.query with
  | none =>
    rw [hq] at h
    have hpeek : ¬ c.peek = some tick := by
      intro hpeek
      rw [peek, h] at hpeek
      exact absurd (hrest tick hpeek) (by decide)
    exact ⟨c, if_neg hpeek, h⟩
  | some q =>
    simp only [hq, Option.elim, Payload.written, List.append_assoc, List.cons_append,
      List.nil_append] at h
    obtain ⟨t, next, hread, htext, hnext⟩ := backtickText_append h (hk q hq)
    obtain ⟨d, hd, hend⟩ := someBlanks_space hnext fun x hx =>
      not_isInline_of_isIdentChar (hrest x hx)
    refine ⟨d, ?_, hend⟩
    rw [query, peek, h, List.head?_cons, if_pos rfl]
    simp only [bind, hread, hd, htext, String.ofList_toList, Option.bind_some]
    rfl

/-- A comparison is read up to the value behind it. -/
theorem comparison_written {text : String} {value : List Char} (hcomparison : IsComparison text)
    (h : c.rest = text.toList ++ ' ' :: tick :: value) :
    ∃ d, comparison c = some (text, d) ∧ d.rest = ' ' :: tick :: value := by
  cases hcomparison with
  | plain hword =>
    obtain ⟨t, next, hread, rfl, hnext⟩ := identifier_append h hword (head?_space _)
    obtain ⟨blank, hblank, hbehind⟩ := someBlanks_space hnext (OpensValue.value value).head?_inline
    have hbehind : blank.rest = [] ++ tick :: value := hbehind
    have hnot : blank.keyword "not".toList = none :=
      keyword_eq_none (by decide) hbehind (by rintro x ⟨⟩) (by rintro x ⟨⟩; decide) (by decide)
    refine ⟨next, ?_, hnext⟩
    simp only [comparison, bind, hread, hblank, hnot, Option.bind_some]
    rfl
  | @negated word hword =>
    rw [String.toList_append, List.append_assoc] at h
    have h : c.rest = word.toList ++ ' ' :: ("not".toList ++ ' ' :: tick :: value) := h
    obtain ⟨t, next, hread, rfl, hnext⟩ := identifier_append h hword (head?_space _)
    obtain ⟨blank, hblank, hbehind⟩ :=
      someBlanks_space hnext (OpensValue.negated value).head?_inline
    obtain ⟨d, hd, hend⟩ := keyword_append hbehind (head?_space _)
    refine ⟨d, ?_, hend⟩
    simp only [comparison, bind, hread, hblank, hd, Option.bind_some]
    rfl

section
variable {k : Condition} {value : List Char} (hk : k.IsWritable)
include hk

theorem head?_comparison (rest : List Char) :
    ∀ x ∈ (k.comparison.toList ++ ' ' :: tick :: rest).head?, isIdentChar x = true := by
  obtain ⟨word, more, hword, -, heq⟩ := exists_words hk.comparison rest
  obtain ⟨x, xs, hcs, -⟩ := hword.head
  rw [heq, hcs]
  rintro y ⟨⟩
  exact hword.2 x (hcs ▸ List.mem_cons_self)

theorem head?_query (rest : List Char) :
    ∀ x ∈ (k.writtenQuery ++ (k.comparison.toList ++ ' ' :: tick :: rest)).head?,
      Blank.isInline x = false := by
  unfold Condition.writtenQuery
  cases k.query with
  | none => exact fun x hx => not_isInline_of_isIdentChar (head?_comparison hk rest x hx)
  | some q =>
    rintro x ⟨⟩
    decide

/-- No mock is read where a condition stands, though its field may be called `mock`. -/
theorem mock_of_condition (h : c.rest = k.written ++ rest) : mock c = none := by
  simp only [Condition.written, Payload.written, List.append_assoc, List.cons_append,
    List.nil_append] at h
  refine mock_eq_none (k.lead.isIdentifier_conditionWord) hk.field h (head?_query hk _)
    fun _ _ first target behind blank hfirst htarget hblank => ?_
  unfold Condition.writtenQuery at hfirst
  cases hq : k.query with
  | none =>
    rw [hq] at hfirst
    exact not_returning_of_comparison hk.comparison hfirst htarget hblank
  | some q =>
    have hpeek := peek_of_mockTarget htarget
    simp only [peek, hfirst, hq, Option.elim, Payload.written, List.cons_append, List.head?_cons,
      Option.any_some] at hpeek
    exact absurd hpeek (by decide)

theorem condition_written (h : c.rest = k.written ++ rest) :
    ∃ d, condition c = some (k, d) ∧ d.rest = rest := by
  simp only [Condition.written, Payload.written, List.append_assoc, List.cons_append,
    List.nil_append] at h
  obtain ⟨next, hlead, hbehind⟩ := lead_written h
  obtain ⟨start, hstart, hbehind⟩ := someBlanks_space hbehind (hk.field.head?_append _)
  obtain ⟨t, blank, hfield, htext, hbehind⟩ :=
    identifier_append hbehind hk.field (head?_space _)
  obtain ⟨behind, hblank, hbehind⟩ := someBlanks_space hbehind (head?_query hk _)
  obtain ⟨afterQuery, hquery, hbehind⟩ :=
    query_written hk.query (head?_comparison hk _) hbehind
  obtain ⟨afterWord, hcomparison, hbehind⟩ := comparison_written hk.comparison hbehind
  obtain ⟨t', d, hvalue, htext', hend⟩ := clauseValue_space hk.value hbehind
  refine ⟨d, ?_, hend⟩
  simp only [condition, bind, pure, hlead, hstart, spacedName, hfield, hblank, hquery, hcomparison,
    hvalue, htext, htext', Option.bind_some]

end

/-! ## One clause behind another -/

/-- No mock is read behind a word that opens none. -/
theorem mock_of_word (hword : IsIdentifier word) (h : c.rest = word.toList ++ ' ' :: rest)
    (hwith : word ≠ "with") (hand : word ≠ "and") : mock c = none := by
  simp only [mock, bind, spacedWord_ne hword (by decide) h hwith,
    spacedWord_ne hword (by decide) h hand, Option.or_none, Option.bind_none]

theorem action_of_word (hword : IsIdentifier word) (h : c.rest = word.toList ++ ' ' :: rest)
    (hwhen : word ≠ "when") : action c = none := by
  simp only [action, bind, spacedWord_ne hword (by decide) h hwhen, Option.bind_none]

theorem input_of_word (hword : IsIdentifier word) (h : c.rest = word.toList ++ ' ' :: rest)
    (hwith : word ≠ "with") : input c = none := by
  simp only [input, bind, spacedWord_ne hword (by decide) h hwith, Option.bind_none]

theorem condition_of_word (hword : IsIdentifier word) (h : c.rest = word.toList ++ ' ' :: rest)
    (hthen : word ≠ "then") (hand : word ≠ "and") : condition c = none := by
  simp only [condition, bind, Grammar.lead, keyword_word_ne hword (by decide) h hthen,
    keyword_word_ne hword (by decide) h hand, Option.map_none, Option.bind_none]

/-- Behind the layout in front of a line stands its first word. -/
theorem layout_word {column : Nat} {more : List Char} (hword : IsIdentifier word)
    (h : c.rest = writtenLine column (word.toList ++ more) ++ rest) :
    c.layout.rest = word.toList ++ (more ++ rest) := by
  obtain ⟨x, xs, hcs, hx⟩ := hword.head
  rw [hcs, List.cons_append] at h
  rw [(layout_writtenLine h (not_layout_of_isIdentStart hx)).1, hcs, List.append_assoc,
    List.cons_append]

/-- **A clause on its line is read as it is written.** -/
theorem testClause_written {k : TestClause} (hk : k.IsWritable) {column : Nat} {lead : Lead}
    (hrest : AtLineEnd rest) (h : c.rest = writtenLine column (k.written lead) ++ rest) :
    ∃ d, testClause c = some (k, d) ∧ d.rest = rest := by
  have hline : c.layout.rest = k.written lead ++ rest := by
    obtain ⟨word, more, hword, hwritten⟩ := k.written_head lead
    rw [hwritten] at h ⊢
    rw [layout_word hword h, List.append_assoc]
  cases k with
  | mock m =>
    obtain ⟨d, hread, hend⟩ := mock_written hk lead hline
    exact ⟨d, by simp only [testClause, hread, Option.map_some, Option.some_or], hend⟩
  | action a =>
    have hwhen : IsIdentifier "when" := by decide
    obtain ⟨d, hread, hend⟩ := action_written hk hrest hline
    obtain ⟨more, hmore⟩ := a.written_head
    rw [TestClause.written, hmore, List.append_assoc, List.cons_append] at hline
    have hmock : mock c.layout = none := mock_of_word hwhen hline (by decide) (by decide)
    refine ⟨d, ?_, hend⟩
    simp only [testClause, hmock, hread, Option.map_none, Option.map_some, Option.none_or,
      Option.some_or]
  | input text =>
    have hwith : IsIdentifier "with" := by decide
    have hinput : IsIdentifier "input" := by decide
    have hline : c.layout.rest = "with".toList
        ++ ' ' :: ("input".toList ++ ' ' :: tick :: (text.toList ++ tick :: rest)) := by
      simpa only [TestClause.written, Payload.written, List.append_assoc, List.cons_append,
        List.nil_append] using hline
    obtain ⟨t, d, hread, rfl, hend⟩ := input_written hk hline
    -- the word behind `with` is not `mock`
    have hmock : mock c.layout = none :=
      mock_eq_none hwith hinput hline (by rintro x ⟨⟩; decide)
        fun _ heq => absurd heq (by decide)
    have haction : action c.layout = none := action_of_word hwith hline (by decide)
    refine ⟨d, ?_, hend⟩
    simp only [testClause, hmock, haction, hread, Option.map_none, Option.map_some, Option.none_or,
      Option.some_or]
  | condition k =>
    obtain ⟨d, hread, hend⟩ := condition_written hk hline
    have hword := k.lead.isIdentifier_conditionWord
    have hne : k.lead.conditionWord ≠ "when" ∧ k.lead.conditionWord ≠ "with" := by
      cases k.lead <;> decide
    have hmock : mock c.layout = none := mock_of_condition hk hline
    simp only [TestClause.written, Condition.written, List.append_assoc, List.cons_append] at hline
    have haction : action c.layout = none := action_of_word hword hline hne.1
    have hinput : input c.layout = none := input_of_word hword hline hne.2
    refine ⟨d, ?_, hend⟩
    simp only [testClause, hmock, haction, hinput, hread, Option.map_none, Option.map_some,
      Option.none_or]

end PipelineLang.Grammar
