import PipelineLang.Proofs.Grammar.Clauses
import PipelineLang.Proofs.Grammar.Locality

/-!
# Clauses with text in front and behind

A clause whose value opens with a backtick or a quote that is not closed is broken off, and text that
stands behind may close it (`Torn`). Where nothing is torn, a clause is read as without that text, and
the text holds the mark if something is (`mark_of_torn`).

A mock that is torn is no clause in the text alone, or a condition on a field called `mock`: such is
`and mock name returning` with an open value (`mayOpen_of_mockHead`).
-/

namespace PipelineLang

instance : Framed Mock := .fixed Mock
instance : Framed Action := .fixed Action
instance : Framed Lead := .fixed Lead
instance : Framed (Option String) := .fixed (Option String)
instance : Framed Condition := .fixed Condition
instance : Framed Grammar.TestClause := .fixed Grammar.TestClause

/-- The condition may be what is left of a mock with an open value, `and mock name returning`, whose
value holds the mark. -/
structure Condition.MayOpen (k : Condition) (mark : Char) : Prop where
  lead : k.lead = .continuing
  field : k.field = "mock"
  isMark : mark = Cursor.tick ∨ mark = '"'
  mem : mark ∈ k.value.toList

namespace Grammar

open Cursor

variable {front back : List Char} {c d : Cursor}

/-- The reader finds nothing in the text alone, but something with the text behind it. -/
def Torn {α : Type} (front back : List Char) (read : Cursor → Option α) (c : Cursor) : Prop :=
  back ≠ [] ∧ read c = none ∧ read (c.within front back) ≠ none

/-! ## Values -/

theorem clauseValue_within (h : Closed back c) (hread : back = [] ∨ clauseValue c ≠ none) :
    Agrees front back (clauseValue c) (clauseValue (c.within front back)) := by
  rw [clauseValue] at hread
  rw [clauseValue, clauseValue, h.peek]
  split
  · next htick =>
    rw [if_pos htick] at hread
    exact h.backtickText hread
  · next htick =>
    rw [if_neg htick] at hread
    split
    · next hquote =>
      rw [if_pos hquote] at hread
      exact h.quotedText (hread.imp_left Or.inl)
    · exact h.restOfLine

theorem mem_of_quotedRun {text : List Char} (hnone : quotedRun text = none)
    (hread : quotedRun (text ++ back) ≠ none) : '"' ∈ back := by
  fun_induction quotedRun text with
  | case1 =>
    obtain ⟨run, hrun⟩ := Option.ne_none_iff_exists'.1 hread
    obtain ⟨tail, htail⟩ := quotedRun_spec hrun
    rw [List.nil_append] at htail
    rw [htail]
    exact List.mem_append_right run List.mem_cons_self
  | case2 x xs ih =>
    rw [Option.map_eq_none_iff] at hnone
    rw [List.cons_append, List.cons_append, quotedRun, Ne, Option.map_eq_none_iff] at hread
    exact ih hnone hread
  | case3 xs => cases hnone
  | case4 x xs hback hquote hend =>
    simp only [Bool.or_eq_true, decide_eq_true_eq] at hend
    rcases hend with rfl | rfl
    · rw [List.cons_append, quotedRun, if_neg hquote, if_pos (by decide)] at hread
      · exact absurd rfl hread
      · exact fun y ys hy => absurd hy (by decide)
    · -- the backslash at the end takes the first character behind along
      cases xs with
      | cons y ys => exact absurd rfl (hback y ys rfl)
      | nil =>
        cases back with
        | nil => exact absurd rfl hread
        | cons y ys =>
          obtain ⟨run, hrun⟩ := Option.ne_none_iff_exists'.1 hread
          obtain ⟨tail, htail⟩ := quotedRun_spec hrun
          rw [show ['\\'] ++ y :: ys = '\\' :: y :: ys from rfl] at htail hrun
          rw [quotedRun] at hrun
          obtain ⟨run', hrun', -⟩ := Option.map_eq_some_iff.1 hrun
          obtain ⟨tail', htail'⟩ := quotedRun_spec hrun'
          rw [htail']
          exact List.mem_cons_of_mem y (List.mem_append_right run' List.mem_cons_self)
  | case5 x xs hback hquote hend ih =>
    simp only [Bool.or_eq_true, decide_eq_true_eq, not_or] at hend
    rw [Option.map_eq_none_iff] at hnone
    rw [List.cons_append, quotedRun, if_neg hquote, if_neg (by simpa using hend), Ne,
      Option.map_eq_none_iff] at hread
    · exact ih hnone hread
    · exact fun y ys hx => absurd hx hend.2

/-- A value that is torn opens with a mark, and the text behind holds that mark. -/
theorem mark_of_torn (h : Closed back c) (htorn : Torn front back clauseValue c) :
    ∃ mark ∈ back, (mark = tick ∨ mark = '"') ∧ c.peek = some mark := by
  obtain ⟨hback, hnone, hread⟩ := htorn
  rw [clauseValue] at hnone hread
  rw [h.peek] at hread
  have hfeed := h.resolve_left hback
  obtain ⟨x, xs, hc⟩ := List.exists_cons_of_ne_nil hfeed.ne_nil
  have hpeek : c.peek = some x := by rw [peek, hc]; rfl
  have hrest : (c.within front back).rest = x :: (xs ++ back) := by rw [within, hc]; rfl
  split at hnone
  · next htick =>
    rw [if_pos htick] at hread
    obtain ⟨text, htext, hmem⟩ := backtickText_ne_none_iff.1 hread
    rw [hrest, List.cons.injEq] at htext
    obtain ⟨rfl, rfl⟩ := htext
    refine ⟨tick, (List.mem_append.1 hmem).resolve_left fun hxs => ?_, Or.inl rfl, htick⟩
    exact backtickText_ne_none_iff.2 ⟨xs, hc, hxs⟩ hnone
  · next htick =>
    rw [if_neg htick] at hread
    split at hnone
    · next hquote =>
      rw [if_pos hquote] at hread
      obtain ⟨text, htext, hrun⟩ := quotedText_ne_none_iff.1 hread
      rw [hrest, List.cons.injEq] at htext
      obtain ⟨rfl, rfl⟩ := htext
      refine ⟨'"', mem_of_quotedRun ?_ hrun, Or.inr rfl, hquote⟩
      by_contra hxs
      exact quotedText_ne_none_iff.2 ⟨xs, hc, hxs⟩ hnone
    · next hquote =>
      rw [if_neg hquote] at hread
      obtain ⟨heq, -⟩ : Agrees front back c.restOfLine _ := h.restOfLine
      rw [heq, hnone] at hread
      exact absurd rfl hread

/-! ## Clauses -/

theorem spacedName_within (h : Closed back c) :
    Agrees front back (spacedName c) (spacedName (c.within front back)) := by
  refine h.identifier.bind_read fun name next hnext => ?_
  refine hnext.someBlanks.bind_cursor fun blank hblank => ?_
  exact Agrees.some ⟨trivial, hblank⟩

theorem pipelineTarget_within (h : Closed back c) :
    Agrees front back (pipelineTarget c) (pipelineTarget (c.within front back)) :=
  (spacedWord_within h (by decide)).bind_cursor fun _ hnext => hnext.identifier

theorem mockTarget_within (h : Closed back c) :
    Agrees front back (mockTarget c) (mockTarget (c.within front back)) := by
  rw [mockTarget, mockTarget]
  rcases (pipelineTarget_within h : Agrees front back _ _).cases with
    ⟨hx, hy⟩ | ⟨⟨name, next⟩, hx, hy, -, hnext⟩
  · simp only [hx, hy]
    refine h.identifier.bind_read fun head next hnext => ?_
    rcases (hnext.char (by decide) : Agrees front back (next.char '.') _).cases with
      ⟨hdot, hdot'⟩ | ⟨dot, hdot, hdot', hclosed⟩
    · simp only [hdot, hdot']
      exact Agrees.some ⟨trivial, hnext⟩
    · simp only [hdot, hdot']
      refine (Closed.identifier hclosed).bind_read fun tail last hlast => ?_
      exact Agrees.some ⟨trivial, hlast⟩
  · simp only [hx, hy]
    exact Agrees.some ⟨trivial, hnext⟩

theorem mockHead_within (h : Closed back c) :
    Agrees front back (mockHead c) (mockHead (c.within front back)) := by
  have hwith : Agrees front back (spacedWord "with".toList c) _ := spacedWord_within h (by decide)
  have hand : Agrees front back (spacedWord "and".toList c) _ := spacedWord_within h (by decide)
  refine (hwith.or fun _ => hand).bind_cursor fun next hnext => ?_
  refine (spacedWord_within hnext (by decide)).bind_cursor fun behind hbehind => ?_
  refine (mockTarget_within hbehind).bind_read fun target last hlast => ?_
  refine hlast.someBlanks.bind_cursor fun blank hblank => ?_
  refine (hblank.keyword (by decide)).bind_cursor fun returning hreturning => ?_
  exact Agrees.some ⟨trivial, hlast, hreturning⟩

theorem mock_within (h : Closed back c) (hread : back = [] ∨ mock c ≠ none) :
    Agrees front back (mock c) (mock (c.within front back)) := by
  rw [mock_eq] at hread
  rw [mock_eq, mock_eq]
  refine (mockHead_within h).bind_of_read hread ?_
  rintro ⟨target, behind, returning⟩ - ⟨-, -, hreturning⟩ hread
  have hreturning : Closed back returning := hreturning
  have hvalue : back = [] ∨ clauseValue returning.blanks ≠ none :=
    hread.imp_right fun hread hnone => hread (by simp only [hnone, Option.map_none])
  simp only [Framed.within, hreturning.blanks_within]
  exact (clauseValue_within hreturning.blanks hvalue).map fun r hr => ⟨rfl, trivial, hr.2⟩

theorem routeAction_within (h : Closed back c) :
    Agrees front back (routeAction c) (routeAction (c.within front back)) := by
  refine (method_within h).bind_read fun word next hnext => ?_
  refine hnext.someBlanks.bind_cursor fun blank hblank => ?_
  refine hblank.bareToken.bind_read fun path last hlast => ?_
  exact Agrees.some ⟨trivial, hlast⟩

theorem variableAction_within (h : Closed back c) :
    Agrees front back (variableAction c) (variableAction (c.within front back)) := by
  refine (spacedWord_within h (by decide)).bind_cursor fun word hword => ?_
  refine (spacedName_within hword).bind_read fun kind next hnext => ?_
  refine hnext.identifier.bind_read fun name last hlast => ?_
  exact Agrees.some ⟨trivial, hlast⟩

theorem runAction_within (h : Closed back c) :
    Agrees front back (runAction c) (runAction (c.within front back)) := by
  rw [runAction, runAction]
  rcases (h.keyword (by decide) : Agrees front back (c.keyword "pipeline".toList) _).cases with
    ⟨hx, hy⟩ | ⟨next, hx, hy, hnext⟩
  · simp only [hx, hy]
    exact variableAction_within h
  · simp only [hx, hy]
    refine (Closed.someBlanks hnext).bind_cursor fun blank hblank => ?_
    refine hblank.identifier.bind_read fun name last hlast => ?_
    exact Agrees.some ⟨trivial, hlast⟩

theorem action_within (h : Closed back c) :
    Agrees front back (action c) (action (c.within front back)) := by
  refine (spacedWord_within h (by decide)).bind_cursor fun next hnext => ?_
  rcases (hnext.keyword (by decide) : Agrees front back (next.keyword "calling".toList) _).cases with
    ⟨hx, hy⟩ | ⟨behind, hx, hy, hbehind⟩
  · simp only [hx, hy]
    refine (spacedWord_within hnext (by decide)).bind_cursor fun executing hexecuting => ?_
    exact runAction_within hexecuting
  · simp only [hx, hy]
    refine (Closed.someBlanks hbehind).bind_cursor fun blank hblank => ?_
    exact routeAction_within hblank

/-- Reads `with input` and the blanks behind it. -/
def inputHead (c : Cursor) : Option Cursor := do
  let next ← spacedWord "with".toList c
  return (← next.keyword "input".toList).blanks

theorem input_eq (c : Cursor) : input c = (inputHead c).bind clauseValue := by
  simp only [input, inputHead, bind, pure, Option.bind_assoc, Option.bind_some]

theorem inputHead_within (h : Closed back c) :
    Agrees front back (inputHead c) (inputHead (c.within front back)) := by
  refine (spacedWord_within h (by decide)).bind_cursor fun next hnext => ?_
  refine (hnext.keyword (by decide)).bind_cursor fun behind hbehind => ?_
  exact Agrees.of_eq hbehind.blanks_within hbehind.blanks

theorem input_within (h : Closed back c) (hread : back = [] ∨ input c ≠ none) :
    Agrees front back (input c) (input (c.within front back)) := by
  rw [input_eq] at hread
  rw [input_eq, input_eq]
  exact (inputHead_within h).bind_of_read hread fun value _ hvalue hread =>
    clauseValue_within hvalue hread

theorem lead_within (h : Closed back c) :
    Agrees front back (lead c) (lead (c.within front back)) := by
  rw [lead, lead]
  rcases (h.keyword (by decide) : Agrees front back (c.keyword "then".toList) _).cases with
    ⟨hx, hy⟩ | ⟨next, hx, hy, hnext⟩
  · simp only [hx, hy]
    exact (h.keyword (by decide)).map fun d hd => ⟨rfl, trivial, hd⟩
  · simp only [hx, hy]
    exact Agrees.some ⟨trivial, hnext⟩

theorem query_within (h : Closed back c) (hread : back = [] ∨ query c ≠ none) :
    Agrees front back (query c) (query (c.within front back)) := by
  rw [query] at hread
  rw [query, query, h.peek]
  split
  · next htick =>
    rw [if_pos htick] at hread
    have htext : back = [] ∨ c.backtickText ≠ none :=
      hread.imp_right fun hread hnone => hread (by rw [hnone]; rfl)
    refine (h.backtickText htext).bind_read fun text next hnext => ?_
    refine hnext.someBlanks.bind_cursor fun blank hblank => ?_
    exact Agrees.some ⟨trivial, hblank⟩
  · exact Agrees.some ⟨trivial, h⟩

theorem comparison_within (h : Closed back c) :
    Agrees front back (comparison c) (comparison (c.within front back)) := by
  refine h.identifier.bind_read fun word next hnext => ?_
  have hnot : Agrees front back (next.someBlanks.bind (keyword "not".toList))
      ((next.within front back).someBlanks.bind (keyword "not".toList)) :=
    hnext.someBlanks.bind_cursor fun blank hblank => hblank.keyword (by decide)
  rcases hnot.cases with ⟨hx, hy⟩ | ⟨last, hx, hy, hlast⟩
  · simp only [hx, hy]
    exact Agrees.some ⟨trivial, hnext⟩
  · simp only [hx, hy]
    exact Agrees.some ⟨trivial, hlast⟩

/-- Reads a condition up to its field. -/
def conditionHead (c : Cursor) : Option (Lead × String × Cursor) := do
  let (lead, next) ← lead c
  let (field, behind) ← spacedName (← next.someBlanks)
  return (lead, field.text, behind)

/-- Reads what stands behind the field of a condition: query, comparison and value. -/
def conditionTail (lead : Lead) (field : String) (c : Cursor) : Option (Condition × Cursor) := do
  let (query, behind) ← query c
  let (comparison, behind) ← comparison behind
  let (value, last) ← clauseValue behind.blanks
  return (⟨lead, field, query, comparison, value.text⟩, last)

theorem condition_eq (c : Cursor) : condition c = (conditionHead c).bind
    fun (lead, field, behind) => conditionTail lead field behind := by
  simp only [condition, conditionHead, conditionTail, bind, pure, Option.bind_assoc,
    Option.bind_some]

theorem conditionHead_within (h : Closed back c) :
    Agrees front back (conditionHead c) (conditionHead (c.within front back)) := by
  refine (lead_within h).bind_read fun lead next hnext => ?_
  refine hnext.someBlanks.bind_cursor fun blank hblank => ?_
  refine (spacedName_within hblank).bind_read fun field behind hbehind => ?_
  exact Agrees.some ⟨trivial, trivial, hbehind⟩

theorem conditionTail_within {lead : Lead} {field : String} (h : Closed back c)
    (hread : back = [] ∨ conditionTail lead field c ≠ none) :
    Agrees front back (conditionTail lead field c)
      (conditionTail lead field (c.within front back)) := by
  have hquery : back = [] ∨ query c ≠ none :=
    hread.imp_right fun hread hnone => hread (by rw [conditionTail, hnone]; rfl)
  refine (query_within h hquery).bind_of_read hread ?_
  rintro ⟨text, behind⟩ - ⟨-, hbehind⟩ hread
  refine (comparison_within hbehind).bind_of_read hread ?_
  rintro ⟨word, next⟩ - ⟨-, hnext⟩ hread
  have hnext : Closed back next := hnext
  have hvalue : back = [] ∨ clauseValue next.blanks ≠ none :=
    hread.imp_right fun hread hnone => hread (by simp only [hnone, bind, Option.bind_none])
  simp only [Framed.within, hnext.blanks_within]
  refine (clauseValue_within hnext.blanks hvalue).bind_read fun value last hlast => ?_
  exact Agrees.some ⟨trivial, hlast⟩

theorem condition_within (h : Closed back c) (hread : back = [] ∨ condition c ≠ none) :
    Agrees front back (condition c) (condition (c.within front back)) := by
  rw [condition_eq] at hread
  rw [condition_eq, condition_eq]
  refine (conditionHead_within h).bind_of_read hread ?_
  rintro ⟨lead, field, behind⟩ - ⟨-, -, hbehind⟩ hread
  exact conditionTail_within hbehind hread

/-! ## Mocks with an open value -/

/-- No line end stands between the cursors. -/
def SameLine (c d : Cursor) : Prop := ∃ run, Between c run d ∧ '\n' ∉ run

theorem SameLine.trans {e : Cursor} (h : SameLine c d) (h' : SameLine d e) : SameLine c e := by
  obtain ⟨run, hrun, hline⟩ := h
  obtain ⟨run', hrun', hline'⟩ := h'
  exact ⟨run ++ run', hrun.trans hrun', List.not_mem_append hline hline'⟩

theorem sameLine_blanks (c : Cursor) : SameLine c c.blanks :=
  ⟨_, blanks_between c, fun hmem => absurd (List.mem_takeWhile_imp hmem) (by decide)⟩

theorem sameLine_of_identifier {t : Token} (h : c.identifier = some (t, d)) : SameLine c d :=
  ⟨_, (identifier_spec h).1, not_mem_of_identifier h (by decide)⟩

theorem sameLine_of_keyword {word : List Char} (h : c.keyword word = some d) (hword : '\n' ∉ word) :
    SameLine c d := ⟨word, chars_between (chars_of_keyword h).1, hword⟩

theorem eq_blanks_of_someBlanks (h : c.someBlanks = some d) : d = c.blanks := by
  rw [someBlanks_eq] at h
  split at h
  · exact (Option.some.inj h).symm
  · cases h

theorem spacedWord_spec {word : List Char} (h : spacedWord word c = some d) :
    ∃ next, c.keyword word = some next ∧ next.someBlanks = some d := Option.bind_eq_some_iff.1 h

theorem lead_cases {l : Lead} (h : lead c = some (l, d)) :
    l = .opening ∧ c.keyword "then".toList = some d ∨
      l = .continuing ∧ c.keyword "and".toList = some d := by
  unfold lead at h
  split at h
  · next hthen =>
    cases h
    exact Or.inl ⟨rfl, hthen⟩
  · obtain ⟨next, hand, heq⟩ := Option.map_eq_some_iff.1 h
    cases heq
    exact Or.inr ⟨rfl, hand⟩

theorem mockHead_keyword {target : String} {behind returning : Cursor}
    (h : mockHead c = some (target, behind, returning)) : ∃ word ∈ ["with", "and"], ∃ next blank,
      c.keyword word.toList = some next ∧ next.someBlanks = some blank ∧
      ∃ first, spacedWord "mock".toList blank = some first ∧
        mockTarget first = some (target, behind) := by
  obtain ⟨blank, first, -, hblank, hfirst, htarget, -⟩ := mockHead_spec h
  rcases Option.or_eq_some_iff.1 hblank with hwith | ⟨-, hand⟩
  · obtain ⟨next, hword, hnext⟩ := spacedWord_spec hwith
    exact ⟨"with", by decide, next, blank, hword, hnext, first, hfirst, htarget⟩
  · obtain ⟨next, hword, hnext⟩ := spacedWord_spec hand
    exact ⟨"and", by decide, next, blank, hword, hnext, first, hfirst, htarget⟩

/-- What is written at `c` is neither quoted nor between backticks, and goes on to `d` at least. -/
structure BareUpTo (c d : Cursor) : Prop where
  sameLine : SameLine c d
  no_tick : c.peek ≠ some tick
  no_quote : c.peek ≠ some '"'

theorem BareUpTo.of_name (hline : SameLine c d) (h : c.peek.any isIdentChar = true) :
    BareUpTo c d :=
  ⟨hline, peek_ne_of_any h (by decide), peek_ne_of_any h (by decide)⟩

section
variable {first behind blank returning stop : Cursor} {token : Token} {word : String}

/-- Of a mocked pipeline, a condition compares by the word `pipeline`. -/
theorem bareUpTo_of_pipelineTarget {start : Cursor}
    (hstart : spacedWord "pipeline".toList first = some start)
    (htoken : start.identifier = some (token, behind)) (hbehind : BareUpTo behind.blanks stop)
    (hword : comparison first = some (word, d)) : BareUpTo d.blanks stop := by
  obtain ⟨p, hpipeline, hp⟩ := spacedWord_spec hstart
  have hfirst : first.identifier = _ := identifier_of_keyword (by decide) hpipeline
  obtain ⟨t, next, ht, hnot⟩ := comparison_cases hword
  rw [hfirst] at ht
  cases ht
  rw [hp, Option.bind_some] at hnot
  rcases hnot with hnot | ⟨-, rfl⟩
  · have hnot : start.identifier = _ := identifier_of_keyword (by decide : IsIdentifier "not") hnot
    rw [htoken] at hnot
    cases hnot
    exact hbehind
  · rw [← eq_blanks_of_someBlanks hp]
    exact .of_name (((sameLine_of_identifier htoken).trans (sameLine_blanks behind)).trans
      hbehind.sameLine) (peek_of_identifier htoken)

/-- Of a mocked variable, a condition compares by the type, and a dot follows. -/
theorem bareUpTo_of_variableTarget {t : Token} {next dot : Cursor}
    (ht : first.identifier = some (t, next)) (hdot : next.char '.' = some dot)
    (htoken : dot.identifier = some (token, behind)) (hbehind : BareUpTo behind.blanks stop)
    (hword : comparison first = some (word, d)) : BareUpTo d.blanks stop := by
  have hrest := char_spec hdot
  have hnone : next.someBlanks = none := by
    rw [someBlanks_eq, peek, hrest]
    rfl
  have hblanks : next.blanks = next := by
    rw [blanks, skipWhile, hrest]
    rfl
  obtain ⟨t', next', ht', hnot⟩ := comparison_cases hword
  rw [ht] at ht'
  cases ht'
  rw [hnone, Option.bind_none] at hnot
  obtain ⟨-, rfl⟩ := hnot.resolve_left (by simp)
  have hline : SameLine d dot := ⟨['.'], char_between hdot, by decide⟩
  have hpeek : d.peek = some '.' := by rw [peek, hrest, List.head?_cons]
  rw [hblanks]
  refine ⟨?_, by rw [hpeek]; decide, by rw [hpeek]; decide⟩
  exact ((hline.trans (sameLine_of_identifier htoken)).trans (sameLine_blanks behind)).trans
    hbehind.sameLine

/-- Where a mock has its target, a condition has its comparison, and its value starts on the same
line as that of the mock. -/
theorem bareUpTo_of_comparison {target : String}
    (htarget : mockTarget first = some (target, behind)) (hblank : behind.someBlanks = some blank)
    (hreturning : blank.keyword "returning".toList = some returning)
    (hword : comparison first = some (word, d)) : BareUpTo d.blanks returning.blanks := by
  have hbehind : BareUpTo behind.blanks returning.blanks := by
    rw [← eq_blanks_of_someBlanks hblank]
    exact .of_name ((sameLine_of_keyword hreturning (by decide)).trans (sameLine_blanks returning))
      (peek_of_keyword (by decide) hreturning)
  rcases mockTarget_cases htarget with ⟨start, token, hstart, htoken, -⟩ | ⟨token, htoken, -⟩ |
    ⟨t, next, dot, token, ht, hdot, htoken, -⟩
  · exact bareUpTo_of_pipelineTarget hstart htoken hbehind hword
  · -- behind the name stands `returning`, so `not` does not
    obtain ⟨t, next, ht, hnot⟩ := comparison_cases hword
    rw [htoken] at ht
    cases ht
    rw [hblank, Option.bind_some] at hnot
    rcases hnot with hnot | ⟨-, rfl⟩
    · have heq := (keyword_unique (by decide : IsIdentifier "not")
        (by decide : IsIdentifier "returning") hnot hreturning).1
      exact absurd heq (by decide)
    · exact hbehind
  · exact bareUpTo_of_variableTarget ht hdot htoken hbehind hword

end

/-- Trimming takes no mark away. -/
theorem mem_trimEnd {mark : Char} {cs : List Char} (hmark : Blank.isWhite mark = false)
    (h : mark ∈ cs) : mark ∈ Blank.trimEnd cs := by
  obtain ⟨trail, heq, hwhite⟩ := Blank.exists_trimEnd_append cs
  rw [heq] at h
  refine (List.mem_append.1 h).resolve_right fun htrail => ?_
  rw [hwhite mark htrail] at hmark
  cases hmark

/-- A text to the end of its line holds a mark that stands further on in the line. -/
theorem mem_of_restOfLine {t : Token} {e : Cursor} {mark : Char} (h : c.restOfLine = some (t, d))
    (hline : SameLine c e) (hmark : mark = tick ∨ mark = '"') (hpeek : e.peek = some mark) :
    mark ∈ t.text.toList := by
  have hwhite : Blank.isWhite mark = false := by rcases hmark with rfl | rfl <;> decide
  have hfeed : (mark != '\n') = true := by rcases hmark with rfl | rfl <;> decide
  have htext : t.text.toList = Blank.trimEnd c.line := by
    simp only [restOfLine] at h
    split at h
    · cases h
    · cases h
      exact String.toList_ofList
  obtain ⟨run, hrun, hnone⟩ := hline
  obtain ⟨xs, hxs⟩ := List.head?_eq_some_iff.1 hpeek
  have hmem : mark ∈ e.line := by simp [line, hxs, hfeed]
  rw [htext, hrun.line_eq hnone]
  exact mem_trimEnd hwhite (List.mem_append_right run hmem)

/-- A condition that starts as a mock does continues another one and is on a field called `mock`. -/
theorem conditionHead_of_mockHead {target field : String} {behind returning first : Cursor}
    {l : Lead} (hhead : mockHead c = some (target, behind, returning))
    (h : conditionHead c = some (l, field, first)) : l = .continuing ∧ field = "mock" ∧
      mockTarget first = some (target, behind) ∧ ∃ blank, behind.someBlanks = some blank ∧
        blank.keyword "returning".toList = some returning := by
  obtain ⟨next, first', blank, hnext, hfirst, htarget, hblank, hreturning⟩ := mockHead_spec hhead
  simp only [conditionHead, spacedName, bind, Option.bind_eq_some_iff] at h
  obtain ⟨⟨l, start⟩, hlead, start', hstart, ⟨name, first⟩, ⟨⟨name, nameEnd⟩, hname, first,
    hnameEnd, heq⟩, heq'⟩ := h
  cases heq
  cases heq'
  have hidentifier : ∀ word ∈ ["with", "and", "then"], IsIdentifier word := by decide
  have hunique {word other : String} {d e : Cursor} (hword : word ∈ ["with", "and", "then"])
      (hother : other ∈ ["with", "and", "then"]) (hd : c.keyword word.toList = some d)
      (he : c.keyword other.toList = some e) : word = other ∧ d = e :=
    keyword_unique (hidentifier word hword) (hidentifier other hother) hd he
  -- both begin with `and`, and with the same word behind it
  obtain ⟨rfl, rfl⟩ : l = .continuing ∧ next = start' := by
    rcases lead_cases hlead with ⟨-, h⟩ | ⟨rfl, h⟩ <;>
      rcases Option.or_eq_some_iff.1 hnext with hword | ⟨-, hword⟩ <;>
      obtain ⟨e, he, hblanks⟩ := spacedWord_spec hword
    · exact absurd (hunique (by decide) (by decide) he h).1 (by decide)
    · exact absurd (hunique (by decide) (by decide) he h).1 (by decide)
    · exact absurd (hunique (by decide) (by decide) he h).1 (by decide)
    · obtain ⟨-, rfl⟩ := hunique (by decide) (by decide) he h
      rw [hblanks] at hstart
      exact ⟨rfl, Option.some.inj hstart⟩
  obtain ⟨mocked, hmocked, hmockedEnd⟩ := spacedWord_spec hfirst
  rw [identifier_of_keyword (by decide : IsIdentifier "mock") hmocked] at hname
  cases hname
  rw [hmockedEnd] at hnameEnd
  cases hnameEnd
  exact ⟨rfl, rfl, htarget, blank, hblank, hreturning⟩

/-- What stands where a mock has an open value is a condition that may be left of such a mock. -/
theorem mayOpen_of_mockHead {target : String} {behind returning : Cursor} {mark : Char}
    {k : Condition} (hhead : mockHead c = some (target, behind, returning))
    (hmark : mark = tick ∨ mark = '"') (hpeek : returning.blanks.peek = some mark)
    (hk : condition c = some (k, d)) : k.MayOpen mark := by
  rw [condition_eq] at hk
  obtain ⟨⟨l, field, first⟩, hcondition, htail⟩ := Option.bind_eq_some_iff.1 hk
  obtain ⟨rfl, rfl, htarget, blank, hblank, hreturning⟩ :=
    conditionHead_of_mockHead hhead hcondition
  simp only [conditionTail, bind, Option.bind_eq_some_iff] at htail
  obtain ⟨⟨q, start⟩, hquery, ⟨word, next⟩, hword, ⟨value, last⟩, hvalue, heq⟩ := htail
  cases heq
  -- the target of the mock is no query, so the value of the condition starts before that of the mock
  have hfirst := peek_of_mockTarget htarget
  have hnotTick : first.peek ≠ some tick := by
    intro htick
    rw [htick] at hfirst
    exact absurd hfirst (by decide)
  rw [query, if_neg hnotTick] at hquery
  cases hquery
  obtain ⟨hline, hticks, hquotes⟩ := bareUpTo_of_comparison htarget hblank hreturning hword
  rw [clauseValue, if_neg hticks, if_neg hquotes] at hvalue
  exact ⟨rfl, rfl, hmark, mem_of_restOfLine hvalue hline hmark hpeek⟩

end Grammar
end PipelineLang
