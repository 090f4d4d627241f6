import PipelineLang.Grammar.Document
import PipelineLang.Proofs.Grammar.Cursor

/-!
# Productions move forward

Whatever reads a piece of a document, be it a property, a step, a clause or a whole declaration,
returns a cursor behind the one it was given. So every repetition runs until nothing more can be
read, and an item of a document always moves the cursor strictly on (`item_lt`).
-/

namespace PipelineLang.Grammar

open Cursor

variable {c d : Cursor}

/-! ## Configuration blocks -/

theorem configWord_lt {t : Token} (h : configWord c = some (t, d)) : c < d := by
  simp only [configWord] at h
  split at h
  · cases h
  · next hempty => cases h; exact lt_of_span_not_empty (by simpa using hempty)

theorem fallback_lt {t : Token} (h : fallback c = some (t, d)) : c < d := by
  simp only [fallback, bind, Option.bind_eq_some_iff] at h
  obtain ⟨bars, hbars, h⟩ := h
  have hvalue : c < bars.blanks :=
    (le_blanks c).trans_lt ((chars_lt (List.cons_ne_nil _ _) hbars).trans_le (le_blanks bars))
  split at h
  · exact hvalue.trans (quotedText_lt h)
  · exact hvalue.trans (configWord_lt h)

theorem configValue_lt {v : ConfigValue} (h : configValue c = some (v, d)) : c < d := by
  unfold configValue at h
  split at h
  · simp only [bind, Option.bind_eq_some_iff] at h
    obtain ⟨dollar, hdollar, ⟨name, next⟩, hname, h⟩ := h
    have hnext := (char_lt hdollar).trans (identifier_lt hname)
    split at h
    · next hfallback => cases h; exact hnext.trans (fallback_lt hfallback)
    · cases h; exact hnext
  · simp only [bind, Option.bind_eq_some_iff] at h
    obtain ⟨⟨value, next⟩, hvalue, heq⟩ := h
    cases heq
    exact quotedText_lt hvalue
  · simp only [bind, Option.bind_eq_some_iff] at h
    obtain ⟨⟨word, next⟩, hword, heq⟩ := h
    cases heq
    exact configWord_lt hword

theorem propertyKey_lt {t : Token} (h : propertyKey c = some (t, d)) : c < d := by
  simp only [propertyKey, bind, Option.bind_eq_some_iff] at h
  obtain ⟨⟨key, next⟩, hkey, colon, hcolon, heq⟩ := h
  cases heq
  exact (identifier_lt hkey).trans ((le_blanks next).trans_lt (char_lt hcolon))

theorem property_lt {p : ConfigProperty} (h : property c = some (p, d)) : c < d := by
  simp only [property, bind, Option.bind_eq_some_iff] at h
  obtain ⟨⟨key, colon⟩, hkey, ⟨value, next⟩, hvalue, h⟩ := h
  split at h
  · cases h
    exact (propertyKey_lt hkey).trans ((le_blanks colon).trans_lt (configValue_lt hvalue))
  · cases h

/-- A line with a key is not empty, so its end is behind its start. -/
theorem lt_lineEnd {x : Char} {xs : List Char} (hc : c.rest = x :: xs) (hx : x ≠ '\n') :
    c < c.lineEnd := by
  refine skip_lt ?_ (by rw [hc]; exact List.cons_ne_nil x xs)
  rw [line, hc, List.takeWhile_cons_of_pos (by simpa using hx)]
  exact Nat.succ_pos _

theorem rest_of_identifier {t : Token} (h : c.identifier = some (t, d)) :
    ∃ x xs, c.rest = x :: xs ∧ isIdentStart x = true := by
  unfold identifier at h
  split at h
  · cases h
  · next x xs hc =>
    split at h
    · next hx => exact ⟨x, xs, hc, hx⟩
    · cases h

theorem faultyProperty_lt {r : SyntaxReport} (h : faultyProperty c = some (r, d)) : c < d := by
  simp only [faultyProperty, bind, Option.bind_eq_some_iff] at h
  obtain ⟨⟨key, colon⟩, hkey, heq⟩ := h
  cases heq
  simp only [propertyKey, bind, Option.bind_eq_some_iff] at hkey
  obtain ⟨⟨t, next⟩, ht, -⟩ := hkey
  obtain ⟨x, xs, hc, hx⟩ := rest_of_identifier ht
  refine lt_lineEnd hc ?_
  rintro rfl
  exact absurd hx (by decide)

theorem configLine_lt {l : ConfigLine} (h : configLine c = some (l, d)) : c < d := by
  simp only [configLine] at h
  split at h
  · next hproperty => cases h; exact (le_layout c).trans_lt (property_lt hproperty)
  · obtain ⟨⟨r, next⟩, hfault, heq⟩ := Option.map_eq_some_iff.1 h
    cases heq
    exact (le_layout c).trans_lt (faultyProperty_lt hfault)

/-- A line of a block starts with a key. -/
theorem configLine_eq_none (h : propertyKey c.layout = none) : configLine c = none := by
  rw [configLine, property, faultyProperty, h]
  rfl

theorem config_lt {v : Spanned Config} {rs : List SyntaxReport} (h : config c = some (v, rs, d)) :
    c < d := by
  simp only [config, bind, Option.bind_eq_some_iff] at h
  obtain ⟨word, hword, behind, hbehind, ⟨name, next⟩, hname, inside, hinside, h⟩ := h
  have hlines : c < (inside.many configLine).2 :=
    (keyword_lt (by decide) hword).trans <| (someBlanks_lt hbehind).trans <|
      (identifier_lt hname).trans <| (le_blanks next).trans_lt <| (char_lt hinside).trans_le <|
      le_many (fun _ _ _ => configLine_lt) inside
  split at h
  · next close hclose =>
    cases h
    exact hlines.trans ((le_layout _).trans_lt (char_lt hclose))
  · cases h; exact hlines

/-! ## Pipelines -/

theorem payload_lt {p : Payload} {s : Span} (h : payload c = some (p, s, d)) : c < d := by
  unfold payload at h
  split at h
  · split at h
    · obtain ⟨⟨t, next⟩, ht, heq⟩ := Option.map_eq_some_iff.1 h
      cases heq
      exact backtickText_lt ht
    · split at h
      · obtain ⟨⟨t, next⟩, ht, heq⟩ := Option.map_eq_some_iff.1 h
        cases heq
        exact quotedText_lt ht
      · simp only [bind, Option.bind_eq_some_iff] at h
        obtain ⟨⟨t, next⟩, ht, h⟩ := h
        split at h
        · cases h; exact identifier_lt ht
        · cases h
  · cases h

theorem call_lt {start : Nat} {s : Step} (h : call start c = some (s, d)) : c < d := by
  simp only [call, bind, Option.bind_eq_some_iff] at h
  obtain ⟨⟨name, next⟩, hname, colon, hcolon, ⟨value, span, last⟩, hpayload, heq⟩ := h
  cases heq
  exact (identifier_lt hname).trans <| (le_blanks next).trans_lt <| (char_lt hcolon).trans <|
    (le_blanks colon).trans_lt (payload_lt hpayload)

theorem resultWord_lt (h : resultWord c = some d) : c < d := by
  simp only [resultWord, bind, Option.bind_eq_some_iff] at h
  obtain ⟨next, hnext, h⟩ := h
  split at h
  · cases h
  · cases h; exact keyword_lt (by decide) hnext

/-- Reads the label and the status of a branch, up to the colon behind them. -/
def branchHead (c : Cursor) : Option ((Token × Token) × Cursor) := do
  let (label, next) ← c.identifier
  let opening ← next.blanks.char '('
  let (digits, behind) := opening.blanks.takeWhile Char.isDigit
  if digits.span.isEmpty then none
  else
    let closing ← behind.blanks.char ')'
    let colon ← closing.blanks.char ':'
    return ((label, digits), colon)

/-- The branch of the given label and status whose steps `read` reads from `colon` on. -/
def branchFrom (read : PipelineReader) (label digits : Token) (colon : Cursor) :
    (Branch × List SyntaxReport) × Cursor :=
  let status := statusOfDigits digits.text.toList
  let (steps, reports, last) := read colon
  ((.mk (.ofLabel label.text) status digits.span steps,
    statusReports status digits.span ++ reports), last)

theorem branch_eq (inner : Nat → PipelineReader) (c : Cursor) :
    branch inner c = (branchHead c).map fun ((label, digits), colon) =>
      branchFrom (inner c.column) label digits colon := by
  rw [branch, branchHead]
  cases c.identifier with
  | none => rfl
  | some r =>
    simp only [bind, Option.bind_some]
    cases r.2.blanks.char '(' with
    | none => rfl
    | some opening =>
      simp only [Option.bind_some]
      split
      · rfl
      · cases (opening.blanks.takeWhile Char.isDigit).2.blanks.char ')' with
        | none => rfl
        | some closing =>
          simp only [Option.bind_some]
          cases closing.blanks.char ':' <;> rfl

/-- A reader of pipelines that never moves back. -/
def Onward (read : PipelineReader) : Prop := ∀ c, c ≤ (read c).2.2

theorem branchHead_lt {tokens : Token × Token} (h : branchHead c = some (tokens, d)) : c < d := by
  simp only [branchHead, bind, Option.bind_eq_some_iff] at h
  obtain ⟨⟨label, next⟩, hlabel, opening, hopening, h⟩ := h
  split at h
  · cases h
  · simp only [Option.bind_eq_some_iff] at h
    obtain ⟨closing, hclosing, colon, hcolon, heq⟩ := h
    cases heq
    exact (identifier_lt hlabel).trans <| (le_blanks next).trans_lt <| (char_lt hopening).trans <|
      (le_blanks opening).trans_lt <| (le_takeWhile _ _).trans_lt <|
      (le_blanks _).trans_lt <| (char_lt hclosing).trans <| (le_blanks closing).trans_lt <|
      char_lt hcolon

theorem branch_lt {inner : Nat → PipelineReader} (hinner : ∀ label, Onward (inner label))
    {b : Branch × List SyntaxReport} (h : branch inner c = some (b, d)) : c < d := by
  rw [branch_eq] at h
  obtain ⟨⟨⟨label, digits⟩, colon⟩, hhead, heq⟩ := Option.map_eq_some_iff.1 h
  cases heq
  exact (branchHead_lt hhead).trans_le (hinner _ colon)

theorem ownedBranch_lt {inner : Nat → PipelineReader} (hinner : ∀ label, Onward (inner label))
    {label : Option Nat} {b : Branch × List SyntaxReport}
    (h : ownedBranch inner label c = some (b, d)) : c < d := by
  simp only [ownedBranch] at h
  split at h
  · exact (le_layout c).trans_lt (branch_lt hinner h)
  · cases h

theorem le_choice {inner : Option (Nat → PipelineReader)}
    (hinner : ∀ read ∈ inner, ∀ label, Onward (read label)) (label : Option Nat) (start : Nat)
    (c : Cursor) : c ≤ (choice inner label start c).2 := by
  cases inner with
  | none => exact le_lineEnd c
  | some read => exact le_many (fun _ _ _ => ownedBranch_lt (hinner read rfl)) c

theorem step_lt {inner : Option (Nat → PipelineReader)}
    (hinner : ∀ read ∈ inner, ∀ label, Onward (read label)) {label : Option Nat}
    {s : Step × List SyntaxReport} (h : step inner label c = some (s, d)) : c < d := by
  simp only [step, bind, Option.bind_eq_some_iff] at h
  obtain ⟨arrow, harrow, h⟩ := h
  have hnext := (chars_lt (List.cons_ne_nil _ _) harrow).trans_le (le_blanks arrow)
  split at h
  · next behind hbehind =>
    have hmove := le_choice hinner label c.offset behind
    rw [Option.some.inj h] at hmove
    exact hnext.trans ((resultWord_lt hbehind).trans_le hmove)
  · obtain ⟨⟨t, last⟩, hcall, heq⟩ := Option.map_eq_some_iff.1 h
    cases heq
    exact hnext.trans (call_lt hcall)

theorem ownedStep_lt {inner : Option (Nat → PipelineReader)}
    (hinner : ∀ read ∈ inner, ∀ label, Onward (read label)) {label : Option Nat}
    {s : Step × List SyntaxReport} (h : ownedStep inner label c = some (s, d)) : c < d := by
  simp only [ownedStep] at h
  split at h
  · exact (le_layout c).trans_lt (step_lt hinner h)
  · cases h

theorem onward_steps {inner : Option (Nat → PipelineReader)}
    (hinner : ∀ read ∈ inner, ∀ label, Onward (read label)) (label : Option Nat) :
    Onward (steps inner label) :=
  le_many fun _ _ _ => ownedStep_lt hinner

theorem onward_branchSteps (levels label : Nat) : Onward (branchSteps levels label) := by
  induction levels generalizing label with
  | zero =>
    refine onward_steps ?_ (some label)
    rintro read ⟨⟩
  | succ levels ih =>
    refine onward_steps ?_ (some label)
    rintro read ⟨⟩
    exact ih

theorem onward_pipeline : Onward pipeline := by
  refine onward_steps ?_ none
  rintro read ⟨⟩
  exact onward_branchSteps (maxNesting - 1)

/-! ## Declarations -/

theorem declaredName_lt {t : Token} (h : declaredName c = some (t, d)) : c < d := by
  simp only [declaredName, bind, Option.bind_eq_some_iff] at h
  obtain ⟨blank, hblank, ⟨name, next⟩, hname, equals, hequals, heq⟩ := h
  cases heq
  exact (someBlanks_lt hblank).trans <| (identifier_lt hname).trans <|
    (le_blanks next).trans_lt (char_lt hequals)

theorem namedPipeline_lt {v : Spanned NamedPipeline} {rs : List SyntaxReport}
    (h : namedPipeline c = some (v, rs, d)) : c < d := by
  simp only [namedPipeline, bind, Option.bind_eq_some_iff] at h
  obtain ⟨word, hword, ⟨name, equals⟩, hname, heq⟩ := h
  cases heq
  exact (keyword_lt (by decide) hword).trans <| (declaredName_lt hname).trans_le <|
    onward_pipeline equals

theorem typedVariable_lt {v : Spanned Variable} (h : typedVariable c = some (v, d)) : c < d := by
  simp only [typedVariable, bind, Option.bind_eq_some_iff] at h
  obtain ⟨⟨kind, next⟩, hkind, h⟩ := h
  split at h
  · cases h
  · simp only [Option.bind_eq_some_iff] at h
    obtain ⟨⟨name, equals⟩, hname, ⟨value, last⟩, hvalue, heq⟩ := h
    cases heq
    exact (identifier_lt hkind).trans <| (declaredName_lt hname).trans <|
      (le_layout equals).trans_lt (backtickText_lt hvalue)

/-- Only a lone step stands for a named pipeline. -/
theorem routeBody_cons_cons (s t : Step) (ss : List Step) :
    routeBody (s :: t :: ss) = .inline (s :: t :: ss) := by
  cases s with
  | call span word payload payloadSpan => cases payload <;> rfl
  | result span branches => rfl

/-- A change of each step is a change of the body if it is one for a lone step. -/
theorem routeBody_map {g : Step → Step} {k : RouteBody → RouteBody}
    (hinline : ∀ ss, k (.inline ss) = .inline (ss.map g))
    (hlone : ∀ s, routeBody [g s] = k (routeBody [s])) (ss : List Step) :
    routeBody (ss.map g) = k (routeBody ss) := by
  match ss with
  | [] => exact (hinline []).symm
  | [s] => exact hlone s
  | s :: t :: ss =>
    rw [List.map_cons, List.map_cons, routeBody_cons_cons, routeBody_cons_cons, hinline]
    rfl

theorem method_lt {t : Token} (h : method c = some (t, d)) : c < d := by
  simp only [method, bind, Option.bind_eq_some_iff] at h
  obtain ⟨⟨word, next⟩, hword, h⟩ := h
  split at h
  · cases h; exact identifier_lt hword
  · cases h

theorem route_lt {v : Spanned Route} {rs : List SyntaxReport} (h : route c = some (v, rs, d)) :
    c < d := by
  simp only [route, bind, Option.bind_eq_some_iff] at h
  obtain ⟨⟨word, next⟩, hword, pathStart, hblank, h⟩ := h
  split at h
  · simp only [Option.bind_eq_some_iff] at h
    obtain ⟨⟨path, behind⟩, hpath, heq⟩ := h
    cases heq
    exact (method_lt hword).trans <| (someBlanks_lt hblank).trans <|
      (bareToken_lt hpath).trans_le (onward_pipeline behind)
  · cases h

/-! ## Test blocks -/

theorem clauseValue_lt {t : Token} (h : clauseValue c = some (t, d)) : c < d := by
  unfold clauseValue at h
  split at h
  · exact backtickText_lt h
  · split at h
    · exact quotedText_lt h
    · exact restOfLine_lt h

theorem spacedWord_lt {word : List Char} (hword : word ≠ []) (h : spacedWord word c = some d) :
    c < d := by
  obtain ⟨next, hnext, hblank⟩ := Option.bind_eq_some_iff.1 h
  exact (keyword_lt hword hnext).trans (someBlanks_lt hblank)

theorem spacedName_lt {t : Token} (h : spacedName c = some (t, d)) : c < d := by
  simp only [spacedName, bind, Option.bind_eq_some_iff] at h
  obtain ⟨⟨name, next⟩, hname, blank, hblank, heq⟩ := h
  cases heq
  exact (identifier_lt hname).trans (someBlanks_lt hblank)

theorem pipelineTarget_lt {t : Token} (h : pipelineTarget c = some (t, d)) : c < d := by
  obtain ⟨next, hnext, hname⟩ := Option.bind_eq_some_iff.1 h
  exact (spacedWord_lt (by decide) hnext).trans (identifier_lt hname)

theorem mockTarget_lt {target : String} (h : mockTarget c = some (target, d)) : c < d := by
  unfold mockTarget at h
  split at h
  · next htarget => cases h; exact pipelineTarget_lt htarget
  · simp only [bind, Option.bind_eq_some_iff] at h
    obtain ⟨⟨head, next⟩, hhead, h⟩ := h
    split at h
    · cases h; exact identifier_lt hhead
    · next dot hdot =>
      simp only [Option.bind_eq_some_iff] at h
      obtain ⟨⟨tail, last⟩, htail, heq⟩ := h
      cases heq
      exact (identifier_lt hhead).trans ((char_lt hdot).trans (identifier_lt htail))

theorem mock_lt {m : Mock} (h : mock c = some (m, d)) : c < d := by
  simp only [mock, bind, Option.bind_eq_some_iff] at h
  obtain ⟨next, hnext, behind, hbehind, ⟨target, last⟩, htarget, blank, hblank, returning,
    hreturning, ⟨value, final⟩, hvalue, heq⟩ := h
  cases heq
  have hlead : c < next := by
    rcases Option.or_eq_some_iff.1 hnext with hnext | ⟨-, hnext⟩
    · exact spacedWord_lt (by decide) hnext
    · exact spacedWord_lt (by decide) hnext
  exact hlead.trans <| (spacedWord_lt (by decide) hbehind).trans <| (mockTarget_lt htarget).trans <|
    (someBlanks_lt hblank).trans <| (keyword_lt (by decide) hreturning).trans <|
    (le_blanks returning).trans_lt (clauseValue_lt hvalue)

theorem routeAction_lt {a : Action} (h : routeAction c = some (a, d)) : c < d := by
  simp only [routeAction, bind, Option.bind_eq_some_iff] at h
  obtain ⟨⟨word, next⟩, hword, blank, hblank, ⟨path, last⟩, hpath, heq⟩ := h
  cases heq
  exact (method_lt hword).trans ((someBlanks_lt hblank).trans (bareToken_lt hpath))

theorem variableAction_lt {a : Action} (h : variableAction c = some (a, d)) : c < d := by
  simp only [variableAction, bind, Option.bind_eq_some_iff] at h
  obtain ⟨word, hword, ⟨kind, next⟩, hkind, ⟨name, last⟩, hname, heq⟩ := h
  cases heq
  exact (spacedWord_lt (by decide) hword).trans ((spacedName_lt hkind).trans (identifier_lt hname))

theorem runAction_lt {a : Action} (h : runAction c = some (a, d)) : c < d := by
  unfold runAction at h
  split at h
  · next next hword =>
    simp only [bind, Option.bind_eq_some_iff] at h
    obtain ⟨blank, hblank, ⟨name, last⟩, hname, heq⟩ := h
    cases heq
    exact (keyword_lt (by decide) hword).trans ((someBlanks_lt hblank).trans (identifier_lt hname))
  · exact variableAction_lt h

theorem action_lt {a : Action} (h : action c = some (a, d)) : c < d := by
  simp only [action, bind, Option.bind_eq_some_iff] at h
  obtain ⟨next, hwhen, h⟩ := h
  have hnext := spacedWord_lt (by decide) hwhen
  split at h
  · next behind hcalling =>
    simp only [Option.bind_eq_some_iff] at h
    obtain ⟨blank, hblank, haction⟩ := h
    exact hnext.trans <| (keyword_lt (by decide) hcalling).trans <|
      (someBlanks_lt hblank).trans (routeAction_lt haction)
  · simp only [Option.bind_eq_some_iff] at h
    obtain ⟨behind, hexecuting, haction⟩ := h
    exact hnext.trans ((spacedWord_lt (by decide) hexecuting).trans (runAction_lt haction))

theorem input_lt {t : Token} (h : input c = some (t, d)) : c < d := by
  simp only [input, bind, Option.bind_eq_some_iff] at h
  obtain ⟨next, hwith, behind, hinput, hvalue⟩ := h
  exact (spacedWord_lt (by decide) hwith).trans <| (keyword_lt (by decide) hinput).trans <|
    (le_blanks behind).trans_lt (clauseValue_lt hvalue)

theorem lead_lt {l : Lead} (h : lead c = some (l, d)) : c < d := by
  unfold lead at h
  split at h
  · next hthen => cases h; exact keyword_lt (by decide) hthen
  · obtain ⟨next, hand, heq⟩ := Option.map_eq_some_iff.1 h
    cases heq
    exact keyword_lt (by decide) hand

theorem query_le {q : Option String} (h : query c = some (q, d)) : c ≤ d := by
  unfold query at h
  split at h
  · simp only [bind, Option.bind_eq_some_iff] at h
    obtain ⟨⟨text, next⟩, htext, blank, hblank, heq⟩ := h
    cases heq
    exact ((backtickText_lt htext).trans (someBlanks_lt hblank)).le
  · cases h; exact le_refl c

/-- What a condition compares by is a name, or a name with `not` behind it. -/
theorem comparison_cases {s : String} (h : comparison c = some (s, d)) :
    ∃ word next, c.identifier = some (word, next) ∧
      (next.someBlanks.bind (keyword "not".toList) = some d ∨
        next.someBlanks.bind (keyword "not".toList) = none ∧ d = next) := by
  simp only [comparison, bind, Option.bind_eq_some_iff] at h
  obtain ⟨⟨word, next⟩, hword, h⟩ := h
  refine ⟨word, next, hword, ?_⟩
  split at h
  · next last hnot =>
    cases h
    exact Or.inl hnot
  · next hnot =>
    cases h
    exact Or.inr ⟨hnot, rfl⟩

theorem comparison_lt {s : String} (h : comparison c = some (s, d)) : c < d := by
  obtain ⟨word, next, hword, hnot | ⟨-, rfl⟩⟩ := comparison_cases h
  · obtain ⟨blank, hblank, hnot⟩ := Option.bind_eq_some_iff.1 hnot
    exact (identifier_lt hword).trans ((someBlanks_lt hblank).trans (keyword_lt (by decide) hnot))
  · exact identifier_lt hword

theorem condition_lt {k : Condition} (h : condition c = some (k, d)) : c < d := by
  simp only [condition, bind, Option.bind_eq_some_iff] at h
  obtain ⟨⟨l, next⟩, hlead, blank, hblank, ⟨field, behind⟩, hfield, ⟨q, afterQuery⟩, hquery,
    ⟨word, afterWord⟩, hword, ⟨value, last⟩, hvalue, heq⟩ := h
  cases heq
  exact (lead_lt hlead).trans <| (someBlanks_lt hblank).trans <| (spacedName_lt hfield).trans <|
    (query_le hquery).trans_lt <| (comparison_lt hword).trans <|
    (le_blanks afterWord).trans_lt (clauseValue_lt hvalue)

theorem testClause_lt {k : TestClause} (h : testClause c = some (k, d)) : c < d := by
  refine (le_layout c).trans_lt ?_
  simp only [testClause, Option.or_eq_some_iff, Option.map_eq_some_iff] at h
  rcases h with ((⟨⟨m, e⟩, hm, heq⟩ | ⟨-, ⟨a, e⟩, ha, heq⟩) | ⟨-, ⟨s, e⟩, hs, heq⟩) |
    ⟨-, ⟨k', e⟩, hk, heq⟩
  · cases heq; exact mock_lt hm
  · cases heq; exact action_lt ha
  · cases heq; exact input_lt hs
  · cases heq; exact condition_lt hk

theorem test_lt {t : Except SyntaxReport TestCase} (h : test c = some (t, d)) : c < d := by
  simp only [test, bind, Option.bind_eq_some_iff] at h
  obtain ⟨word, hword, ⟨name, next⟩, hname, h⟩ := h
  have hclauses : c < (next.many testClause).2 :=
    (spacedWord_lt (by decide) hword).trans <| (quotedText_lt hname).trans_le <|
      le_many (fun _ _ _ => testClause_lt) next
  split at h
  · cases h; exact hclauses
  · cases h; exact hclauses

theorem suiteItem_lt {i : SuiteItem} (h : suiteItem c = some (i, d)) : c < d := by
  refine (le_layout c).trans_lt ?_
  simp only [suiteItem] at h
  split at h
  · next hmock => cases h; exact mock_lt hmock
  · split at h
    · next htest => cases h; exact test_lt htest
    · next htest => cases h; exact test_lt htest
    · cases h

theorem suite_lt {v : Spanned TestSuite} {rs : List SyntaxReport} (h : suite c = some (v, rs, d)) :
    c < d := by
  simp only [suite, bind, Option.bind_eq_some_iff] at h
  obtain ⟨word, hword, ⟨name, next⟩, hname, heq⟩ := h
  cases heq
  exact (spacedWord_lt (by decide) hword).trans <| (quotedText_lt hname).trans_le <|
    le_many (fun _ _ _ => suiteItem_lt) next

/-! ## Documents -/

theorem declaration_cases {i : Item} (h : declaration c = some (i, d)) :
    (∃ v rs, i = .config v rs ∧ config c = some (v, rs, d)) ∨
    (∃ v rs, i = .pipeline v rs ∧ namedPipeline c = some (v, rs, d)) ∨
    (∃ v, i = .typedVariable v ∧ typedVariable c = some (v, d)) ∨
    (∃ v rs, i = .route v rs ∧ route c = some (v, rs, d)) ∨
    ∃ v rs, i = .suite v rs ∧ suite c = some (v, rs, d) := by
  simp only [declaration, Option.or_eq_some_iff, Option.map_eq_some_iff, Prod.exists,
    Prod.mk.injEq] at h
  grind

theorem declaration_lt {i : Item} (h : declaration c = some (i, d)) : c < d := by
  rcases declaration_cases h with
      ⟨_, _, -, h⟩ | ⟨_, _, -, h⟩ | ⟨_, -, h⟩ | ⟨_, _, -, h⟩ | ⟨_, _, -, h⟩
  · exact config_lt h
  · exact namedPipeline_lt h
  · exact typedVariable_lt h
  · exact route_lt h
  · exact suite_lt h

/-- What an item is: a declaration behind the layout, or the line there if none starts with it. -/
theorem item_cases {i : Item} (h : item c = some (i, d)) :
    c.layout.atEnd = false ∧
      (declaration c.layout = some (i, d) ∨
        declaration c.layout = none ∧ (i, d) = unrecognizedLine c.layout) := by
  simp only [item] at h
  split at h
  · cases h
  · next hend =>
    refine ⟨by simpa using hend, ?_⟩
    split at h
    · next hread => exact Or.inl (hread.trans h)
    · next hnone => exact Or.inr ⟨hnone, (Option.some.inj h).symm⟩

theorem item_of_declaration {i : Item} (h : declaration c.layout = some (i, d)) :
    item c = some (i, d) := by
  have hend : c.layout.atEnd = false :=
    List.isEmpty_eq_false_iff.2 fun hrest => not_lt_of_rest_nil hrest (declaration_lt h)
  rw [item, hend, h]
  rfl

theorem item_of_line (hrest : c.layout.rest ≠ []) (h : declaration c.layout = none) :
    item c = some (unrecognizedLine c.layout) := by
  have hend : c.layout.atEnd = false := List.isEmpty_eq_false_iff.2 hrest
  rw [item, hend, h]
  rfl

/-- The line at a cursor behind layout is not empty. -/
theorem layout_lt_lineEnd (h : c.layout.atEnd = false) : c.layout < c.layout.lineEnd := by
  obtain ⟨-, -, -, -, hstop⟩ := layout_spec c
  cases hrest : c.layout.rest with
  | nil => simp [atEnd, hrest] at h
  | cons x xs =>
    refine lt_lineEnd hrest ?_
    rintro rfl
    exact absurd (hstop '\n' (by rw [hrest]; rfl)).1 (by decide)

/-- **Progress.** Every item of a document moves the cursor strictly forward. -/
theorem item_lt {i : Item} (h : item c = some (i, d)) : c < d := by
  obtain ⟨hend, hread | ⟨-, hline⟩⟩ := item_cases h
  · exact (le_layout c).trans_lt (declaration_lt hread)
  · cases hline; exact (le_layout c).trans_lt (layout_lt_lineEnd hend)

end PipelineLang.Grammar
