import PipelineLang.Proofs.Grammar.Movement
import PipelineLang.Proofs.Grammar.Returned

/-!
# Blocks across line ends

Configurations, pipelines and declarations are read alike where the text has carriage returns. The
words that decide between productions, and the names that reports quote, do not run over the end of
a line, so they are the same.
-/

namespace PipelineLang.Grammar

open Cursor Lines Returned

variable {c c' d : Cursor} {t : Token}

/-! ## Configurations -/

instance : Returned ConfigLine :=
  ⟨fun l l' => Alike l.property? l'.property? ∧ Alike l.report? l'.report?⟩

theorem configWord_returned (h : Abreast c c') : Alike (configWord c) (configWord c') :=
  h.takeSome rfl rfl

theorem configWord_line (h : configWord c = some (t, d)) : '\n' ∉ t.text.toList := by
  simp only [configWord] at h
  split at h
  · cases h
  · cases h
    exact text_takeWhile_line rfl

/-- A word of a line stands for a value without line ends. -/
theorem valueOfWord_retext {word : String} (h : '\n' ∉ word.toList) :
    (valueOfWord word).retext returned = valueOfWord word := by
  unfold valueOfWord
  split
  · rfl
  · split
    · rfl
    · split
      · rfl
      · rw [ConfigValue.retext, returned_of_not_mem h]

theorem fallback_returned (h : Abreast c c') : Alike (fallback c) (fallback c') := by
  refine (h.blanks.chars rfl).bind_cursor fun bars bars' hbars => ?_
  have hvalue := hbars.blanks
  simp only [hvalue.peek_eq_some_iff (x := '"') rfl]
  split
  · exact hvalue.quotedText
  · exact configWord_returned hvalue

theorem configValue_returned (h : Abreast c c') : Alike (configValue c) (configValue c') := by
  -- a value that starts with neither `$` nor a quote is a word, also at the end of a line
  have hword : Alike (configWord c >>= fun r => some (valueOfWord r.1.text, r.2))
      (configWord c' >>= fun r => some (valueOfWord r.1.text, r.2)) := by
    refine (configWord_returned h).bind fun r r' hread hr => ?_
    have hline := configWord_line hread
    refine Alike.some ⟨?_, hr.2⟩
    rw [hr.1, returned_of_not_mem hline]
    exact (valueOfWord_retext hline).symm
  rw [configValue, configValue]
  rcases h.peek_cases with heq | ⟨hpeek, hpeek'⟩
  · rw [heq]
    split
    · refine (h.char rfl).bind_cursor fun dollar dollar' hdollar => ?_
      refine hdollar.identifier.bind_read fun name name' next next' hname hnext => ?_
      rcases (fallback_returned hnext).cases with
        ⟨hx, hx'⟩ | ⟨⟨value, last⟩, ⟨value', last'⟩, hx, hx', hvalue, hlast⟩
      · simp only [hx, hx']
        exact Alike.some ⟨congrArg (ConfigValue.environment · none) hname, hnext⟩
      · simp only [hx, hx']
        exact Alike.some ⟨congrArg₂ (ConfigValue.environment · <| some ·) hname hvalue, hlast⟩
    · refine h.quotedText.bind_read fun value value' next next' hvalue hnext => ?_
      exact Alike.some ⟨congrArg ConfigValue.text hvalue, hnext⟩
    · exact hword
  · rw [hpeek, hpeek']
    exact hword

theorem atPropertyEnd_returned (h : Abreast c c') : atPropertyEnd c' = atPropertyEnd c :=
  h.blanks.peek_all rfl

theorem propertyKey_returned (h : Abreast c c') : Alike (propertyKey c) (propertyKey c') := by
  refine h.identifier.bind_read fun key key' next next' hkey hnext => ?_
  refine (hnext.blanks_char rfl).bind_cursor fun colon colon' hcolon => ?_
  exact Alike.some ⟨hkey, hcolon⟩

theorem propertyKey_line (h : propertyKey c = some (t, d)) : '\n' ∉ t.text.toList := by
  simp only [propertyKey, bind, Option.bind_eq_some_iff] at h
  obtain ⟨⟨key, next⟩, hkey, colon, -, heq⟩ := h
  cases heq
  exact identifier_line hkey

theorem property_returned (h : Abreast c c') : Alike (property c) (property c') := by
  refine (propertyKey_returned h).bind_read fun key key' colon colon' hkey hcolon => ?_
  refine (configValue_returned hcolon.blanks).bind_read
    fun value value' next next' hvalue hnext => ?_
  simp only [atPropertyEnd_returned hnext]
  split
  · exact Alike.some ⟨congrArg₂ ConfigProperty.mk hkey hvalue, hnext⟩
  · exact Alike.none

theorem faultyProperty_returned (h : Abreast c c') :
    Alike (faultyProperty c) (faultyProperty c') := by
  refine (propertyKey_returned h).bind fun (key, colon) (key', colon') hread ⟨hkey, _⟩ => ?_
  have hsame : key'.text = key.text := hkey.trans (returned_of_not_mem (propertyKey_line hread))
  exact Alike.some ⟨congrArg SyntaxFault.invalidProperty hsame, h.lineEnd⟩

theorem configLine_returned (h : Abreast c c') : Alike (configLine c) (configLine c') := by
  have hlayout : Abreast c.layout c'.layout := Or.inl h.layout
  rw [configLine, configLine]
  rcases (property_returned hlayout).cases with
    ⟨hx, hx'⟩ | ⟨⟨p, next⟩, ⟨p', next'⟩, hx, hx', hp, hnext⟩
  · simp only [hx, hx']
    exact (faultyProperty_returned hlayout).map fun r r' hr =>
      ⟨⟨Alike.none, Alike.some hr.1⟩, hr.2⟩
  · simp only [hx, hx']
    exact Alike.some ⟨⟨Alike.some hp, Alike.none⟩, hnext⟩

theorem config_returned (h : Abreast c c') : Alike (config c) (config c') := by
  refine (h.keyword rfl).bind_cursor fun word word' hword => ?_
  refine hword.someBlanks.bind_cursor fun blank blank' hblank => ?_
  refine hblank.identifier.bind fun (name, next) (name', next') hread ⟨hname, hnext⟩ => ?_
  have hsame : name'.text = name.text := hname.trans (returned_of_not_mem (identifier_line hread))
  refine (Abreast.blanks_char hnext rfl).bind_cursor fun inside inside' hinside => ?_
  obtain ⟨hlines, hlast⟩ := hinside.many (fun _ _ _ => configLine_lt) fun _ _ => configLine_returned
  have hproperties := Alike.list_eq_map <|
    Alike.filterMap (g := ConfigLine.property?) (k := ConfigLine.property?) (fun _ _ => And.left)
      hlines
  have hreports := Alike.filterMap (g := ConfigLine.report?) (k := ConfigLine.report?)
    (fun _ _ => And.right) hlines
  have hvalue := congrArg₂ Config.mk hname hproperties
  have hclose := Abreast.char (x := '\x7d') (Or.inl (Abreast.layout hlast)) rfl
  rcases hclose.cases with ⟨hx, hx'⟩ | ⟨close, close', hx, hx', hclosed⟩
  · simp only [hx, hx']
    refine Alike.some ⟨hvalue, hreports.append (Alike.report ?_), hlast⟩
    exact congrArg SyntaxFault.unclosedConfig hsame
  · simp only [hx, hx']
    exact Alike.some ⟨hvalue, hreports, hclosed⟩

/-! ## Pipelines -/

theorem payload_returned (h : Abreast c c') : Alike (payload c) (payload c') := by
  have hname : Alike
      (c.identifier >>= fun r =>
        if r.2.atTokenEnd then some (Payload.identifier r.1.text, r.1.span, r.2) else none)
      (c'.identifier >>= fun r =>
        if r.2.atTokenEnd then some (Payload.identifier r.1.text, r.1.span, r.2) else none) := by
    refine h.identifier.bind_read fun name name' next next' hname hnext => ?_
    simp only [hnext.atTokenEnd]
    split
    · exact Alike.some ⟨congrArg Payload.identifier hname, trivial, hnext⟩
    · exact Alike.none
  rw [payload, payload]
  rcases h.peek_cases with heq | ⟨hpeek, hpeek'⟩
  · rw [heq]
    split
    · split
      · exact h.backtickText.map fun r r' hr => ⟨congrArg Payload.backtick hr.1, trivial, hr.2⟩
      · split
        · exact h.quotedText.map fun r r' hr => ⟨congrArg Payload.quoted hr.1, trivial, hr.2⟩
        · exact hname
    · exact Alike.none
  · rw [hpeek, hpeek']
    exact hname

theorem call_returned (h : Abreast c c') (start start' : Nat) :
    Alike (call start c) (call start' c') := by
  refine h.identifier.bind_read fun name name' next next' hname hnext => ?_
  refine (hnext.blanks_char rfl).bind_cursor fun colon colon' hcolon => ?_
  refine (payload_returned hcolon.blanks).bind ?_
  rintro ⟨value, span, last⟩ ⟨value', span', last'⟩ - ⟨hvalue, -, hlast⟩
  exact Alike.some ⟨congrArg₂ (Step.call ⟨0, 0⟩ · · ⟨0, 0⟩) hname hvalue, hlast⟩

theorem resultWord_returned (h : Abreast c c') : Alike (resultWord c) (resultWord c') := by
  refine (h.keyword rfl).bind_cursor fun next next' hnext => ?_
  simp only [hnext.blanks.peek_eq_some_iff (x := ':') rfl]
  split
  · exact Alike.none
  · exact Alike.some hnext

theorem ofLabel_returned (label : String) :
    Outcome.ofLabel (returned label) = (Outcome.ofLabel label).retext returned := by
  unfold Outcome.ofLabel
  simp only [returned_eq_iff (w := "ok") (by decide),
    returned_eq_iff (w := "default") (by decide)]
  split
  · rfl
  · split <;> rfl

theorem branchHead_returned (h : Abreast c c') : Alike (branchHead c) (branchHead c') := by
  refine h.identifier.bind_read fun label label' next next' hlabel hnext => ?_
  refine (hnext.blanks_char rfl).bind_cursor fun opening opening' hopening => ?_
  have hdigits := hopening.blanks.takeWhile (p := Char.isDigit) rfl rfl
  simp only [isEmpty_span_takeWhile, hopening.blanks.takeWhile_rest (p := Char.isDigit) rfl rfl]
  split
  · exact Alike.none
  · refine (Abreast.blanks_char hdigits.2 rfl).bind_cursor fun closing closing' hclosing => ?_
    refine (hclosing.blanks_char rfl).bind_cursor fun colon colon' hcolon => ?_
    exact Alike.some ⟨⟨hlabel, hdigits.1⟩, hcolon⟩

theorem branchHead_line {label digits : Token} (h : branchHead c = some ((label, digits), d)) :
    '\n' ∉ digits.text.toList := by
  simp only [branchHead, bind, Option.bind_eq_some_iff] at h
  obtain ⟨⟨label, next⟩, -, opening, -, h⟩ := h
  split at h
  · cases h
  · simp only [Option.bind_eq_some_iff] at h
    obtain ⟨closing, -, colon, -, heq⟩ := h
    cases heq
    exact text_takeWhile_line rfl

/-- A reader of pipelines that finds the same across line ends. -/
def Returns (read : PipelineReader) : Prop := ∀ c c', Abreast c c' → Alike (read c) (read c')

theorem steps_returned {ss ss' : List Step} (h : Alike ss ss') :
    Step.unplacedAll ss' = Step.unplacedAll (Step.retextAll returned ss) := by
  rw [Step.unplacedAll_eq_map, Step.unplacedAll_eq_map, Step.retextAll_eq_map, List.map_map]
  exact Alike.list_map_eq_map h

theorem branches_returned {bs bs' : List Branch} (h : Alike bs bs') :
    Branch.unplacedAll bs' = Branch.unplacedAll (Branch.retextAll returned bs) := by
  rw [Branch.unplacedAll_eq_map, Branch.unplacedAll_eq_map, Branch.retextAll_eq_map, List.map_map]
  exact Alike.list_map_eq_map h

theorem statusReports_returned (status : Nat) (s s' : Span) :
    Alike (statusReports status s) (statusReports status s') := by
  rw [statusReports, statusReports]
  split
  · exact Alike.nil
  · exact Alike.report rfl

theorem branch_returned {inner : Nat → PipelineReader} (hinner : ∀ label, Returns (inner label))
    (h : Level c c') : Alike (branch inner c) (branch inner c') := by
  rw [branch_eq, branch_eq, h.column]
  rcases (branchHead_returned (Or.inl h)).cases with ⟨hx, hx'⟩ |
    ⟨⟨⟨label, digits⟩, colon⟩, ⟨⟨label', digits'⟩, colon'⟩, hx, hx', ⟨hlabel, hdigits⟩, hcolon⟩
  · rw [hx, hx']
    exact Alike.none
  · obtain ⟨hsteps, hreports, hlast⟩ := hinner c.column colon colon' hcolon
    have hstatus : digits'.text = digits.text :=
      hdigits.trans (returned_of_not_mem (branchHead_line hx))
    rw [hx, hx', Option.map_some, Option.map_some]
    simp only [branchFrom, hstatus]
    refine Alike.some ⟨⟨?_, (statusReports_returned _ _ _).append hreports⟩, hlast⟩
    show Branch.unplaced _ = Branch.unplaced (Branch.retext returned _)
    rw [Branch.retext, Branch.unplaced, Branch.unplaced, steps_returned hsteps, hlabel,
      ofLabel_returned]

theorem isRightOf_returned {label : Option Nat} (h : Level c c') :
    isRightOf label c' = isRightOf label c := by
  rw [isRightOf, isRightOf, h.column]

theorem ownedBranch_returned {inner : Nat → PipelineReader}
    (hinner : ∀ label, Returns (inner label)) (label : Option Nat) (h : Abreast c c') :
    Alike (ownedBranch inner label c) (ownedBranch inner label c') := by
  simp only [ownedBranch, isRightOf_returned h.layout]
  split
  · exact branch_returned hinner h.layout
  · exact Alike.none

theorem choice_returned {inner : Option (Nat → PipelineReader)}
    (honward : ∀ read ∈ inner, ∀ label, Onward (read label))
    (hinner : ∀ read ∈ inner, ∀ label, Returns (read label)) (label : Option Nat)
    (start start' : Nat) (h : Abreast c c') :
    Alike (choice inner label start c) (choice inner label start' c') := by
  cases inner with
  | none => exact ⟨⟨rfl, Alike.report rfl⟩, h.lineEnd⟩
  | some read =>
    obtain ⟨hitems, hlast⟩ := h.many (fun _ _ _ => ownedBranch_lt (honward read rfl))
      fun _ _ => ownedBranch_returned (hinner read rfl) label
    have hbranches := branches_returned (Alike.mapList (g := (·.1)) (k := (·.1))
      (fun _ _ => And.left) hitems)
    refine ⟨⟨?_, Alike.flatMap (fun _ _ => And.right) hitems⟩, hlast⟩
    show Step.unplaced (.result _ _) = Step.unplaced (Step.retext returned (.result _ _))
    rw [Step.retext, Step.unplaced, Step.unplaced, hbranches]

theorem step_returned {inner : Option (Nat → PipelineReader)}
    (honward : ∀ read ∈ inner, ∀ label, Onward (read label))
    (hinner : ∀ read ∈ inner, ∀ label, Returns (read label)) (label : Option Nat)
    (h : Abreast c c') : Alike (step inner label c) (step inner label c') := by
  refine (h.chars rfl).bind_cursor fun arrow arrow' harrow => ?_
  rcases (resultWord_returned harrow.blanks).cases with
    ⟨hx, hx'⟩ | ⟨behind, behind', hx, hx', hbehind⟩
  · simp only [hx, hx']
    exact (call_returned harrow.blanks _ _).map fun r r' hr => ⟨⟨hr.1, Alike.nil⟩, hr.2⟩
  · simp only [hx, hx']
    exact Alike.some (choice_returned honward hinner label _ _ hbehind)

theorem ownedStep_returned {inner : Option (Nat → PipelineReader)}
    (honward : ∀ read ∈ inner, ∀ label, Onward (read label))
    (hinner : ∀ read ∈ inner, ∀ label, Returns (read label)) (label : Option Nat)
    (h : Abreast c c') : Alike (ownedStep inner label c) (ownedStep inner label c') := by
  simp only [ownedStep, isRightOf_returned h.layout]
  split
  · exact step_returned honward hinner label (Or.inl h.layout)
  · exact Alike.none

theorem returns_steps {inner : Option (Nat → PipelineReader)}
    (honward : ∀ read ∈ inner, ∀ label, Onward (read label))
    (hinner : ∀ read ∈ inner, ∀ label, Returns (read label)) (label : Option Nat) :
    Returns (steps inner label) := by
  intro c c' h
  obtain ⟨hitems, hlast⟩ := h.many (fun _ _ _ => ownedStep_lt honward)
    fun _ _ => ownedStep_returned honward hinner label
  exact ⟨Alike.mapList (fun _ _ => And.left) hitems,
    Alike.flatMap (fun _ _ => And.right) hitems, hlast⟩

theorem returns_branchSteps (levels label : Nat) : Returns (branchSteps levels label) := by
  induction levels generalizing label with
  | zero =>
    refine returns_steps ?_ ?_ (some label)
    · rintro read ⟨⟩
    · rintro read ⟨⟩
  | succ levels ih =>
    refine returns_steps ?_ ?_ (some label)
    · rintro read ⟨⟩
      exact onward_branchSteps levels
    · rintro read ⟨⟩
      exact ih

/-- A pipeline is read alike across line ends, however deep its branches nest. -/
theorem returns_pipeline : Returns pipeline := by
  refine returns_steps ?_ ?_ none
  · rintro read ⟨⟩
    exact onward_branchSteps (maxNesting - 1)
  · rintro read ⟨⟩
    exact returns_branchSteps (maxNesting - 1)

/-! ## Declarations -/

theorem declaredName_returned (h : Abreast c c') : Alike (declaredName c) (declaredName c') := by
  refine h.someBlanks.bind_cursor fun blank blank' hblank => ?_
  refine hblank.identifier.bind_read fun name name' next next' hname hnext => ?_
  refine (hnext.blanks_char rfl).bind_cursor fun equals equals' hequals => ?_
  exact Alike.some ⟨hname, hequals⟩

theorem namedPipeline_returned (h : Abreast c c') :
    Alike (namedPipeline c) (namedPipeline c') := by
  refine (h.keyword rfl).bind_cursor fun word word' hword => ?_
  refine (declaredName_returned hword).bind_read fun name name' equals equals' hname hequals => ?_
  obtain ⟨hsteps, hreports, hlast⟩ := returns_pipeline equals equals' hequals
  refine Alike.some ⟨?_, hreports, hlast⟩
  exact congrArg₂ (NamedPipeline.mk · ⟨0, 0⟩ ·) hname (steps_returned hsteps)

/-- Whether a text is one of some words of a line does not depend on the line ends in it. -/
theorem contains_returned {words : List String} (hwords : ∀ w ∈ words, '\n' ∉ w.toList)
    (s : String) : words.contains (returned s) = words.contains s := by
  induction words with
  | nil => rfl
  | cons w ws ih =>
    have hw : (returned s == w) = (s == w) := by
      rw [Bool.eq_iff_iff, beq_iff_eq, beq_iff_eq, returned_eq_iff (hwords w List.mem_cons_self)]
    rw [List.contains_cons, List.contains_cons, hw,
      ih fun v hv => hwords v (List.mem_cons_of_mem w hv)]

theorem typedVariable_returned (h : Abreast c c') :
    Alike (typedVariable c) (typedVariable c') := by
  refine h.identifier.bind_read fun kind kind' next next' hkind hnext => ?_
  have hreserved : reservedTypes.contains kind'.text = reservedTypes.contains kind.text := by
    rw [hkind, contains_returned (by decide)]
  simp only [hreserved]
  split
  · exact Alike.none
  · refine (declaredName_returned hnext).bind_read fun name name' equals equals' hname hequals => ?_
    have hlayout : Abreast equals.layout equals'.layout := Or.inl hequals.layout
    refine hlayout.backtickText.bind_read fun value value' last last' hvalue hlast => ?_
    refine Alike.some ⟨?_, hlast⟩
    show Variable.mk kind'.text name'.text _ value'.text _ = Variable.mk _ _ _ _ _
    rw [hkind, hname, hvalue]
    rfl

theorem method_returned (h : Abreast c c') : Alike (method c) (method c') := by
  refine h.identifier.bind_read fun word word' next next' hword hnext => ?_
  have hmethod : methods.contains word'.text = methods.contains word.text := by
    rw [hword, contains_returned (by decide)]
  simp only [hmethod]
  split
  · exact Alike.some ⟨hword, hnext⟩
  · exact Alike.none

/-! ## Routes -/

theorem routeBody_unplaced (ss : List Step) :
    routeBody (Step.unplacedAll ss) = (routeBody ss).unplaced := by
  rw [Step.unplacedAll_eq_map]
  refine routeBody_map (fun ss => by rw [RouteBody.unplaced, Step.unplacedAll_eq_map])
    (fun s => ?_) ss
  cases s with
  | call span word payload payloadSpan =>
    cases payload with
    | identifier name =>
      simp only [Step.unplaced, routeBody]
      split <;> rfl
    | backtick text => rfl
    | quoted text => rfl
  | result span branches => rfl

theorem routeBody_retext (ss : List Step) :
    routeBody (Step.retextAll returned ss) = (routeBody ss).retext returned := by
  rw [Step.retextAll_eq_map]
  refine routeBody_map (fun ss => by rw [RouteBody.retext, Step.retextAll_eq_map])
    (fun s => ?_) ss
  cases s with
  | call span word payload payloadSpan =>
    cases payload with
    | identifier name =>
      simp only [Step.retext, Payload.retext, routeBody,
        returned_eq_iff (w := "pipeline") (by decide)]
      split <;> rfl
    | backtick text => rfl
    | quoted text => rfl
  | result span branches => rfl

theorem route_returned (h : Abreast c c') : Alike (route c) (route c') := by
  refine (method_returned h).bind_read fun word word' next next' hword hnext => ?_
  refine hnext.someBlanks.bind_cursor fun pathStart pathStart' hpathStart => ?_
  simp only [hpathStart.peek_eq_some_iff (x := '/') rfl]
  split
  · refine hpathStart.bareToken.bind_read fun path path' behind behind' hpath hbehind => ?_
    obtain ⟨hsteps, hreports, hlast⟩ := returns_pipeline behind behind' hbehind
    refine Alike.some ⟨?_, hreports, hlast⟩
    have hbody := congrArg routeBody (steps_returned hsteps)
    rw [routeBody_unplaced, routeBody_unplaced, routeBody_retext] at hbody
    show Route.mk word'.text path'.text _ = Route.mk _ _ _
    rw [hword, hpath, hbody]
    rfl
  · exact Alike.none

end PipelineLang.Grammar
