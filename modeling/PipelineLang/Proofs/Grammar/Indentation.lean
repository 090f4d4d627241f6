import PipelineLang.Proofs.Grammar.Backticks
import PipelineLang.Proofs.Grammar.Movement
import PipelineLang.Proofs.Grammar.Reading

/-!
# Indentation recovers the tree

Where the text of a tree of steps stands, reading finds the tree again, whatever its places
(`parse_written`). Each line is claimed by the innermost branch that it stands right of: behind a
step the next line is not right of that step's column, and behind a branch not right of its label
(`NextLine`), so every reader further in stops there and leaves the line to its owner.
-/

namespace PipelineLang.Grammar

open Cursor

variable {c d : Cursor} {rest : List Char}

/-! ## Payloads and calls -/

theorem payload_written {p : Payload} (h : c.rest = p.written ++ rest) (hp : p.IsWritable)
    (hrest : ∀ x ∈ rest.head?, Blank.isLayout x = true) :
    ∃ span d, payload c = some (p, span, d) ∧ d.rest = rest := by
  cases p with
  | backtick text =>
    rw [Payload.written, List.cons_append, List.append_assoc] at h
    obtain ⟨t, d, hread, htext, hd⟩ := backtickText_append h hp
    rw [payload, peek, h]
    simp only [List.head?_cons, if_true, hread, htext, String.ofList_toList, Option.map_some]
    exact ⟨_, _, rfl, hd⟩
  | quoted text =>
    obtain ⟨t, d, hread, rfl, hd⟩ := quotedText_written hp h
    have htick : '"' ≠ tick := by decide
    rw [payload, peek, h, Payload.written, List.cons_append]
    simp only [List.head?_cons, if_neg htick, if_true, hread, Option.map_some]
    exact ⟨_, _, rfl, hd⟩
  | identifier name =>
    obtain ⟨x, xs, hname, hx⟩ := IsIdentifier.head hp
    obtain ⟨t, d, hread, htext, hd⟩ := identifier_append h hp fun y hy =>
      isIdentChar_of_isLayout (hrest y hy)
    have hend : d.atTokenEnd = true := by
      rw [atTokenEnd, peek, hd, Option.all_eq_true]
      exact fun y hy => isAscii_of_isLayout (hrest y hy)
    rw [payload, peek, h, Payload.written, hname, List.cons_append, List.head?_cons]
    simp only [if_neg (ne_of_isIdentStart hx (y := tick) rfl),
      if_neg (ne_of_isIdentStart hx (y := '"') rfl), bind, hread, Option.bind_some,
      hend, if_true, htext]
    exact ⟨_, _, rfl, hd⟩

theorem call_written (start : Nat) {name : String} {p : Payload} (hname : IsIdentifier name)
    (hp : p.IsWritable) (hrest : ∀ x ∈ rest.head?, Blank.isLayout x = true)
    (h : c.rest = name.toList ++ ':' :: ' ' :: (p.written ++ rest)) :
    ∃ span payloadSpan d, call start c = some (.call span name p payloadSpan, d) ∧
      d.rest = rest := by
  obtain ⟨t, next, hread, htext, hnext⟩ := identifier_append h hname (by rintro y ⟨⟩; rfl)
  obtain ⟨colon, hcolon, hvalue⟩ := blanks_char_cons hnext rfl
  obtain ⟨x, xs, hwritten, hx⟩ := Payload.written_head hp
  rw [hwritten, List.cons_append] at hvalue
  have hblanks := blanks_space hvalue hx
  rw [← List.cons_append, ← hwritten] at hblanks
  obtain ⟨span, d, hpayload, hd⟩ := payload_written hblanks hp hrest
  rw [call, hread]
  simp only [bind, Option.bind_some, hcolon, hpayload, htext]
  exact ⟨_, _, _, rfl, hd⟩

/-- Before a colon a name is the name of a middleware, be it `result`. -/
theorem resultWord_written {name : String} (hname : IsIdentifier name)
    (h : c.rest = name.toList ++ ':' :: rest) : resultWord c = none := by
  have hhead : ∀ y ∈ (':' :: rest).head?, isIdentChar y = false := by
    rintro y ⟨⟩
    rfl
  rcases eq_or_ne name "result" with rfl | hne
  · obtain ⟨next, hnext, hbehind⟩ := keyword_append h hhead
    have hcolon : next.blanks.rest = ':' :: rest := blanks_cons hbehind rfl
    simp only [resultWord, bind, hnext, Option.bind_some, peek, hcolon, List.head?_cons, if_true]
  · have hword : IsIdentifier "result" := by decide
    have hnone : c.keyword "result".toList = none :=
      keyword_eq_none hword h hname.2 hhead fun heq => hne (String.toList_injective heq)
    rw [resultWord, hnone]
    rfl

/-! ## The line behind -/

/-- There is nothing but layout, or one more line, whose column and first character satisfy `p`. -/
def NextLine (p : Nat → Char → Prop) (text : List Char) : Prop :=
  (∀ x ∈ text, Blank.isLayout x = true) ∨
    ∃ column x content, text = writtenLine column (x :: content) ∧
      (Blank.isLayout x = false ∧ x ≠ '#') ∧ p column x

theorem NextLine.mono {p q : Nat → Char → Prop} (h : NextLine p rest)
    (hpq : ∀ column x, p column x → q column x) : NextLine q rest :=
  h.imp_right fun ⟨column, x, content, htext, hx, hp⟩ =>
    ⟨column, x, content, htext, hx, hpq column x hp⟩

theorem NextLine.head {p : Nat → Char → Prop} (h : NextLine p rest) :
    ∀ x ∈ rest.head?, Blank.isLayout x = true := by
  rcases h with h | ⟨column, y, content, rfl, -, -⟩
  · exact fun x hx => h x (List.mem_of_head? hx)
  · rintro x ⟨⟩
    rfl

theorem NextLine.layout {p : Nat → Char → Prop} (h : NextLine p c.rest) :
    c.layout.rest = [] ∨ ∃ x xs, c.layout.rest = x :: xs ∧ p c.layout.column x := by
  rcases h with h | ⟨column, x, content, htext, hx, hp⟩
  · exact Or.inl (layout_blank h)
  · rw [← List.append_nil (writtenLine column (x :: content))] at htext
    obtain ⟨hrest, hcolumn⟩ := layout_writtenLine htext hx
    exact Or.inr ⟨x, _, hrest, hcolumn ▸ hp⟩

/-- A list of steps starts with an arrow in their column. -/
theorem NextLine.steps {p : Nat → Char → Prop} {column : Nat} (h : NextLine p rest)
    (hp : p column '|') (width : Nat) (ss : List Step) :
    NextLine p (Step.writtenAll width column ss ++ rest) := by
  cases ss with
  | nil => exact h
  | cons s ss =>
    obtain ⟨content, hs⟩ := Step.written_head width column s
    rw [Step.writtenAll, hs, writtenLine_append, writtenLine_append,
      List.cons_append, List.cons_append]
    exact Or.inr ⟨column, '|', _, rfl, ⟨rfl, by decide⟩, hp⟩

/-- A list of branches starts with a label in their column. -/
theorem NextLine.branches {p : Nat → Char → Prop} {enclosing column : Nat} (h : NextLine p rest)
    (hp : ∀ x, p column x) (width : Nat) {bs : List Branch}
    (hbs : Branch.AllWritable enclosing bs) :
    NextLine p (Branch.writtenAll width column bs ++ rest) := by
  cases bs with
  | nil => exact h
  | cons b bs =>
    obtain ⟨x, content, hb, hx⟩ := Branch.written_head hbs.1 width column
    rw [Branch.writtenAll, hb, writtenLine_append, writtenLine_append, List.cons_append,
      List.cons_append]
    exact Or.inr ⟨column, x, _, rfl, not_layout_of_isIdentStart hx, hp x⟩

/-- No colon follows on the line. -/
theorem NextLine.colon {p : Nat → Char → Prop} (h : NextLine p c.rest) :
    c.blanks.peek ≠ some ':' := by
  rcases h with h | ⟨column, x, content, htext, -, -⟩
  · intro hpeek
    have hmem := (rest_suffix (le_blanks c)).subset (List.mem_of_head? hpeek)
    exact absurd (h ':' hmem) (by decide)
  · have hblanks : c.blanks.rest = writtenLine column (x :: content) :=
      blanks_cons htext rfl
    rw [peek, hblanks]
    exact fun hpeek => absurd (Option.some.inj hpeek) (by decide)

/-- At the end of its line the word `result` opens branches. -/
theorem resultWord_line {p : Nat → Char → Prop} (hrest : NextLine p rest)
    (h : c.rest = "result".toList ++ rest) : ∃ d, resultWord c = some d ∧ d.rest = rest := by
  obtain ⟨d, hd, hend⟩ := keyword_append h fun x hx => isIdentChar_of_isLayout (hrest.head x hx)
  have hcolon : d.blanks.peek ≠ some ':' := NextLine.colon (hend ▸ hrest)
  exact ⟨d, by simp only [resultWord, bind, hd, Option.bind_some, if_neg hcolon], hend⟩

theorem ownedStep_stops {inner : Option (Nat → PipelineReader)} {label : Option Nat}
    (h : NextLine (fun column _ => label.all (· < column) = false) c.rest) :
    ownedStep inner label c = none := by
  rw [ownedStep]
  rcases h.layout with hrest | ⟨x, xs, -, hright⟩
  · simp only [step, chars, char, bind, hrest, Option.bind_none, ite_self]
  · rw [isRightOf, hright]
    rfl

theorem ownedBranch_stops {inner : Nat → PipelineReader} {label : Option Nat}
    (h : NextLine (fun column x => label.all (· < column) = false ∨ x = '|') c.rest) :
    ownedBranch inner label c = none := by
  rw [ownedBranch]
  rcases h.layout with hrest | ⟨x, xs, hrest, hright | rfl⟩
  · simp only [branch, identifier, bind, hrest, Option.bind_none, ite_self]
  · rw [isRightOf, hright]
    rfl
  · have hname : c.layout.identifier = none := by
      rw [identifier_eq, peek, hrest]
      rfl
    simp only [branch, bind, hname, Option.bind_none, ite_self]

/-! ## Steps and labels -/

theorem ownedStep_line (inner : Option (Nat → PipelineReader)) {label : Option Nat} {column : Nat}
    {x : Char} {content : List Char} (hx : Blank.isLayout x = false ∧ x ≠ '#')
    (hright : label.all (· < column) = true)
    (h : c.rest = writtenLine column (x :: content) ++ rest) :
    ownedStep inner label c = step inner label c.layout ∧
      c.layout.rest = x :: (content ++ rest) := by
  obtain ⟨hrest, hcolumn⟩ := layout_writtenLine h hx
  refine ⟨?_, hrest⟩
  rw [ownedStep, isRightOf, hcolumn, if_pos hright]

theorem ownedBranch_line (inner : Nat → PipelineReader) {label : Option Nat} {column : Nat}
    {x : Char} {content : List Char} (hx : Blank.isLayout x = false ∧ x ≠ '#')
    (hright : label.all (· < column) = true)
    (h : c.rest = writtenLine column (x :: content) ++ rest) :
    ownedBranch inner label c = branch inner c.layout ∧ c.layout.rest = x :: (content ++ rest) ∧
      c.layout.column = column := by
  obtain ⟨hrest, hcolumn⟩ := layout_writtenLine h hx
  refine ⟨?_, hrest, hcolumn⟩
  rw [ownedBranch, isRightOf, hcolumn, if_pos hright]

/-- Reading the arrow with the blank behind it. -/
theorem arrow_written {x : Char} (hx : Blank.isInline x = false)
    (h : c.rest = '|' :: '>' :: ' ' :: x :: rest) :
    ∃ arrow, c.chars ['|', '>'] = some arrow ∧ arrow.blanks.rest = x :: rest := by
  obtain ⟨arrow, harrow, hend⟩ : ∃ arrow, c.chars ['|', '>'] = some arrow ∧ _ := chars_append h
  exact ⟨arrow, harrow, blanks_space hend hx⟩

theorem step_call {inner : Option (Nat → PipelineReader)} {label : Option Nat} {name : String}
    {p : Payload} (hname : IsIdentifier name) (hp : p.IsWritable)
    (hrest : ∀ x ∈ rest.head?, Blank.isLayout x = true)
    (h : c.rest = '|' :: '>' :: ' ' :: (name.toList ++ ':' :: ' ' :: (p.written ++ rest))) :
    ∃ span payloadSpan d,
      step inner label c = some ((.call span name p payloadSpan, []), d) ∧ d.rest = rest := by
  obtain ⟨x, xs, hcs, hx⟩ := hname.head
  rw [hcs, List.cons_append] at h
  obtain ⟨arrow, harrow, hend⟩ :=
    arrow_written (isInline_of_isLayout (isLayout_of_isIdentStart hx)) h
  rw [← List.cons_append, ← hcs] at hend
  obtain ⟨span, payloadSpan, d, hcall, hd⟩ := call_written c.offset hname hp hrest hend
  refine ⟨span, payloadSpan, d, ?_, hd⟩
  simp only [step, bind, harrow, Option.bind_some, resultWord_written hname hend,
    hcall, Option.map_some]

theorem step_result {inner : Option (Nat → PipelineReader)} {label : Option Nat}
    {p : Nat → Char → Prop} (hrest : NextLine p rest)
    (h : c.rest = '|' :: '>' :: ' ' :: ("result".toList ++ rest)) :
    ∃ behind, step inner label c = some (choice inner label c.offset behind) ∧
      behind.rest = rest := by
  obtain ⟨arrow, harrow, hend⟩ := arrow_written (by decide) h
  obtain ⟨behind, hresult, hbehind⟩ := resultWord_line hrest hend
  exact ⟨behind, by simp only [step, bind, harrow, Option.bind_some, hresult], hbehind⟩

theorem statusOfDigits_toDigits {status : Nat} (h : status ≤ 599) :
    statusOfDigits (Nat.toDigits 10 status) = status := by
  have hdigits : (Nat.toDigits 10 status).foldl (fun n x => 10 * n + Decimal.digitValue x) 0
      = status :=
    Nat.ofDigitChars_ten_toDigits
  rw [statusOfDigits, hdigits, maxStatus]
  omega

theorem branchHead_written {label : String} {status : Nat} (hlabel : IsIdentifier label)
    (h : c.rest = label.toList ++ '(' :: (Nat.toDigits 10 status ++ ')' :: ':' :: rest)) :
    ∃ t digits d, branchHead c = some ((t, digits), d) ∧ t.text = label ∧
      digits.text.toList = Nat.toDigits 10 status ∧ d.rest = rest := by
  obtain ⟨t, next, hread, htext, hnext⟩ := identifier_append h hlabel (by rintro y ⟨⟩; rfl)
  obtain ⟨opening, hopening, hinside⟩ := blanks_char_cons hnext rfl
  obtain ⟨z, zs, hz⟩ := List.exists_cons_of_ne_nil (Nat.toDigits_ne_nil (n := status) (b := 10))
  have hisDigit : ∀ x ∈ Nat.toDigits 10 status, x.isDigit = true := fun x hx =>
    Nat.isDigit_of_mem_toDigits (by decide) (by decide) hx
  -- behind the parenthesis stand the digits, and at least one
  have hzdigit := hisDigit z (hz ▸ List.mem_cons_self)
  have hzblank : Blank.isInline z = false := by
    rw [Bool.eq_false_iff]
    intro hinline
    simp only [Blank.isInline, Bool.or_eq_true, beq_iff_eq] at hinline
    rcases hinline with rfl | rfl <;> exact absurd hzdigit (by decide)
  rw [hz, List.cons_append] at hinside
  have hblanks := blanks_cons hinside hzblank
  have hspan := span_takeWhile_cons hblanks hzdigit
  rw [← List.cons_append, ← hz] at hblanks
  obtain ⟨hdigits, hbehind⟩ := run_append hblanks hisDigit (by rintro y ⟨⟩; rfl)
  obtain ⟨closing, hclosing, hclosed⟩ := blanks_char_cons hbehind rfl
  obtain ⟨colon, hcolon, hend⟩ := blanks_char_cons hclosed rfl
  rw [branchHead, hread]
  simp only [bind, Option.bind_some, hopening, hspan, Bool.false_eq_true, if_false,
    hclosing, hcolon]
  exact ⟨_, _, _, rfl, htext, by rw [hdigits, String.toList_ofList], hend⟩

/-! ## Trees -/

/-- The reader of the steps inside a branch, where as many branches as `levels` may still open. -/
def branchReader : Nat → Option (Nat → PipelineReader)
  | 0 => none
  | levels + 1 => some (branchSteps levels)

theorem branchSteps_eq (levels label : Nat) :
    branchSteps levels label = steps (branchReader levels) (some label) := by
  cases levels <;> rfl

theorem onward_branchReader (levels : Nat) :
    ∀ read ∈ branchReader levels, ∀ label, Onward (read label) := by
  cases levels with
  | zero => rintro read ⟨⟩
  | succ levels =>
    rintro read ⟨⟩
    exact onward_branchSteps levels

theorem steps_stop {inner : Option (Nat → PipelineReader)} {label : Option Nat}
    (h : ownedStep inner label c = none) : steps inner label c = ([], [], c) := by
  rw [steps, many_of_none h]
  rfl

theorem steps_cons {inner : Option (Nat → PipelineReader)} {label : Option Nat} {s : Step}
    (honward : ∀ read ∈ inner, ∀ label, Onward (read label))
    (h : ownedStep inner label c = some ((s, []), d)) :
    steps inner label c
      = (s :: (steps inner label d).1, (steps inner label d).2.1, (steps inner label d).2.2) := by
  rw [steps, many_of_lt h (ownedStep_lt honward h)]
  rfl

/-- A line that is not right of a label is not right of a line that is. -/
theorem le_of_not_right {label : Option Nat} {k column : Nat} (h : label.all (· < column) = true)
    (hk : label.all (· < k) = false) : k ≤ column := by
  cases label with
  | none => cases hk
  | some l =>
    rw [Option.all_some, decide_eq_true_eq] at h
    rw [Option.all_some, decide_eq_false_iff_not] at hk
    omega

theorem right_add {label : Option Nat} {column : Nat} (h : label.all (· < column) = true)
    (n : Nat) :
    label.all (· < column + n) = true := by
  cases label with
  | none => rfl
  | some l =>
    rw [Option.all_some, decide_eq_true_eq] at h ⊢
    omega

mutual
theorem ownedStep_written {width : Nat} (hwidth : 0 < width) :
    ∀ (s : Step) (enclosing column : Nat) (label : Option Nat) (c : Cursor) (rest : List Char),
      s.IsWritable enclosing → label.all (· < column) = true →
      NextLine (fun k x => k ≤ column ∧ (label.all (· < k) = false ∨ x = '|')) rest →
      c.rest = s.written width column ++ rest →
      ∃ s' d, ownedStep (branchReader (maxNesting - enclosing)) label c = some ((s', []), d) ∧
        s'.unplaced = s.unplaced ∧ d.rest = rest
  | .call span name payload payloadSpan, enclosing, column, label, c, rest, hs, hright, hnext,
      h => by
    rw [Step.written] at h
    obtain ⟨hstep, hrest⟩ :=
      ownedStep_line (branchReader (maxNesting - enclosing)) ⟨rfl, by decide⟩ hright h
    obtain ⟨span', payloadSpan', d, hcall, hd⟩ := step_call hs.1 hs.2 hnext.head
      (hrest.trans (by simp only [List.cons_append, List.append_assoc]))
    exact ⟨_, d, hstep.trans hcall, rfl, hd⟩
  | .result span branches, enclosing, column, label, c, rest, hs, hright, hnext, h => by
    obtain ⟨henclosing, hbranches⟩ := hs
    have hlevels : maxNesting - enclosing = maxNesting - (enclosing + 1) + 1 := by omega
    rw [Step.written, List.append_assoc] at h
    obtain ⟨hstep, hrest⟩ :=
      ownedStep_line (branchReader (maxNesting - enclosing)) ⟨rfl, by decide⟩ hright h
    obtain ⟨behind, hresult, hbehind⟩ := step_result
      ((hnext.mono fun _ _ _ => trivial).branches (p := fun _ _ => True) (fun _ => trivial)
        width hbranches)
      hrest
    obtain ⟨items, d, hmany, hreports, hitems, hd⟩ :=
      branches_written hwidth branches (enclosing + 1)
      (column + width) label behind rest hbranches
      (right_add hright width) (hnext.mono fun k x hk => ⟨Nat.le_add_right_of_le hk.1, hk.2⟩)
      hbehind
    refine ⟨.result ⟨c.layout.offset, d.offset⟩ (items.map (·.1)), d, ?_, ?_, hd⟩
    · rw [hstep, hresult, hlevels, branchReader, choice, hmany]
      simp only [hreports]
    · rw [Step.unplaced, Step.unplaced, hitems]
theorem branches_written {width : Nat} (hwidth : 0 < width) :
    ∀ (bs : List Branch) (enclosing column : Nat) (label : Option Nat) (c : Cursor)
      (rest : List Char),
      Branch.AllWritable enclosing bs → label.all (· < column) = true →
      NextLine (fun k x => k ≤ column ∧ (label.all (· < k) = false ∨ x = '|')) rest →
      c.rest = Branch.writtenAll width column bs ++ rest →
      ∃ items d, c.many (ownedBranch (branchSteps (maxNesting - enclosing)) label) = (items, d) ∧
        items.flatMap (·.2) = [] ∧
        Branch.unplacedAll (items.map (·.1)) = Branch.unplacedAll bs ∧ d.rest = rest
  | [], enclosing, column, label, c, rest, hbs, hright, hnext, h => by
    have hstop : ownedBranch (branchSteps (maxNesting - enclosing)) label c = none :=
      ownedBranch_stops (h ▸ hnext.mono fun _ _ hk => hk.2)
    exact ⟨[], c, many_of_none hstop, rfl, rfl, h⟩
  | b :: bs, enclosing, column, label, c, rest, hbs, hright, hnext, h => by
    rw [Branch.writtenAll, List.append_assoc] at h
    obtain ⟨b', d, hb, hunplaced, hd⟩ :=
      ownedBranch_written hwidth b enclosing column label c _ hbs.1 hright
      ((hnext.mono fun _ _ hk => hk.1).branches (p := fun k _ => k ≤ column)
        (fun _ => Nat.le_refl column) width hbs.2)
      h
    obtain ⟨items, e, hmany, hreports, hitems, he⟩ :=
      branches_written hwidth bs enclosing column label d rest hbs.2 hright hnext hd
    refine ⟨(b', []) :: items, e, ?_, hreports, ?_, he⟩
    · rw [many_of_lt hb (ownedBranch_lt (onward_branchSteps _) hb), hmany]
    · rw [List.map_cons, Branch.unplacedAll, Branch.unplacedAll, hunplaced, hitems]
theorem ownedBranch_written {width : Nat} (hwidth : 0 < width) :
    ∀ (b : Branch) (enclosing column : Nat) (label : Option Nat) (c : Cursor) (rest : List Char),
      b.IsWritable enclosing → label.all (· < column) = true →
      NextLine (fun k _ => k ≤ column) rest →
      c.rest = b.written width column ++ rest →
      ∃ b' d, ownedBranch (branchSteps (maxNesting - enclosing)) label c = some ((b', []), d) ∧
        b'.unplaced = b.unplaced ∧ d.rest = rest
  | .mk outcome status span ss, enclosing, column, label, c, rest, hb, hright, hnext, h => by
    obtain ⟨hlabel, houtcome, hstatus, hss⟩ := hb
    obtain ⟨x, xs, hcs, hx⟩ := hlabel.head
    rw [Branch.written, List.append_assoc, hcs, List.cons_append] at h
    have hstart := not_layout_of_isIdentStart hx
    obtain ⟨hbranch, hrest, hcolumn⟩ :=
      ownedBranch_line (branchSteps (maxNesting - enclosing)) hstart hright h
    rw [← List.cons_append, ← List.cons_append, ← hcs] at hrest
    have hlabelled : c.layout.rest = outcome.label.toList ++ '(' :: (Nat.toDigits 10 status ++
        ')' :: ':' :: (Step.writtenAll width (column + width) ss ++ rest)) := by
      rw [hrest]
      simp only [List.append_assoc, List.cons_append, List.nil_append]
    obtain ⟨t, digits, colon, hhead, htext, hdigits, hcolon⟩ := branchHead_written hlabel hlabelled
    have hinside : (some column).all (· < column + width) = true := by
      rw [Option.all_some, decide_eq_true_eq]
      omega
    obtain ⟨ss', d, hsteps, hunplaced, hd⟩ := steps_written hwidth ss enclosing (column + width)
      (some column) colon rest hss hinside
      (hnext.mono fun k _ hk => by rw [Option.all_some, decide_eq_false_iff_not]; omega) hcolon
    refine ⟨.mk outcome status digits.span ss', d, ?_, ?_, hd⟩
    · rw [hbranch, branch_eq, hhead, hcolumn, branchSteps_eq]
      simp only [Option.map_some, branchFrom, hsteps, htext, houtcome, hdigits,
        statusOfDigits_toDigits hstatus.2, statusReports, if_pos hstatus, List.append_nil]
    · rw [Branch.unplaced, Branch.unplaced, hunplaced]
theorem steps_written {width : Nat} (hwidth : 0 < width) :
    ∀ (ss : List Step) (enclosing column : Nat) (label : Option Nat) (c : Cursor)
      (rest : List Char),
      Step.AllWritable enclosing ss → label.all (· < column) = true →
      NextLine (fun k _ => label.all (· < k) = false) rest →
      c.rest = Step.writtenAll width column ss ++ rest →
      ∃ ss' d, steps (branchReader (maxNesting - enclosing)) label c = (ss', [], d) ∧
        Step.unplacedAll ss' = Step.unplacedAll ss ∧ d.rest = rest
  | [], enclosing, column, label, c, rest, hss, hright, hnext, h => by
    exact ⟨[], c, steps_stop (ownedStep_stops (h ▸ hnext)), rfl, h⟩
  | s :: ss, enclosing, column, label, c, rest, hss, hright, hnext, h => by
    rw [Step.writtenAll, List.append_assoc] at h
    obtain ⟨s', d, hs, hunplaced, hd⟩ :=
      ownedStep_written hwidth s enclosing column label c _ hss.1 hright
      (NextLine.steps (hnext.mono fun k _ hk => ⟨le_of_not_right hright hk, Or.inl hk⟩)
        ⟨Nat.le_refl column, Or.inr rfl⟩ width ss) h
    obtain ⟨ss', e, hsteps, hunplacedAll, he⟩ :=
      steps_written hwidth ss enclosing column label d rest hss.2 hright hnext hd
    refine ⟨s' :: ss', e, ?_, ?_, he⟩
    · rw [steps_cons (onward_branchReader _) hs, hsteps]
    · rw [Step.unplacedAll, Step.unplacedAll, hunplaced, hunplacedAll]
end

/-! ## Documents -/

theorem namedPipeline_written {width column : Nat} {name : String} {ss : List Step}
    (hname : IsIdentifier name) (hss : Step.AllWritable 0 ss) (hwidth : 0 < width)
    (hrest : ∀ x ∈ rest, Blank.isLayout x = true)
    (h : c.rest = NamedPipeline.written width column name ss ++ rest) :
    ∃ v d, namedPipeline c = some (v, [], d) ∧ v.value.name = name ∧
      Step.unplacedAll v.value.steps = Step.unplacedAll ss ∧ d.rest = rest := by
  rw [NamedPipeline.written_append] at h
  obtain ⟨word, hword, hblank⟩ := keyword_append h (by rintro y ⟨⟩; rfl)
  obtain ⟨start, hstart, hbehind⟩ := someBlanks_space hblank (hname.head?_append _)
  obtain ⟨t, next, hread, hlabel, hnext⟩ := identifier_append hbehind hname (by rintro y ⟨⟩; rfl)
  have hopen : next.blanks.rest = '=' :: (Step.writtenAll width column ss ++ rest) :=
    blanks_space hnext rfl
  obtain ⟨ss', d, hsteps, hunplaced, hd⟩ := steps_written hwidth ss 0 column none
    (next.blanks.step '=' (Step.writtenAll width column ss ++ rest)) rest hss rfl (Or.inl hrest) rfl
  have hpipeline : pipeline (next.blanks.step '=' (Step.writtenAll width column ss ++ rest))
      = (ss', [], d) := hsteps
  refine ⟨⟨⟨name, t.span, ss'⟩, ⟨c.offset, d.offset⟩⟩, d, ?_, rfl, hunplaced, hd⟩
  have hdeclared : declaredName word
      = some (t, next.blanks.step '=' (Step.writtenAll width column ss ++ rest)) := by
    simp only [declaredName, bind, Option.bind_some, hstart, hread, char_cons hopen, pure]
  rw [namedPipeline, hword]
  simp only [bind, Option.bind_some, hdeclared, hpipeline, hlabel, pure]

/-- A document that starts with a declaration and ends in layout holds nothing else. -/
theorem items_declaration {text : List Char} {i : Item}
    (hhead : text.head?.any isIdentStart = true) (hread : declaration (start 0 text) = some (i, d))
    (hd : ∀ x ∈ d.rest, Blank.isLayout x = true) : items text = [i] := by
  obtain ⟨x, hx, hstart⟩ := (Option.any_eq_true _ _).1 hhead
  obtain ⟨behind, rfl⟩ := List.head?_eq_some_iff.1 hx
  have hlayout := layout_of_head (c := start 0 (x :: behind)) <| by
    rintro y ⟨⟩
    exact not_layout_of_isIdentStart hstart
  have hitem : item (start 0 (x :: behind)) = some (i, d) :=
    item_of_declaration (by rw [hlayout, hread])
  have hlast : item d = none := by
    have hend : d.layout.atEnd = true := by
      rw [atEnd, layout_blank hd]
      rfl
    rw [item, hend]
    rfl
  rw [items, many_of_lt hitem (item_lt hitem), many_of_none hlast]

theorem items_namedPipeline {text : List Char} {v : Spanned NamedPipeline}
    (hhead : text.head? = some 'p') (hread : namedPipeline (start 0 text) = some (v, [], d))
    (hd : ∀ x ∈ d.rest, Blank.isLayout x = true) : items text = [.pipeline v []] := by
  refine items_declaration (d := d) (by rw [hhead]; rfl) ?_ hd
  obtain ⟨behind, rfl⟩ := List.head?_eq_some_iff.1 hhead
  have hconfig : config (start 0 ('p' :: behind)) = none := by
    rw [config, show keyword "config".toList _ = none from keyword_of_head rfl (by decide)]
    rfl
  simp only [declaration, hconfig, hread, Option.map_none, Option.map_some, Option.none_or,
    Option.some_or]

/-- Layout at the end of a document holds no backtick. -/
theorem unclosedTick_layout {text tail : List Char} (htext : text.count tick % 2 = 0)
    (htail : ∀ x ∈ tail, Blank.isLayout x = true) : unclosedTick (text ++ tail) = [] := by
  refine unclosedTick_eq_nil_iff.2 ?_
  rw [List.count_append, List.count_eq_zero.2 fun hmem => absurd (htail tick hmem) (by decide)]
  exact htext

/-- **Indentation recovers the tree.** Let each step of a tree be a call of an identifier with a
payload that can be written, or a `result` step inside fewer branches than may nest, whose branches
have an identifier as label and a status from 100 to 599. Its text, one step or label a line, labels
`width` columns right of their `result` step and steps `width` columns right of their label, is read
without a report as one pipeline of the given name, whose tree is the one written, up to its
places. -/
theorem parse_written {width : Nat} (hwidth : 0 < width) (column : Nat) {name : String}
    (hname : IsIdentifier name) {ss : List Step} (hss : Step.AllWritable 0 ss) {tail : List Char}
    (htail : ∀ x ∈ tail, Blank.isLayout x = true) :
    ∃ v, (parse (NamedPipeline.written width column name ss ++ tail)).reports = [] ∧
      (parse (NamedPipeline.written width column name ss ++ tail)).program
        = { Program.empty with pipelines := [v] } ∧
      v.value.name = name ∧ Step.unplacedAll v.value.steps = Step.unplacedAll ss := by
  have htext : (start 0 (NamedPipeline.written width column name ss ++ tail)).rest
      = NamedPipeline.written width column name ss ++ tail := rfl
  obtain ⟨v, d, hread, hv, hunplaced, hd⟩ := namedPipeline_written hname hss hwidth htail htext
  have hitems : items (NamedPipeline.written width column name ss ++ tail) = [.pipeline v []] :=
    items_namedPipeline (by rw [NamedPipeline.written_append]; rfl) hread (hd ▸ htail)
  have hticks : unclosedTick (NamedPipeline.written width column name ss ++ tail) = [] :=
    unclosedTick_layout (NamedPipeline.even_written hname hss width column) htail
  refine ⟨v, ?_, ?_, hv, hunplaced⟩
  · rw [parse, hitems, hticks]
    rfl
  · rw [parse, hitems]
    rfl

/-- Steps in column 1 whose inner lines stand two columns further right each. -/
def nestedSteps : List Step :=
  [.call ⟨0, 0⟩ "jq" (.backtick ".") ⟨0, 0⟩,
    .result ⟨0, 0⟩
      [.mk .ok 200 ⟨0, 0⟩ [.result ⟨0, 0⟩ [.mk .default 599 ⟨0, 0⟩ []]],
        .mk (.custom "oops") 100 ⟨0, 0⟩ [.call ⟨0, 0⟩ "result" (.identifier "x") ⟨0, 0⟩]],
    .call ⟨0, 0⟩ "log" (.quoted "a # b") ⟨0, 0⟩]

/-- The label `oops` belongs to the outer of the two `result` steps. -/
theorem parse_written_nestedSteps :
    NamedPipeline.written 2 1 "p" nestedSteps ++ ['\n']
        = ("pipeline p =\n |> jq: \x60.\x60\n |> result\n   ok(200):\n     |> result\n"
          ++ "       default(599):\n   oops(100):\n     |> result: x\n"
          ++ " |> log: \"a # b\"\n").toList ∧
      ∃ v, (parse (NamedPipeline.written 2 1 "p" nestedSteps ++ ['\n'])).reports = [] ∧
        (parse (NamedPipeline.written 2 1 "p" nestedSteps ++ ['\n'])).program
          = { Program.empty with pipelines := [v] } ∧
        v.value.name = "p" ∧ Step.unplacedAll v.value.steps = nestedSteps := by
  have hwritable : Step.AllWritable 0 nestedSteps := by
    simp only [nestedSteps, Step.AllWritable, Step.IsWritable, Branch.AllWritable,
      Branch.IsWritable,
      Outcome.label, Outcome.ofLabel]
    decide
  have htail : ∀ x ∈ ['\n'], Blank.isLayout x = true := by
    rintro x (_ | ⟨_, ⟨⟩⟩)
    rfl
  exact ⟨by decide +kernel, parse_written (by decide) 1 (by decide) hwritable htail⟩

end PipelineLang.Grammar
