import PipelineLang.Proofs.Grammar.Written

/-!
# Writing test blocks

A suite as text, one clause a line: its mocks and the headings of its tests stand in one column, the
clauses of a test in another. Names of blocks stand in quotes, values and queries in backticks, and
each mock may open with `with` or `and`. What can be written in this way is said by `IsWritable`, and
backticks come in pairs in what is written.
-/

namespace PipelineLang

open Cursor Grammar

/-! ## What can be written -/

/-- What a mock can stand in for. The bare name `pipeline` is none, since a name is expected behind
that word. -/
inductive IsTarget : String → Prop where
  | pipeline {name : String} (hname : IsIdentifier name) : IsTarget ("pipeline " ++ name)
  | typed {kind name : String} (hkind : IsIdentifier kind) (hname : IsIdentifier name) :
      IsTarget (kind ++ "." ++ name)
  | bare {name : String} (hname : IsIdentifier name) (hne : name ≠ "pipeline") : IsTarget name

/-- A comparison is a word, or the negation of one. -/
inductive IsComparison : String → Prop where
  | plain {word : String} (hword : IsIdentifier word) : IsComparison word
  | negated {word : String} (hword : IsIdentifier word) : IsComparison (word ++ " not")

/-- Blanks end in front of what a mock stands in for. -/
theorem IsTarget.head?_append {target : String} (h : IsTarget target) (rest : List Char) :
    ∀ x ∈ (target.toList ++ rest).head?, Blank.isInline x = false := by
  have hpipeline : IsIdentifier "pipeline" := by decide
  cases h with
  | @pipeline name hname =>
    rw [show "pipeline " ++ name = "pipeline" ++ (" " ++ name) from rfl]
    rw [String.toList_append, List.append_assoc]
    exact hpipeline.head?_append _
  | typed hkind hname =>
    rw [String.toList_append, String.toList_append, List.append_assoc, List.append_assoc]
    exact hkind.head?_append _
  | bare hname hne => exact hname.head?_append rest

structure Mock.IsWritable (m : Mock) : Prop where
  target : IsTarget m.target
  returns : (Payload.backtick m.returns).IsWritable

/-- A route is called with a method that is known and a path without ASCII blanks. -/
def Action.IsWritable : Action → Prop
  | .callRoute method path =>
    method ∈ methods ∧ path.toList ≠ [] ∧ ∀ x ∈ path.toList, Blank.isAscii x = false ∧ x ≠ tick
  | .runPipeline name => IsIdentifier name
  | .runVariable kind name => IsIdentifier kind ∧ IsIdentifier name

structure Condition.IsWritable (k : Condition) : Prop where
  field : IsIdentifier k.field
  query : ∀ q ∈ k.query, (Payload.backtick q).IsWritable
  comparison : IsComparison k.comparison
  value : (Payload.backtick k.value).IsWritable

def Grammar.TestClause.IsWritable : TestClause → Prop
  | .mock m => m.IsWritable
  | .action a => a.IsWritable
  | .input text => (Payload.backtick text).IsWritable
  | .condition k => k.IsWritable

/-- The clauses of a test in the order in which they are written. -/
def TestCase.clauses (t : TestCase) : List TestClause :=
  t.mocks.map .mock
    ++ .action t.action :: (t.input.toList.map .input ++ t.conditions.map .condition)

structure TestCase.IsWritable (t : TestCase) : Prop where
  name : (Payload.quoted t.name).IsWritable
  clauses : ∀ k ∈ t.clauses, k.IsWritable

structure TestSuite.IsWritable (s : TestSuite) : Prop where
  name : (Payload.quoted s.name).IsWritable
  mocks : ∀ m ∈ s.mocks, m.IsWritable
  tests : ∀ t ∈ s.tests, t.IsWritable

/-! ## Writing -/

/-- The word that opens a mock. -/
def Lead.mockWord : Lead → String
  | .opening => "with"
  | .continuing => "and"

/-- The word that opens a condition. -/
def Lead.conditionWord : Lead → String
  | .opening => "then"
  | .continuing => "and"

def Mock.written (lead : Lead) (m : Mock) : List Char :=
  lead.mockWord.toList ++ ' ' :: ("mock".toList ++ ' ' :: (m.target.toList ++
    ' ' :: ("returning".toList ++ ' ' :: (Payload.backtick m.returns).written)))

def Action.written : Action → List Char
  | .callRoute method path =>
    "when".toList ++ ' ' :: ("calling".toList ++ ' ' :: (method.toList ++ ' ' :: path.toList))
  | .runPipeline name =>
    "when".toList ++ ' ' :: ("executing".toList ++ ' ' :: ("pipeline".toList ++ ' ' :: name.toList))
  | .runVariable kind name =>
    "when".toList ++ ' ' :: ("executing".toList ++ ' ' :: ("variable".toList ++
      ' ' :: (kind.toList ++ ' ' :: name.toList)))

/-- The query of a condition with the blank behind it. -/
def Condition.writtenQuery (k : Condition) : List Char :=
  k.query.elim [] fun q => (Payload.backtick q).written ++ [' ']

def Condition.written (k : Condition) : List Char :=
  k.lead.conditionWord.toList ++ ' ' :: (k.field.toList ++ ' ' :: (k.writtenQuery ++
    (k.comparison.toList ++ ' ' :: (Payload.backtick k.value).written)))

/-- The clause, which opens with a word of the lead if it is a mock. -/
def Grammar.TestClause.written (lead : Lead) : TestClause → List Char
  | .mock m => m.written lead
  | .action a => a.written
  | .input text => "with".toList ++ ' ' :: ("input".toList ++ ' ' :: (Payload.backtick text).written)
  | .condition k => k.written

/-- Each content on a line of its own. -/
def writtenLines (column : Nat) (contents : List (List Char)) : List Char :=
  contents.flatMap (writtenLine column)

/-- A word and a name in quotes. -/
def writtenHeading (word name : String) : List Char :=
  word.toList ++ ' ' :: (Payload.quoted name).written

/-- The test, with its clauses in the given column. -/
def TestCase.written (column : Nat) (leads : Nat → Lead) (t : TestCase) : List Char :=
  writtenHeading "it" t.name
    ++ writtenLines column (t.clauses.zipIdx.map fun (k, n) => k.written (leads n))

/-- The suite, with its mocks and tests in the column `outer` and the clauses of the tests in the
column `inner`. Where clause `n` of block `b` is a mock, `leads b n` opens it; block 0 is the suite
itself. -/
def TestSuite.written (outer inner : Nat) (leads : Nat → Nat → Lead) (s : TestSuite) : List Char :=
  writtenHeading "describe" s.name
    ++ (writtenLines outer (s.mocks.zipIdx.map fun (m, n) => m.written (leads 0 n))
      ++ writtenLines outer (s.tests.zipIdx.map fun (t, b) => t.written inner (leads (b + 1))))

/-! ## First words -/

theorem Lead.isIdentifier_mockWord (lead : Lead) : IsIdentifier lead.mockWord := by
  cases lead <;> decide

theorem Lead.isIdentifier_conditionWord (lead : Lead) : IsIdentifier lead.conditionWord := by
  cases lead <;> decide

theorem Action.written_head (a : Action) : ∃ more, a.written = "when".toList ++ ' ' :: more := by
  cases a <;> exact ⟨_, rfl⟩

/-- A clause starts with a word. -/
theorem Grammar.TestClause.written_head (k : TestClause) (lead : Lead) :
    ∃ word more, IsIdentifier word ∧ k.written lead = word.toList ++ ' ' :: more := by
  cases k with
  | mock m => exact ⟨_, _, lead.isIdentifier_mockWord, rfl⟩
  | action a =>
    obtain ⟨more, hmore⟩ := a.written_head
    exact ⟨"when", more, by decide, hmore⟩
  | input text => exact ⟨"with", _, by decide, rfl⟩
  | condition k => exact ⟨_, _, k.lead.isIdentifier_conditionWord, rfl⟩

/-! ## Backticks -/

/-- Backticks come in pairs. -/
def IsPaired (cs : List Char) : Prop := cs.count tick % 2 = 0

instance (cs : List Char) : Decidable (IsPaired cs) := inferInstanceAs (Decidable (_ = _))

namespace IsPaired

variable {xs ys : List Char} {x : Char}

theorem append (hxs : IsPaired xs) (hys : IsPaired ys) : IsPaired (xs ++ ys) := by
  unfold IsPaired at *
  rw [List.count_append]
  omega

theorem cons (hx : x ≠ tick) (hxs : IsPaired xs) : IsPaired (x :: xs) := by
  rwa [IsPaired, List.count_cons_of_ne hx]

theorem of_not_mem (h : tick ∉ xs) : IsPaired xs := by
  rw [IsPaired, List.count_eq_zero.2 h]

theorem line (h : IsPaired xs) (column : Nat) : IsPaired (writtenLine column xs) := by
  rwa [IsPaired, count_writtenLine]

/-- A word, a blank and what follows. -/
theorem word {name : String} (hname : IsPaired name.toList) (hxs : IsPaired xs) :
    IsPaired (name.toList ++ ' ' :: xs) := hname.append (hxs.cons (by decide))

end IsPaired

theorem IsIdentifier.isPaired {name : String} (h : IsIdentifier name) : IsPaired name.toList := by
  rw [IsPaired, h.count_tick]

theorem IsTarget.isPaired {target : String} (h : IsTarget target) : IsPaired target.toList := by
  cases h with
  | pipeline hname =>
    rw [String.toList_append]
    exact .append (by decide) hname.isPaired
  | typed hkind hname =>
    rw [String.toList_append, String.toList_append]
    exact .append (hkind.isPaired.append (by decide)) hname.isPaired
  | bare hname => exact hname.isPaired

theorem IsComparison.isPaired {word : String} (h : IsComparison word) : IsPaired word.toList := by
  cases h with
  | plain hword => exact hword.isPaired
  | negated hword =>
    rw [String.toList_append]
    exact hword.isPaired.append (by decide)

theorem Mock.isPaired_written {m : Mock} (h : m.IsWritable) (lead : Lead) :
    IsPaired (m.written lead) :=
  .word lead.isIdentifier_mockWord.isPaired <| .word (by decide) <| .word h.target.isPaired <|
    .word (by decide) (Payload.even_written h.returns)

theorem Action.isPaired_written {a : Action} (h : a.IsWritable) : IsPaired a.written := by
  cases a with
  | callRoute method path =>
    obtain ⟨hmethod, -, hpath⟩ := h
    have hall : ∀ word ∈ methods, IsPaired word.toList := by decide
    exact .word (by decide) <| .word (by decide) <| .word (hall method hmethod) <|
      .of_not_mem fun hmem => (hpath tick hmem).2 rfl
  | runPipeline name =>
    exact .word (by decide) <| .word (by decide) <| .word (by decide) (IsIdentifier.isPaired h)
  | runVariable kind name =>
    exact .word (by decide) <| .word (by decide) <| .word (by decide) <|
      .word h.1.isPaired h.2.isPaired

theorem Condition.isPaired_written {k : Condition} (h : k.IsWritable) : IsPaired k.written := by
  have hquery : IsPaired k.writtenQuery := by
    unfold writtenQuery
    cases hq : k.query with
    | none => rfl
    | some q => exact .append (Payload.even_written (h.query q hq)) (by decide)
  exact .word k.lead.isIdentifier_conditionWord.isPaired <| .word h.field.isPaired <| hquery.append <|
    .word h.comparison.isPaired (Payload.even_written h.value)

theorem Grammar.TestClause.isPaired_written {k : TestClause} (h : k.IsWritable) (lead : Lead) :
    IsPaired (k.written lead) := by
  cases k with
  | mock m => exact Mock.isPaired_written h lead
  | action a => exact Action.isPaired_written h
  | input text => exact .word (by decide) <| .word (by decide) (Payload.even_written h)
  | condition k => exact Condition.isPaired_written h

theorem isPaired_writtenLines {contents : List (List Char)} (h : ∀ cs ∈ contents, IsPaired cs)
    (column : Nat) : IsPaired (writtenLines column contents) := by
  induction contents with
  | nil => rfl
  | cons cs contents ih =>
    obtain ⟨hcs, hcontents⟩ := List.forall_mem_cons.1 h
    exact (hcs.line column).append (ih hcontents)

theorem isPaired_writtenHeading {word name : String} (hword : IsPaired word.toList)
    (hname : (Payload.quoted name).IsWritable) : IsPaired (writtenHeading word name) :=
  .word hword (Payload.even_written hname)

theorem TestCase.isPaired_written {t : TestCase} (h : t.IsWritable) (column : Nat)
    (leads : Nat → Lead) : IsPaired (t.written column leads) := by
  refine (isPaired_writtenHeading (by decide) h.name).append (isPaired_writtenLines ?_ column)
  refine List.forall_mem_map.2 fun ⟨k, n⟩ hk => ?_
  exact TestClause.isPaired_written (h.clauses k (List.fst_mem_of_mem_zipIdx hk)) (leads n)

theorem TestSuite.isPaired_written {s : TestSuite} (h : s.IsWritable) (outer inner : Nat)
    (leads : Nat → Nat → Lead) : IsPaired (s.written outer inner leads) := by
  refine (isPaired_writtenHeading (by decide) h.name).append <|
    (isPaired_writtenLines (List.forall_mem_map.2 fun ⟨m, n⟩ hm => ?_) outer).append <|
      isPaired_writtenLines (List.forall_mem_map.2 fun ⟨t, b⟩ ht => ?_) outer
  · exact Mock.isPaired_written (h.mocks m (List.fst_mem_of_mem_zipIdx hm)) (leads 0 n)
  · exact TestCase.isPaired_written (h.tests t (List.fst_mem_of_mem_zipIdx ht)) inner (leads (b + 1))

end PipelineLang
