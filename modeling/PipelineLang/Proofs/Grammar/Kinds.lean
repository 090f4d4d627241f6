import PipelineLang.Proofs.Grammar.Recording
import PipelineLang.Proofs.Grammar.Spelling

/-!
# Declarations are told apart by how they open

The kinds of declarations are tried one after the other, but no two of them can be read at one place:
the word that opens a declaration and the character behind the blanks after it settle its kind
(`kindOf`, `kindOf_of_read`). So it does not matter in which order the kinds are tried, nor what an
attempt leaves behind that comes before the right one (`declarations_unambiguous`).
-/

namespace PipelineLang.Grammar

open Cursor Recording

/-- The kinds of declarations. -/
inductive DeclarationKind where
  | config
  | pipeline
  | typedVariable
  | route
  | suite
  deriving DecidableEq

namespace DeclarationKind

/-- Reads a declaration of the kind. -/
def read (k : DeclarationKind) (c : Cursor) : Option (Item × Cursor) :=
  match k with
  | config => (Grammar.config c).map fun (v, rs, next) => (.config v rs, next)
  | pipeline => (namedPipeline c).map fun (v, rs, next) => (.pipeline v rs, next)
  | typedVariable => (Grammar.typedVariable c).map fun (v, next) => (.typedVariable v, next)
  | route => (Grammar.route c).map fun (v, rs, next) => (.route v rs, next)
  | suite => (Grammar.suite c).map fun (v, rs, next) => (.suite v rs, next)

/-- Reads a declaration of the kind and writes its name to the ledger. -/
def record (k : DeclarationKind) (c : Cursor) : Recording (Item × Cursor) :=
  match k with
  | pipeline => (fun (v, rs, next) => (.pipeline v rs, next)) <$> recordPipeline c
  | typedVariable => (fun (v, next) => (.typedVariable v, next)) <$> recordVariable c
  | k => silent (k.read c)

/-- The kinds in the order in which a document is tried for them. -/
def all : List DeclarationKind := [config, pipeline, typedVariable, route, suite]

end DeclarationKind

/-! ## Reading in any order -/

/-- Reads a declaration; the kinds are tried in the given order. -/
def declarationIn (order : List DeclarationKind) (c : Cursor) : Option (Item × Cursor) :=
  order.findSome? (·.read c)

/-- Reads a declaration with a ledger; each attempt goes on with what the one before it left there. -/
def recordIn (order : List DeclarationKind) (c : Cursor) : Recording (Item × Cursor) :=
  order.foldr (fun k later => k.record c <|> later) failure

/-- Reads the next item behind the layout; the kinds are tried in the given order. -/
def itemIn (order : List DeclarationKind) (c : Cursor) : Option (Item × Cursor) :=
  let c := c.layout
  if c.atEnd then none
  else
    match declarationIn order c with
    | some read => some read
    | none => some (unrecognizedLine c)

/-- Reads a document; at each place the kinds of declarations are tried in the given order. -/
def parseIn (order : List DeclarationKind) (text : List Char) : Parse :=
  let items := ((Cursor.start 0 text).many (itemIn order)).1
  { program := programOfItems items
    reports := items.flatMap Item.reports ++ unclosedTick text
    pipelineSites := .ofList (items.filterMap Item.pipelineSite?)
    variableSites := .ofList (items.filterMap Item.variableSite?) }

variable {c d : Cursor} {k k' : DeclarationKind}

theorem declaration_eq_declarationIn (c : Cursor) :
    declaration c = declarationIn DeclarationKind.all c := by
  rw [declaration, declarationIn, DeclarationKind.all]
  simp only [List.findSome?_cons, List.findSome?_nil, DeclarationKind.read]
  cases config c <;> cases namedPipeline c <;> cases typedVariable c <;> cases route c <;>
    cases suite c <;> rfl

/-! ## How declarations open -/

/-- The only kind that a declaration can be of which opens with the word, before the cursor
`behind`. -/
def kindOf (word : String) (behind : Cursor) : DeclarationKind :=
  if word = "config" then .config
  else if word = "pipeline" then .pipeline
  else if word = "describe" then .suite
  else if behind.blanks.peek = some '/' then .route
  else .typedVariable

/-- What is read of the kind opens with a word of which the kind is told. -/
def DeclarationKind.Opens (k : DeclarationKind) (c : Cursor) : Prop :=
  ∃ word behind, c.identifier = some (word, behind) ∧ kindOf word.text behind = k

theorem DeclarationKind.Opens.unique (h : k.Opens c) (h' : k'.Opens c) : k = k' := by
  obtain ⟨word, behind, hword, rfl⟩ := h
  obtain ⟨word', behind', hword', rfl⟩ := h'
  cases hword.symm.trans hword'
  rfl

/-- Behind the blanks that were read stands what does without looking for them. -/
theorem peek_blanks_of_someBlanks (h : c.someBlanks = some d) : c.blanks.peek = d.peek := by
  rw [someBlanks_eq] at h
  split at h
  · cases h
    rfl
  · cases h

theorem opens_config (h : config c ≠ none) : DeclarationKind.Opens .config c := by
  obtain ⟨r, hr⟩ := Option.ne_none_iff_exists'.1 h
  simp only [config, bind, Option.bind_eq_some_iff] at hr
  obtain ⟨next, hword, -⟩ := hr
  exact ⟨_, next, identifier_of_keyword (by decide) hword, rfl⟩

theorem opens_pipeline (h : namedPipeline c ≠ none) : DeclarationKind.Opens .pipeline c := by
  obtain ⟨r, hr⟩ := Option.ne_none_iff_exists'.1 h
  simp only [namedPipeline, bind, Option.bind_eq_some_iff] at hr
  obtain ⟨next, hword, -⟩ := hr
  exact ⟨_, next, identifier_of_keyword (by decide) hword, rfl⟩

theorem opens_suite (h : suite c ≠ none) : DeclarationKind.Opens .suite c := by
  obtain ⟨r, hr⟩ := Option.ne_none_iff_exists'.1 h
  simp only [suite, spacedWord, bind, Option.bind_eq_some_iff] at hr
  obtain ⟨blank, ⟨next, hword, -⟩, -⟩ := hr
  exact ⟨_, next, identifier_of_keyword (by decide) hword, rfl⟩

/-- The type of a variable is no word that opens another kind, and a name stands behind it. -/
theorem opens_typedVariable (h : typedVariable c ≠ none) : DeclarationKind.Opens .typedVariable c := by
  obtain ⟨r, hr⟩ := Option.ne_none_iff_exists'.1 h
  simp only [typedVariable, bind, Option.bind_eq_some_iff] at hr
  obtain ⟨⟨word, behind⟩, hword, hr⟩ := hr
  refine ⟨word, behind, hword, ?_⟩
  split at hr
  · cases hr
  · next hreserved =>
    simp only [declaredName, bind, Option.bind_eq_some_iff] at hr
    obtain ⟨-, ⟨blank, hblank, ⟨name, next⟩, hname, -⟩, -⟩ := hr
    have hother : ∀ other ∈ reservedTypes, word.text ≠ other := by
      rintro other hmem rfl
      exact hreserved (List.contains_iff_mem.2 hmem)
    have hslash : behind.blanks.peek ≠ some '/' := by
      intro hpeek
      rw [peek_blanks_of_someBlanks hblank] at hpeek
      rw [identifier_eq, hpeek] at hname
      cases hname
    rw [kindOf, if_neg (hother _ (by decide)), if_neg (hother _ (by decide)),
      if_neg (hother _ (by decide)), if_neg hslash]

/-- A route opens with a method, and a path stands behind it. -/
theorem opens_route (h : route c ≠ none) : DeclarationKind.Opens .route c := by
  obtain ⟨r, hr⟩ := Option.ne_none_iff_exists'.1 h
  simp only [route, method, bind, Option.bind_eq_some_iff] at hr
  obtain ⟨⟨word, behind⟩, ⟨⟨word', behind'⟩, hword, hmethod⟩, pathStart, hblank, hpath⟩ := hr
  split at hmethod
  · next hmem =>
    cases hmethod
    refine ⟨word', behind', hword, ?_⟩
    split at hpath
    · next hslash =>
      have hother : ∀ other, other ∉ methods → word'.text ≠ other := by
        rintro other hnot rfl
        exact hnot (List.contains_iff_mem.1 hmem)
      rw [← peek_blanks_of_someBlanks hblank] at hslash
      rw [kindOf, if_neg (hother _ (by decide)), if_neg (hother _ (by decide)),
        if_neg (hother _ (by decide)), if_pos hslash]
    · cases hpath
  · cases hmethod

/-- Whatever is read at a cursor is of the kind that its opening tells. -/
theorem opens_of_read (h : k.read c ≠ none) : k.Opens c := by
  cases k with
  | config => exact opens_config (mt Option.map_eq_none_iff.2 h)
  | pipeline => exact opens_pipeline (mt Option.map_eq_none_iff.2 h)
  | typedVariable => exact opens_typedVariable (mt Option.map_eq_none_iff.2 h)
  | route => exact opens_route (mt Option.map_eq_none_iff.2 h)
  | suite => exact opens_suite (mt Option.map_eq_none_iff.2 h)

/-- **At most one kind of declaration can be read at a cursor.** -/
theorem read_unique (h : k.read c ≠ none) (h' : k'.read c ≠ none) : k = k' :=
  (opens_of_read h).unique (opens_of_read h')

/-! ## The order does not matter -/

section
variable {order : List DeclarationKind} (horder : ∀ k, k ∈ order)
include horder

/-- What is read in an order of all kinds is what one of them reads. -/
theorem declarationIn_eq_some_iff {r : Item × Cursor} :
    declarationIn order c = some r ↔ ∃ k : DeclarationKind, k.read c = some r := by
  constructor
  · intro h
    obtain ⟨k, -, hk⟩ := List.exists_of_findSome?_eq_some h
    exact ⟨k, hk⟩
  · rintro ⟨k, hk⟩
    have hfound : declarationIn order c ≠ none := by
      intro hnone
      rw [List.findSome?_eq_none_iff.1 hnone k (horder k)] at hk
      cases hk
    obtain ⟨r', hr'⟩ := Option.ne_none_iff_exists'.1 hfound
    obtain ⟨k', -, hk'⟩ := List.exists_of_findSome?_eq_some hr'
    obtain rfl : k = k' := read_unique (hk ▸ Option.some_ne_none r) (hk' ▸ Option.some_ne_none r')
    rw [hr', ← hk', hk]

theorem declarationIn_eq (c : Cursor) : declarationIn order c = declaration c := by
  have hall : ∀ k, k ∈ DeclarationKind.all := fun k => by cases k <;> decide
  rw [declaration_eq_declarationIn]
  refine Option.ext fun r => ?_
  exact (declarationIn_eq_some_iff horder).trans (declarationIn_eq_some_iff hall).symm

theorem parseIn_eq (text : List Char) : parseIn order text = parse text := by
  have hitem : itemIn order = item := funext fun c => by
    have hread := declarationIn_eq horder c.layout
    dsimp only [itemIn, item]
    generalize declarationIn order c.layout = r at hread ⊢
    subst hread
    rfl
  rw [parseIn, parse, items, hitem]

end

/-- An attempt with a ledger reads what it does without one, and notes that only. -/
theorem record_run (k : DeclarationKind) (c : Cursor) (l : Ledger) :
    (k.record c).run l = (k.read c, l.after (k.read c)) := by
  unfold DeclarationKind.record DeclarationKind.read
  cases k with
  | config =>
    rw [run_silent]
    cases config c <;> rfl
  | pipeline =>
    simp only [run_map, recordPipeline_run]
    cases namedPipeline c <;> rfl
  | typedVariable =>
    simp only [run_map, recordVariable_run]
    cases typedVariable c <;> rfl
  | route =>
    rw [run_silent]
    cases route c <;> rfl
  | suite =>
    rw [run_silent]
    cases suite c <;> rfl

theorem recordIn_run (order : List DeclarationKind) (c : Cursor) (l : Ledger) :
    (recordIn order c).run l = (declarationIn order c, l.after (declarationIn order c)) := by
  induction order with
  | nil => rfl
  | cons k order ih =>
    rw [recordIn, List.foldr_cons, run_orElse, record_run, declarationIn, List.findSome?_cons]
    cases k.read c with
    | none => exact ih
    | some r => rfl

/-- **The grammar of declarations is unambiguous.** At every cursor at most one kind of declaration
can be read. So in whatever order the kinds are tried, as long as all of them are, a document parses
to the same program with the same reports and tables, and the attempts that come to nothing leave
nothing in the ledger of names either. -/
theorem declarations_unambiguous :
    (∀ (c : Cursor) (k k' : DeclarationKind), k.read c ≠ none → k'.read c ≠ none → k = k') ∧
    ∀ order : List DeclarationKind, (∀ k, k ∈ order) →
      (∀ text, parseIn order text = parse text) ∧ ∀ c, recordIn order c = recordDeclaration c := by
  refine ⟨fun c k k' => read_unique, fun order horder => ⟨parseIn_eq horder, fun c => ?_⟩⟩
  refine OptionT.ext (StateT.ext fun l => ?_)
  change (recordIn order c).run l = (recordDeclaration c).run l
  rw [recordIn_run, recordDeclaration_run, declarationIn_eq horder]

/-- A document with a declaration of each kind. -/
def eachKind : List Char :=
  "config c \x7b\n\x7d\npipeline p =\npg q = \x60x\x60\nGET /a\n  |> pg: q\ndescribe \"d\"\n".toList

/-- Tried from the last kind to the first, all five declarations are found again. -/
theorem declarations_unambiguous_reversed :
    (∀ k, k ∈ DeclarationKind.all.reverse) ∧
      parseIn DeclarationKind.all.reverse eachKind = parse eachKind ∧
      (parse eachKind).program.size = 5 := by
  have horder : ∀ k, k ∈ DeclarationKind.all.reverse := fun k => by cases k <;> decide
  exact ⟨horder, (declarations_unambiguous.2 _ horder).1 eachKind, by decide +kernel⟩

end PipelineLang.Grammar
