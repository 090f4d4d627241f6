import PipelineLang.Proofs.Grammar.Movement

/-!
# Names recorded while reading

The tables of declared names can also be filled while a document is read: a reader of a declaration
writes the name into a ledger at its end. An attempt that fails gives up its cursor and its reports,
but what it wrote stays. No attempt writes before its last step that can fail, so the ledger behind
a document holds the sites of its items and of nothing else (`record_eq`).
-/

namespace PipelineLang.Grammar

open Cursor

variable {c d : Cursor}

/-! ## Readers that record -/

/-- The names that were met so far. -/
structure Ledger where
  pipelines : Table Site
  typed : Table Site

/-- A reading that may fail. What it wrote to the ledger stays also when it fails. -/
abbrev Recording (α : Type) := OptionT (StateM Ledger) α

/-- A reading that writes nothing. -/
def Recording.silent {α : Type} (r : Option α) : Recording α := OptionT.mk (pure r)

/-- Writes to the ledger, and does not fail. -/
def Recording.write (f : Ledger → Ledger) : Recording Unit := OptionT.lift (modify f)

namespace Ledger

def empty : Ledger := ⟨.empty, .empty⟩

def notePipeline (name : String) (s : Site) (l : Ledger) : Ledger :=
  { l with pipelines := l.pipelines.insert name s }

def noteVariable (kind name : String) (s : Site) (l : Ledger) : Ledger :=
  { l with typed := l.typed.insert (SymbolKey.joinVariable kind name) s }

/-- The ledger with the site of an item written into it. -/
def note (l : Ledger) (i : Item) : Ledger :=
  { pipelines := i.pipelineSite?.elim l.pipelines fun (name, s) => l.pipelines.insert name s
    typed := i.variableSite?.elim l.typed fun (key, s) => l.typed.insert key s }

end Ledger

open Recording

def recordPipeline (c : Cursor) :
    Recording (Spanned NamedPipeline × List SyntaxReport × Cursor) := do
  let word ← silent (c.keyword "pipeline".toList)
  let (name, equals) ← silent (declaredName word)
  let (steps, reports, last) := pipeline equals
  let span := ⟨c.offset, last.offset⟩
  write (Ledger.notePipeline name.text ⟨span, name.span⟩)
  return (⟨⟨name.text, name.span, steps⟩, span⟩, reports, last)

def recordVariable (c : Cursor) : Recording (Spanned Variable × Cursor) := do
  let (kind, next) ← silent c.identifier
  if reservedTypes.contains kind.text then failure
  else
    let (name, equals) ← silent (declaredName next)
    let (value, last) ← silent equals.layout.backtickText
    let span := ⟨c.offset, last.offset⟩
    write (Ledger.noteVariable kind.text name.text ⟨span, name.span⟩)
    return (⟨⟨kind.text, name.text, name.span, value.text, value.span⟩, span⟩, last)

/-- Reads a declaration of any kind; each attempt goes on with the ledger that the one before it
left behind. -/
def recordDeclaration (c : Cursor) : Recording (Item × Cursor) :=
  silent ((config c).map fun (v, rs, next) => (.config v rs, next))
    <|> (fun (v, rs, next) => (.pipeline v rs, next)) <$> recordPipeline c
    <|> (fun (v, next) => (.typedVariable v, next)) <$> recordVariable c
    <|> silent ((route c).map fun (v, rs, next) => (.route v rs, next))
    <|> silent ((suite c).map fun (v, rs, next) => (.suite v rs, next))

def recordItem (c : Cursor) : Recording (Item × Cursor) :=
  let c := c.layout
  if c.atEnd then failure
  else recordDeclaration c <|> silent (some (unrecognizedLine c))

/-- Reads items as long as there are any. -/
def recordItems (c : Cursor) (l : Ledger) : List Item × Ledger :=
  match (recordItem c).run l with
  | (none, l) => ([], l)
  | (some (i, next), l) =>
    if next.rest.length < c.rest.length then
      let (is, l) := recordItems next l
      (i :: is, l)
    else ([], l)
termination_by c.rest.length

/-- The items of a document, with the ledger behind it. -/
def record (text : List Char) : List Item × Ledger := recordItems (Cursor.start 0 text) .empty

/-! ## What a reader leaves in the ledger -/

/-- The ledger behind a reading: it has the item that was read, and nothing of a failed one. -/
def Ledger.after {β : Type} (l : Ledger) : Option (Item × β) → Ledger
  | some (i, _) => l.note i
  | none => l

section
variable {α β : Type} (l : Ledger)

theorem run_silent (r : Option α) : (silent r).run l = (r, l) := rfl

theorem run_silent_bind (r : Option α) (f : α → Recording β) :
    (silent r >>= f).run l = r.elim (none, l) fun a => (f a).run l := by
  cases r with
  | none => rfl
  | some a => rfl

/-- An attempt starts from the ledger that a failed one leaves behind. -/
theorem run_orElse (x y : Recording α) :
    (x <|> y).run l = (x.run l).1.elim (y.run (x.run l).2) fun a => (some a, (x.run l).2) := by
  rw [OptionT.run_orElse, Option.elimM]
  change ((x.run l).1.elim y.run fun a => pure (some a) : StateM Ledger (Option α)) (x.run l).2 = _
  cases (x.run l).1 with
  | none => rfl
  | some a => rfl

theorem run_map (f : α → β) (x : Recording α) :
    (f <$> x).run l = ((x.run l).1.map f, (x.run l).2) := by
  rw [OptionT.run_map]
  rfl

end

/-- A pipeline that is read is in the ledger afterwards, and nothing else is new there. -/
theorem recordPipeline_run (c : Cursor) (l : Ledger) :
    (recordPipeline c).run l = (namedPipeline c, (namedPipeline c).elim l fun (v, _) =>
      l.notePipeline v.value.name ⟨v.span, v.value.nameSpan⟩) := by
  unfold recordPipeline namedPipeline
  rw [run_silent_bind]
  cases c.keyword "pipeline".toList with
  | none => rfl
  | some word =>
    simp only [Option.elim_some, Option.bind_eq_bind, Option.bind_some]
    rw [run_silent_bind]
    cases declaredName word with
    | none => rfl
    | some r => rfl

theorem recordVariable_run (c : Cursor) (l : Ledger) :
    (recordVariable c).run l = (typedVariable c, (typedVariable c).elim l fun (v, _) =>
      l.noteVariable v.value.kind v.value.name ⟨v.span, v.value.nameSpan⟩) := by
  unfold recordVariable typedVariable
  rw [run_silent_bind]
  cases c.identifier with
  | none => rfl
  | some r =>
    obtain ⟨kind, next⟩ := r
    simp only [Option.elim_some, Option.bind_eq_bind, Option.bind_some]
    split
    · rfl
    · rw [run_silent_bind]
      cases declaredName next with
      | none => rfl
      | some r =>
        obtain ⟨name, equals⟩ := r
        simp only [Option.elim_some, Option.bind_some]
        rw [run_silent_bind]
        cases equals.layout.backtickText with
        | none => rfl
        | some r => rfl

theorem recordDeclaration_run (c : Cursor) (l : Ledger) :
    (recordDeclaration c).run l = (declaration c, l.after (declaration c)) := by
  unfold recordDeclaration declaration
  simp only [run_orElse, run_map, run_silent, recordPipeline_run, recordVariable_run]
  cases config c with
  | some r => rfl
  | none =>
    cases namedPipeline c with
    | some r => rfl
    | none =>
      cases typedVariable c with
      | some r => rfl
      | none =>
        cases route c with
        | some r => rfl
        | none =>
          cases suite c with
          | some r => rfl
          | none => rfl

theorem recordItem_run (c : Cursor) (l : Ledger) :
    (recordItem c).run l = (item c, l.after (item c)) := by
  unfold recordItem item
  by_cases hend : c.layout.atEnd = true
  · simp only [hend, if_true]
    rfl
  · simp only [hend, Bool.false_eq_true, if_false, run_orElse, recordDeclaration_run, run_silent]
    cases declaration c.layout with
    | some r => rfl
    | none => rfl

/-- Reading with a ledger reads the same items, and notes each of them. -/
theorem recordItems_eq (c : Cursor) (l : Ledger) :
    recordItems c l = ((c.many item).1, (c.many item).1.foldl Ledger.note l) := by
  refine many_induction
    (motive := fun c r => ∀ l, recordItems c l = (r.1, r.1.foldl Ledger.note l))
    (fun _ _ _ => item_lt) (fun c hstop l => ?_) (fun c i d hread hlt ih l => ?_) c l
  · rw [recordItems, recordItem_run, hstop]
    rfl
  · rw [recordItems, recordItem_run, hread]
    simp only [if_pos (lt_iff.1 hlt).2, Ledger.after, ih, List.foldl_cons]

theorem foldl_note (is : List Item) (l : Ledger) :
    is.foldl Ledger.note l =
      { pipelines :=
          (is.filterMap Item.pipelineSite?).foldl (fun t (k, s) => t.insert k s) l.pipelines
        typed :=
          (is.filterMap Item.variableSite?).foldl (fun t (k, s) => t.insert k s) l.typed } := by
  induction is generalizing l with
  | nil => rfl
  | cons i is ih =>
    rw [List.foldl_cons, ih]
    cases i <;> rfl

/-- **No failed attempt leaves an entry.** Recording the names while reading gives the items of the
document and the tables that its items give. -/
theorem record_eq (text : List Char) :
    record text = (items text, ⟨(parse text).pipelineSites, (parse text).variableSites⟩) := by
  rw [record, recordItems_eq, foldl_note]
  rfl

end PipelineLang.Grammar
