import Mathlib.Data.List.Induction
import PipelineLang.Proofs.Grammar.Nesting
import PipelineLang.Proofs.Source.Position

/-!
# A branch owns what stands right of its label

A branch does not keep where its label stands, but the document spells the head of the branch around
the digits of its status, so there is one place for it (`existsUnique_headStands`). All that is read
into the branch stands right of that place, in bytes since the start of the line, and reading ends
where no step stands right of it (`branches_own`).
-/

namespace PipelineLang

open Utf8

/-! ## Heads of branches -/

/-- The character, with nothing but blanks of the line around it. -/
def Spaced (x : Char) (run : List Char) : Prop :=
  ∃ gap gap', run = gap ++ x :: gap' ∧ (∀ y ∈ gap, Blank.isInline y = true) ∧
    ∀ y ∈ gap', Blank.isInline y = true

/-- The document spells the head of the branch under the span: the label, the digits of the status
in parentheses, and a colon. -/
def Branch.HeadStands (text : List Char) (b : Branch) (head : Span) : Prop :=
  ∃ front opening digits closing back,
    text = front ++ b.outcome.label.toList ++ opening ++ digits ++ closing ++ ':' :: back ∧
    IsIdentifier b.outcome.label ∧ Spaced '(' opening ∧ Spaced ')' closing ∧
    head.start = byteLength front ∧
    b.statusSpan.start = byteLength (front ++ b.outcome.label.toList ++ opening) ∧
    b.statusSpan.stop = byteLength (front ++ b.outcome.label.toList ++ opening ++ digits) ∧
    head.stop = byteLength (front ++ b.outcome.label.toList ++ opening ++ digits ++ closing ++ [':'])

/-- Where the steps of the branch end, behind its head at the latest. -/
def Branch.stop (b : Branch) (head : Span) : Nat :=
  (b.steps.getLast?.map (·.span.stop)).getD head.stop

/-- The bytes from the start of the line up to the offset. -/
def columnAt (text : List Char) (offset : Nat) : Nat :=
  byteLength (Lines.last (splitFloor offset text).1)

/-- The cursor of the document at the offset. -/
def cursorAt (text : List Char) (offset : Nat) : Cursor :=
  (Cursor.start 0 text).skip (splitFloor offset text).1.length

/-! ## Blanks -/

/-- What follows blanks, and does not start with one, is the same in each reading of the text. -/
theorem gap_append_inj {gap gap' xs ys : List Char} (h : gap ++ xs = gap' ++ ys)
    (hgap : ∀ z ∈ gap, Blank.isInline z = true) (hgap' : ∀ z ∈ gap', Blank.isInline z = true)
    (hxs : ∀ z ∈ xs.head?, Blank.isInline z = false)
    (hys : ∀ z ∈ ys.head?, Blank.isInline z = false) : xs = ys := by
  have hdrop {gap xs : List Char} (hgap : ∀ z ∈ gap, Blank.isInline z = true)
      (hxs : ∀ z ∈ xs.head?, Blank.isInline z = false) :
      (gap ++ xs).dropWhile Blank.isInline = xs := by
    rw [List.dropWhile_append_of_pos hgap]
    cases xs with
    | nil => rfl
    | cons x xs => exact List.dropWhile_cons_of_neg (by simp [hxs x rfl])
  rw [← hdrop hgap hxs, h, hdrop hgap' hys]

/-- What stands in front of blanks, and does not end with one, is the same in each reading. -/
theorem append_gap_inj {gap gap' xs ys : List Char} (h : xs ++ gap = ys ++ gap')
    (hgap : ∀ z ∈ gap, Blank.isInline z = true) (hgap' : ∀ z ∈ gap', Blank.isInline z = true)
    (hxs : ∀ z ∈ xs.getLast?, Blank.isInline z = false)
    (hys : ∀ z ∈ ys.getLast?, Blank.isInline z = false) : xs = ys := by
  have hreverse := congrArg List.reverse h
  rw [List.reverse_append, List.reverse_append] at hreverse
  refine List.reverse_injective (gap_append_inj hreverse ?_ ?_ ?_ ?_)
  · simpa using hgap
  · simpa using hgap'
  · simpa using hxs
  · simpa using hys

/-- An identifier does not end with a blank. -/
theorem IsIdentifier.not_isInline_getLast {name : String} (h : IsIdentifier name)
    (front : List Char) : ∀ z ∈ (front ++ name.toList).getLast?, Blank.isInline z = false := by
  obtain ⟨x, xs, hname, -⟩ := h.head
  intro z hz
  rw [hname, List.getLast?_append_cons] at hz
  refine not_isInline_of_isIdentChar (h.2 z ?_)
  rw [hname]
  exact List.mem_of_getLast? hz

/-- What stands in front of a spaced character, and does not end with a blank, is the same in each
reading. -/
theorem Spaced.append_inj {x : Char} {run run' xs ys : List Char} (hrun : Spaced x run)
    (hrun' : Spaced x run') (h : xs ++ run = ys ++ run') (hx : Blank.isInline x = false)
    (hxs : ∀ z ∈ xs.getLast?, Blank.isInline z = false)
    (hys : ∀ z ∈ ys.getLast?, Blank.isInline z = false) : xs = ys := by
  obtain ⟨gap, behind, rfl, hgap, hbehind⟩ := hrun
  obtain ⟨gap', behind', rfl, hgap', hbehind'⟩ := hrun'
  have hsplit (xs gap behind : List Char) :
      xs ++ (gap ++ x :: behind) = xs ++ gap ++ [x] ++ behind := by simp
  rw [hsplit, hsplit] at h
  have hfront := append_gap_inj h hbehind hbehind' (by simpa using hx) (by simpa using hx)
  exact append_gap_inj (List.append_cancel_right hfront) hgap hgap' hxs hys

/-- What follows a spaced character, and does not start with a blank, is the same in each reading. -/
theorem Spaced.inj_append {x : Char} {run run' xs ys : List Char} (hrun : Spaced x run)
    (hrun' : Spaced x run') (h : run ++ xs = run' ++ ys) (hx : Blank.isInline x = false)
    (hxs : ∀ z ∈ xs.head?, Blank.isInline z = false)
    (hys : ∀ z ∈ ys.head?, Blank.isInline z = false) : xs = ys := by
  obtain ⟨gap, behind, rfl, hgap, hbehind⟩ := hrun
  obtain ⟨gap', behind', rfl, hgap', hbehind'⟩ := hrun'
  rw [List.append_assoc, List.append_assoc, List.cons_append, List.cons_append] at h
  have hback := gap_append_inj h hgap hgap' (by simpa using hx) (by simpa using hx)
  exact gap_append_inj (List.tail_eq_of_cons_eq hback) hbehind hbehind' hxs hys

/-- A branch has its head in one place only. -/
theorem Branch.HeadStands.unique {text : List Char} {b : Branch} {s t : Span}
    (hs : b.HeadStands text s) (ht : b.HeadStands text t) : s = t := by
  obtain ⟨front, opening, digits, closing, back, htext, hlabel, hopening, hclosing, hstart, hdigits,
    hbehind, hstop⟩ := hs
  obtain ⟨front', opening', digits', closing', back', htext', -, hopening', hclosing', hstart',
    hdigits', hbehind', hstop'⟩ := ht
  have hhead : front = front' := by
    have hrest : front ++ b.outcome.label.toList ++ opening ++ (digits ++ (closing ++ ':' :: back))
        = front' ++ b.outcome.label.toList ++ opening' ++ (digits' ++ (closing' ++ ':' :: back')) := by
      simpa using htext.symm.trans htext'
    have hopen := append_inj_of_byteLength hrest (hdigits.symm.trans hdigits')
    exact List.append_cancel_right (hopening.append_inj hopening' hopen (by decide)
      (hlabel.not_isInline_getLast front) (hlabel.not_isInline_getLast front'))
  have hback : back = back' := by
    have hrest := htext.symm.trans htext'
    rw [List.append_assoc _ closing, List.append_assoc _ closing'] at hrest
    have hfront := append_inj_of_byteLength hrest (hbehind.symm.trans hbehind')
    rw [hfront] at hrest
    exact List.tail_eq_of_cons_eq (hclosing.inj_append hclosing' (List.append_cancel_left hrest)
      (by decide) (by simp [Blank.isInline]) (by simp [Blank.isInline]))
  have hlen := congrArg byteLength htext
  have hlen' := congrArg byteLength htext'
  rw [← List.singleton_append, ← List.append_assoc, byteLength_append, ← hstop] at hlen
  rw [← List.singleton_append, ← List.append_assoc, byteLength_append, ← hstop'] at hlen'
  obtain ⟨start, stop⟩ := s
  obtain ⟨start', stop'⟩ := t
  simp only [Span.mk.injEq] at *
  subst hhead hback
  omega

/-! ## Columns -/

namespace Cursor

variable {c d : Cursor}

/-- The column counts the bytes since the last line feed. -/
theorem column_skip {text run : List Char} (h : Between (start 0 text) run c) :
    c.column = byteLength (Lines.last run) := by
  induction run using List.reverseRecOn generalizing c with
  | nil =>
    rw [h.2]
    rfl
  | append_singleton run x ih =>
    obtain ⟨d, hd, hrest⟩ := exists_between_of_rest (h.rest_eq.trans (List.append_assoc run [x] _))
    rw [List.singleton_append] at hrest
    have hc : c = d.step x c.rest := by
      rw [step_eq_skip hrest]
      exact (h.tail hd).2
    rw [hc, step, Lines.last_concat]
    split
    · rfl
    · rw [ih hd, byteLength_append]
      rfl

theorem splitFloor_offset {text run : List Char} (h : Between (start 0 text) run c) :
    (splitFloor c.offset text).1 = run := by
  have hoffset := h.offset_eq
  rw [start, Nat.zero_add] at hoffset
  rw [hoffset, show text = run ++ c.rest from h.rest_eq, splitFloor_byteLength]

theorem columnAt_offset {text : List Char} (hc : start 0 text ≤ c) :
    columnAt text c.offset = c.column := by
  obtain ⟨run, hrun⟩ := exists_run hc
  rw [columnAt, splitFloor_offset hrun, column_skip hrun]

theorem cursorAt_offset {text : List Char} (hc : start 0 text ≤ c) :
    cursorAt text c.offset = c := by
  obtain ⟨run, hrun⟩ := exists_run hc
  rw [cursorAt, splitFloor_offset hrun]
  exact hrun.2.symm

/-- A character read between blanks is spaced. -/
theorem spaced_between {x : Char} (h : c.blanks.char x = some d) :
    ∃ run, Between c run d.blanks ∧ Spaced x run := by
  have hinline (c : Cursor) : ∀ y ∈ c.rest.takeWhile Blank.isInline, Blank.isInline y = true :=
    List.all_eq_true.1 List.all_takeWhile
  refine ⟨_, ((blanks_between c).trans (char_between h)).trans (blanks_between d), _, _, ?_,
    hinline c, hinline d⟩
  rw [List.append_assoc, List.singleton_append]

end Cursor

namespace Grammar

open Cursor

variable {c d : Cursor} {levels : Nat} {label : Option Nat} {rs : List SyntaxReport}

/-- The head of a branch stands where it is read. -/
theorem branchHead_stands {text : List Char} (hc : start 0 text ≤ c) {name digits : Token}
    (h : branchHead c = some ((name, digits), d)) (status : Nat) (ss : Pipeline) :
    (Branch.mk (.ofLabel name.text) status digits.span ss).HeadStands text
      ⟨c.offset, d.offset⟩ := by
  simp only [branchHead, bind, Option.bind_eq_some_iff] at h
  obtain ⟨⟨name', next⟩, hname, opening, hopening, h⟩ := h
  split at h
  · cases h
  · generalize hread : opening.blanks.takeWhile Char.isDigit = r at h
    obtain ⟨t, behind⟩ := r
    simp only [Option.bind_eq_some_iff] at h
    obtain ⟨closing, hclosing, colon, hcolon, heq⟩ := h
    cases heq
    obtain ⟨front, hfront⟩ := exists_run hc
    obtain ⟨hlabel, -, hidentifier, -⟩ := identifier_spec hname
    obtain ⟨opened, hopened, hspaced⟩ := spaced_between hopening
    obtain ⟨hdigits, hspan, -, -⟩ := takeWhile_spec hread
    obtain ⟨closed, hclosed, hspaced'⟩ := spaced_between hclosing
    have hopen := (hfront.trans hlabel).trans hopened
    have hstatus := hopen.trans hdigits
    have hend := (hstatus.trans hclosed).trans (char_between hcolon)
    have hoffset {run : List Char} {e : Cursor} (h : Between (start 0 text) run e) :
        e.offset = byteLength run := by
      rw [h.offset_eq, start, Nat.zero_add]
    refine ⟨front, opened, digits.text.toList, closed, d.rest, ?_, ?_, hspaced, hspaced',
      hoffset hfront, ?_, ?_, ?_⟩
    · have htext : text = _ ++ d.rest := hend.rest_eq
      simpa [Branch.outcome, Outcome.label_ofLabel] using htext
    · simpa [Branch.outcome, Outcome.label_ofLabel] using hidentifier
    · simpa [Branch.outcome, Outcome.label_ofLabel, Branch.statusSpan, hspan] using hoffset hopen
    · simpa [Branch.outcome, Outcome.label_ofLabel, Branch.statusSpan, hspan] using hoffset hstatus
    · simpa [Branch.outcome, Outcome.label_ofLabel] using hoffset hend

/-! ## What a branch owns -/

/-- The branch is read right of `label`, somewhere behind the cursor `c`, and its own label owns its
steps. -/
def BranchRead (label : Option Nat) (c : Cursor) (b : Branch) : Prop :=
  ∃ levels head name digits colon rs d, c ≤ head ∧ isRightOf label head = true ∧
    branchHead head = some ((name, digits), colon) ∧
    b = .mk (.ofLabel name.text) (statusOfDigits digits.text.toList) digits.span b.steps ∧
    StepsNested levels (some head.column) colon b.steps rs d

theorem BranchRead.mono {b : Branch} (h : BranchRead label d b) (hc : c ≤ d) :
    BranchRead label c b := by
  obtain ⟨levels, head, name, digits, colon, rs, e, hd, h⟩ := h
  exact ⟨levels, head, name, digits, colon, rs, e, hc.trans hd, h⟩

theorem BranchesNested.branchRead : ∀ {levels : Nat} {label : Option Nat} {c d : Cursor}
    {bs : List Branch} {rs : List SyntaxReport}, BranchesNested levels label c bs rs d →
      ∀ b ∈ bs, BranchRead label c b
  | _, _, _, _, _, _, .done _, b, hb => by cases hb
  | _, _, c, _, _, _, .next hright hhead hss hbs, b, hb => by
    rcases List.mem_cons.1 hb with rfl | hb
    · exact ⟨_, c.layout, _, _, _, _, _, le_layout c, hright, hhead, rfl, hss⟩
    · exact (hbs.branchRead b hb).mono
        ((le_layout c).trans ((branchHead_lt hhead).le.trans hss.read.le))

theorem StepsNested.branchRead : ∀ {levels : Nat} {label : Option Nat} {c d : Cursor}
    {ss : Pipeline} {rs : List SyntaxReport}, StepsNested levels label c ss rs d →
      ∀ s ∈ ss, ∀ b ∈ s.branches, BranchRead label c b
  | _, _, _, _, _, _, .done _, s, hs => by cases hs
  | _, _, c, _, _, _, .next hright hs hss, t, ht => by
    intro b hb
    rcases List.mem_cons.1 ht with rfl | ht
    · cases hs with
      | call harrow hcall =>
        obtain ⟨name, next, colon, value, span, -, -, -, rfl⟩ := call_spec hcall
        cases hb
      | tooDeep harrow hword => cases hb
      | result harrow hword hbs =>
        exact (hbs.branchRead b hb).mono
          ((le_layout c).trans ((arrow_lt harrow).trans (resultWord_lt hword)).le)
    · exact (hss.branchRead t ht b hb).mono ((le_layout c).trans hs.read.lt.le)

/-- Whatever branches are inside the steps are read right of the label that owns the steps. -/
theorem StepsNested.branchRead_of_mem {ss : Pipeline} (h : StepsNested levels label c ss rs d)
    {b : Branch} (hb : b ∈ ss.branches) : BranchRead label c b := by
  simp only [Pipeline.branches, List.mem_flatMap] at hb
  obtain ⟨q, hq, s, hs, hb⟩ := hb
  obtain ⟨levels', inner, e, rs', f, -, howns, he, -, hread⟩ := h.all q hq
  obtain ⟨k, head, name, digits, colon, rs'', g, hhead, hright, hbranch⟩ := hread.branchRead s hs b hb
  exact ⟨k, head, name, digits, colon, rs'', g, he.trans hhead, howns head hright, hbranch⟩

/-- Each step starts right of the label that owns it. -/
theorem StepsNested.starts : ∀ {levels : Nat} {label : Option Nat} {c d : Cursor}
    {ss : Pipeline} {rs : List SyntaxReport}, StepsNested levels label c ss rs d →
      ∀ s ∈ ss, ∃ e, c ≤ e ∧ isRightOf label e = true ∧ s.span.start = e.offset
  | _, _, _, _, _, _, .done _, s, hs => by cases hs
  | _, _, c, _, _, _, .next hright hs hss, t, ht => by
    rcases List.mem_cons.1 ht with rfl | ht
    · exact ⟨c.layout, le_layout c, hright, by rw [hs.read.span_eq]⟩
    · obtain ⟨e, he, hright, hstart⟩ := hss.starts t ht
      exact ⟨e, (le_layout c).trans (hs.read.lt.le.trans he), hright, hstart⟩

/-- Reading ends behind the last step, where no step of the same owner follows. -/
theorem StepsNested.stops : ∀ {levels : Nat} {label : Option Nat} {c d : Cursor}
    {ss : Pipeline} {rs : List SyntaxReport}, StepsNested levels label c ss rs d →
      d.offset = (ss.getLast?.map (·.span.stop)).getD c.offset ∧
        (isRightOf label d.layout = true → ∀ inner owner, step inner owner d.layout = none)
  | _, _, _, _, _, _, .done hstop => ⟨rfl, hstop⟩
  | _, _, _, _, s :: ss, _, .next hright hs hss => by
    obtain ⟨hoffset, hstop⟩ := hss.stops
    refine ⟨?_, hstop⟩
    rw [hoffset, List.getLast?_cons]
    cases ss.getLast? with
    | none => simp [hs.read.span_eq]
    | some t => rfl

theorem branchRead_of_mem_branches {text : List Char} {b : Branch}
    (h : b ∈ (parse text).program.branches) : ∃ label, BranchRead label (start 0 text) b := by
  obtain ⟨body, hbody, q, hq, s, hs, hb⟩ := mem_branches h
  obtain ⟨c, rs, d, hc, hread⟩ := mem_bodies hbody
  obtain ⟨levels, label, e, rs', f, -, -, he, -, hread⟩ := hread.all q hq
  exact ⟨label, (hread.branchRead s hs b hb).mono (hc.trans he)⟩

/-- A branch that is read behind a cursor of the document has its head there. -/
theorem BranchRead.headStands {text : List Char} {b : Branch} (hc : start 0 text ≤ c)
    (h : BranchRead label c b) :
    ∃ head, b.HeadStands text head ∧ ∃ e colon levels rs d, start 0 text ≤ e ∧ e ≤ colon ∧
      head = ⟨e.offset, colon.offset⟩ ∧ isRightOf label e = true ∧
      StepsNested levels (some e.column) colon b.steps rs d := by
  obtain ⟨levels, e, name, digits, colon, rs, d, he, hright, hhead, hb, hsteps⟩ := h
  refine ⟨_, ?_, e, colon, levels, rs, d, hc.trans he, (branchHead_lt hhead).le, rfl, hright, hsteps⟩
  rw [hb]
  exact branchHead_stands (hc.trans he) hhead _ _

/-- **A branch owns exactly what stands right of its label.** For every document, each branch of the
program has its head in one place. With the column of the label there, counted in bytes from the
start of the line: every step of the branch starts at a greater column, and so does the label of
every branch inside these steps, at any depth; and behind the steps, layout skipped, there is no step
to be read at a greater column, whatever its owner. -/
theorem branches_own (text : List Char) :
    (∀ b ∈ (parse text).program.branches, ∃! head, b.HeadStands text head) ∧
    ∀ b ∈ (parse text).program.branches, ∀ head, b.HeadStands text head →
      (∀ s ∈ b.steps, columnAt text head.start < columnAt text s.span.start) ∧
      (∀ b' ∈ b.steps.branches, ∃ head', b'.HeadStands text head' ∧
        columnAt text head.start < columnAt text head'.start) ∧
      (columnAt text head.start < columnAt text (cursorAt text (b.stop head)).layout.offset →
        ∀ inner label, step inner label (cursorAt text (b.stop head)).layout = none) := by
  constructor
  · intro b hb
    obtain ⟨label, hread⟩ := branchRead_of_mem_branches hb
    obtain ⟨head, hhead, -⟩ := hread.headStands le_rfl
    exact ⟨head, hhead, fun _ hother => hother.unique hhead⟩
  · intro b hb head hhead
    obtain ⟨label, hread⟩ := branchRead_of_mem_branches hb
    obtain ⟨_, hfound, e, colon, levels, rs, d, he, hcolon, rfl, -, hsteps⟩ :=
      hread.headStands le_rfl
    obtain rfl := hhead.unique hfound
    have hd : start 0 text ≤ d := he.trans (hcolon.trans hsteps.read.le)
    -- the label's column is that of the cursor where the head was read
    have hright {x : Cursor} (hx : start 0 text ≤ x) :
        isRightOf (some e.column) x = true ↔ columnAt text e.offset < columnAt text x.offset := by
      rw [columnAt_offset he, columnAt_offset hx]
      simp [isRightOf]
    refine ⟨fun s hs => ?_, fun b' hb' => ?_, ?_⟩
    · obtain ⟨x, hx, hxright, hstart⟩ := hsteps.starts s hs
      rw [hstart]
      exact (hright (he.trans (hcolon.trans hx))).1 hxright
    · obtain ⟨head', hhead', x, colon', levels', rs', d', hx, -, rfl, hxright, -⟩ :=
        (hsteps.branchRead_of_mem hb').headStands (he.trans hcolon)
      exact ⟨_, hhead', (hright hx).1 hxright⟩
    · obtain ⟨hoffset, hstop⟩ := hsteps.stops
      rw [Branch.stop, ← hoffset, cursorAt_offset hd]
      exact fun hcolumn => hstop ((hright (hd.trans (le_layout d))).2 hcolumn)

/-- The last step stands in the column of the label, so the branch leaves it to the route. -/
example :
    let program := (parse "GET /a\n |> result\n  ok(200): |> a: x\n   |> b: y\n  |> c: z".toList).program
    program.branches.map (·.steps.length) = [2] ∧ program.bodies.map List.length = [2] := by
  decide +kernel

end Grammar
end PipelineLang
