import Mathlib.Data.List.Sort
import PipelineLang.Proofs.Grammar.Movement

/-!
# Every byte of a document is accounted for

The items of a document cut its text into gaps and items that alternate (`Tiling`): a gap is white
characters and comments, an item a declaration from its first to its last byte, or the text of a
line that starts none, up to the white characters at its end. Hence the spans of the declarations
and of the unrecognized lines are disjoint and in order, and what lies outside all of them is white
or a comment (`itemSpans_cover`).
-/

namespace PipelineLang

/-- Whether the report is of a line that starts no declaration. -/
def SyntaxReport.isUnrecognized (r : SyntaxReport) : Bool :=
  match r.fault with
  | .unrecognized _ => true
  | _ => false

namespace Grammar

open Cursor Utf8

variable {c d : Cursor}

/-! ## Tilings -/

/-- The text that stands at `offset` is made up of gaps and of items with the given spans; behind an
item there may be white characters. -/
inductive Tiling : Nat → List Char → List Span → Prop where
  | done {offset : Nat} {gap : List Char} (hgap : IsGap false gap) : Tiling offset gap []
  | item {offset : Nat} {gap body trail rest : List Char} {spans : List Span}
      (hgap : IsGap false gap) (htrail : ∀ x ∈ trail, Blank.isWhite x = true)
      (hmoves : body ++ trail ≠ [])
      (hrest : Tiling (offset + byteLength (gap ++ body ++ trail)) rest spans) :
      Tiling offset (gap ++ body ++ trail ++ rest)
        (⟨offset + byteLength gap, offset + byteLength (gap ++ body)⟩ :: spans)

/-- Whether a byte lies outside a span. -/
def Outside (spans : List Span) (byte : Nat) : Prop :=
  ∀ s ∈ spans, ¬(s.start ≤ byte ∧ byte < s.stop)

namespace Tiling

variable {offset : Nat} {text : List Char} {spans : List Span}

theorem bounds (h : Tiling offset text spans) :
    ∀ s ∈ spans, offset ≤ s.start ∧ s.start ≤ s.stop ∧ s.stop ≤ offset + byteLength text := by
  induction h with
  | done => exact nofun
  | item _ _ _ _ ih =>
    intro s hs
    simp only [byteLength_append] at ih ⊢
    rcases List.mem_cons.1 hs with rfl | hs
    · simp only [byteLength_append]
      omega
    · have := ih s hs
      omega

/-- The items are in order, and no two of them share a byte. -/
theorem pairwise (h : Tiling offset text spans) :
    spans.Pairwise fun s t => s.stop ≤ t.start ∧ s.start < t.start := by
  induction h with
  | done => exact List.Pairwise.nil
  | item _ _ hmoves hrest ih =>
    refine List.pairwise_cons.2 ⟨fun t ht => ?_, ih⟩
    have hstart := (hrest.bounds t ht).1
    have hpos := byteLength_pos hmoves
    simp only [byteLength_append] at hstart hpos ⊢
    omega

/-- A place in a text of two parts is in one of them. -/
theorem place_cases {front back l r : List Char} {x : Char} (h : l ++ r = front ++ x :: back) :
    (∃ back', l = front ++ x :: back') ∨
      ∃ front', front = l ++ front' ∧ r = front' ++ x :: back := by
  rcases List.append_eq_append_iff.1 h with ⟨m, hfront, hr⟩ | ⟨m, hl, hr⟩
  · exact Or.inr ⟨m, hfront, hr⟩
  · cases m with
    | nil => exact Or.inr ⟨[], by simpa using hl.symm, hr.symm⟩
    | cons y m =>
      rw [List.cons_append, List.cons.injEq] at hr
      exact Or.inl ⟨m, by rw [hl, hr.1]⟩

/-- A character of a gap before all spans is white, or of a comment that starts outside of them. -/
theorem cover_gap {gap front back : List Char} {x : Char} (hgap : IsGap false gap)
    (hspans : ∀ s ∈ spans, offset + byteLength gap ≤ s.start) (h : gap = front ++ x :: back) :
    Blank.isWhite x = true ∨ ∃ pre comment, front ++ [x] = pre ++ '#' :: comment ∧
      '\n' ∉ comment ∧ Outside spans (offset + byteLength pre) := by
  rcases hgap front x back h with hx | ⟨pre, comment, heq, hn⟩ | ⟨hfalse, -⟩
  · exact Or.inl hx
  · refine Or.inr ⟨pre, comment, heq, hn, fun s hs hin => ?_⟩
    have hpre : byteLength pre < byteLength gap := by
      rw [h, ← List.singleton_append, ← List.append_assoc, heq]
      have := Char.utf8Size_pos '#'
      simp only [byteLength_append, byteLength]
      omega
    have hstart := hspans s hs
    omega
  · cases hfalse

/-- A byte outside the items is of a white character, or of a comment that starts outside them. -/
theorem cover (h : Tiling offset text spans) :
    ∀ {front back : List Char} {x : Char} {byte : Nat}, text = front ++ x :: back →
      offset + byteLength front ≤ byte → byte < offset + byteLength front + x.utf8Size →
      Outside spans byte →
      Blank.isWhite x = true ∨ ∃ pre comment, front ++ [x] = pre ++ '#' :: comment ∧
        '\n' ∉ comment ∧ Outside spans (offset + byteLength pre) := by
  induction h with
  | done hgap =>
    intro front back x byte htext _ _ _
    exact cover_gap hgap (fun s hs => absurd hs List.not_mem_nil) htext
  | @item offset gap body trail rest spans hgap htrail hmoves hrest ih =>
    intro front back x byte htext hlo hhi hout
    rcases place_cases htext with ⟨back₁, h₁⟩ | ⟨front₁, rfl, h₁⟩
    · rcases place_cases h₁ with ⟨back₂, h₂⟩ | ⟨front₂, rfl, h₂⟩
      · rcases place_cases h₂ with ⟨back₃, h₃⟩ | ⟨front₃, rfl, h₃⟩
        · -- in the gap, before all items
          refine cover_gap hgap (fun s hs => ?_) h₃
          rcases List.mem_cons.1 hs with rfl | hs
          · exact Nat.le_refl _
          · have hstart := (hrest.bounds s hs).1
            simp only [byteLength_append] at hstart
            omega
        · -- in the item itself
          refine absurd ⟨?_, ?_⟩ (hout _ List.mem_cons_self)
          · simp only [byteLength_append] at hlo ⊢
            omega
          · simp only [h₃, byteLength_append, byteLength] at hhi ⊢
            omega
      · exact Or.inl (htrail x (by rw [h₂]; simp))
    · -- behind the item
      rw [byteLength_append] at hlo hhi
      rcases ih h₁ (by omega) (by omega) fun s hs => hout s (List.mem_cons_of_mem _ hs) with
        hx | ⟨pre, comment, heq, hn, hpre⟩
      · exact Or.inl hx
      · refine Or.inr ⟨gap ++ body ++ trail ++ pre, comment, ?_, hn, fun s hs hin => ?_⟩
        · rw [List.append_assoc, heq, ← List.append_assoc]
        · rw [byteLength_append] at hin
          rcases List.mem_cons.1 hs with rfl | hs
          · simp only [byteLength_append] at hin
            omega
          · exact hpre s hs (by omega)

end Tiling

/-! ## The items of a document -/

theorem config_span {v : Spanned Config} {rs : List SyntaxReport}
    (h : config c = some (v, rs, d)) : v.span = ⟨c.offset, d.offset⟩ := by
  simp only [config, bind, Option.bind_eq_some_iff] at h
  obtain ⟨word, -, behind, -, ⟨name, next⟩, -, inside, -, h⟩ := h
  split at h <;> cases h <;> rfl

/-- A declaration spans what was read of it. -/
theorem declaration_span {i : Item} (h : declaration c = some (i, d)) :
    i.span = ⟨c.offset, d.offset⟩ := by
  rcases declaration_cases h with ⟨v, rs, rfl, hr⟩ | ⟨v, rs, rfl, hr⟩ | ⟨v, rfl, hr⟩ |
    ⟨v, rs, rfl, hr⟩ | ⟨v, rs, rfl, hr⟩
  · exact config_span hr
  · simp only [namedPipeline, bind, Option.bind_eq_some_iff] at hr
    obtain ⟨word, -, ⟨name, equals⟩, -, heq⟩ := hr
    cases heq
    rfl
  · simp only [typedVariable, bind, Option.bind_eq_some_iff] at hr
    obtain ⟨⟨kind, next⟩, -, hr⟩ := hr
    split at hr
    · cases hr
    · simp only [Option.bind_eq_some_iff] at hr
      obtain ⟨⟨name, equals⟩, -, ⟨value, last⟩, -, heq⟩ := hr
      cases heq
      rfl
  · simp only [route, bind, Option.bind_eq_some_iff] at hr
    obtain ⟨⟨word, next⟩, -, pathStart, -, hr⟩ := hr
    split at hr
    · simp only [Option.bind_eq_some_iff] at hr
      obtain ⟨⟨path, behind⟩, -, heq⟩ := hr
      cases heq
      rfl
    · cases hr
  · simp only [suite, bind, Option.bind_eq_some_iff] at hr
    obtain ⟨word, -, ⟨name, next⟩, -, heq⟩ := hr
    cases heq
    rfl

/-- Between the cursor of an item and the one behind it are a gap, the item and white characters. -/
theorem item_parts {i : Item} (h : item c = some (i, d)) :
    ∃ gap body trail, c.rest = gap ++ body ++ trail ++ d.rest ∧
      d.offset = c.offset + byteLength (gap ++ body ++ trail) ∧
      i.span = ⟨c.offset + byteLength gap, c.offset + byteLength (gap ++ body)⟩ ∧
      IsGap false gap ∧ (∀ x ∈ trail, Blank.isWhite x = true) ∧ body ++ trail ≠ [] := by
  obtain ⟨gap, hrest, hskip, hgap, -⟩ := layout_spec c
  have hoffset : c.layout.offset = c.offset + byteLength gap := by
    rw [hskip, offset_skip, hrest, List.take_left]
  obtain ⟨hend, hread | ⟨-, hline⟩⟩ := item_cases h
  · have hlt := declaration_lt hread
    obtain ⟨body, hbody, hd, -⟩ := exists_between hlt.le
    refine ⟨gap, body, [], by rw [hrest, hbody]; simp, ?_, ?_, hgap, nofun, ?_⟩
    · simp only [byteLength_append, byteLength]
      omega
    · rw [declaration_span hread, hd, hoffset, byteLength_append, Nat.add_assoc]
    · rintro hnil
      rw [List.append_nil] at hnil
      have := offset_lt hlt
      rw [hd, hnil, byteLength] at this
      omega
  · cases hline
    obtain ⟨line, hline, hd, -⟩ := exists_between (le_lineEnd c.layout)
    have hlt := offset_lt (layout_lt_lineEnd hend)
    have hline' : line = c.layout.line :=
      List.append_cancel_right (hline.symm.trans (rest_lineEnd c.layout))
    obtain ⟨trail, htrail, hwhite⟩ := Blank.exists_trimEnd_append c.layout.line
    refine ⟨gap, Blank.trimEnd c.layout.line, trail, ?_, ?_, ?_, hgap, hwhite, ?_⟩
    · rw [hrest, hline, hline', List.append_assoc gap, ← htrail, List.append_assoc]
    · rw [List.append_assoc, ← htrail, ← hline', hd, hoffset, byteLength_append, Nat.add_assoc]
    · rw [Item.span, Span.ofLength, hoffset, byteLength_append, Nat.add_assoc]
    · rw [← htrail, ← hline']
      rintro rfl
      rw [byteLength] at hd
      omega

/-- The items read from a cursor on tile the text behind it, and reading ends where that ends. -/
theorem many_item_tiling (c : Cursor) :
    Tiling c.offset c.rest ((c.many item).1.map Item.span) ∧
      (c.many item).2.layout.atEnd = true := by
  refine many_induction
    (motive := fun c r => Tiling c.offset c.rest (r.1.map Item.span) ∧ r.2.layout.atEnd = true)
    (fun _ _ _ => item_lt) (fun c hstop => ?_) (fun c i d hread _ ih => ?_) c
  · have hend : c.layout.atEnd = true := by
      simp only [item] at hstop
      split at hstop
      · assumption
      · split at hstop <;> cases hstop
    obtain ⟨gap, hrest, -, hgap, -⟩ := layout_spec c
    rw [List.isEmpty_iff.1 hend, List.append_nil] at hrest
    exact ⟨hrest ▸ Tiling.done hgap, hend⟩
  · obtain ⟨gap, body, trail, hrest, hoffset, hspan, hgap, htrail, hmoves⟩ := item_parts hread
    refine ⟨?_, ih.2⟩
    rw [List.map_cons, hspan, hrest]
    exact Tiling.item hgap htrail hmoves (hoffset ▸ ih.1)

/-! ## What is reported inside declarations -/

/-- The faults that reading a pipeline can report. -/
def IsBranchFault : SyntaxFault → Prop
  | .invalidStatus _ | .nestedTooDeep _ => True
  | _ => False

/-- The faults that reading a configuration block or a test suite can report. -/
def IsBlockFault : SyntaxFault → Prop
  | .invalidProperty _ | .unclosedConfig _ | .missingWhen _ => True
  | _ => False

/-- A reader of pipelines that reports nothing but faults of branches. -/
def ReportsBranches (read : PipelineReader) : Prop := ∀ c, ∀ r ∈ (read c).2.1, IsBranchFault r.fault

theorem branch_reports {inner : Nat → PipelineReader}
    (hinner : ∀ label, ReportsBranches (inner label)) {b : Branch × List SyntaxReport}
    (h : branch inner c = some (b, d)) : ∀ r ∈ b.2, IsBranchFault r.fault := by
  simp only [branch, bind, Option.bind_eq_some_iff] at h
  obtain ⟨⟨label, next⟩, -, opening, -, h⟩ := h
  split at h
  · cases h
  · simp only [Option.bind_eq_some_iff] at h
    obtain ⟨closing, -, colon, -, heq⟩ := h
    cases heq
    intro r hr
    rcases List.mem_append.1 hr with hr | hr
    · simp only [statusReports] at hr
      split at hr
      · cases hr
      · rw [List.mem_singleton.1 hr]
        trivial
    · exact hinner _ colon r hr

theorem choice_reports {inner : Option (Nat → PipelineReader)}
    (honward : ∀ read ∈ inner, ∀ label, Onward (read label))
    (hinner : ∀ read ∈ inner, ∀ label, ReportsBranches (read label)) (label : Option Nat)
    (start : Nat) (c : Cursor) : ∀ r ∈ (choice inner label start c).1.2, IsBranchFault r.fault := by
  cases inner with
  | none =>
    intro r hr
    rw [List.mem_singleton.1 hr]
    trivial
  | some read =>
    intro r hr
    obtain ⟨b, hb, hr⟩ := List.mem_flatMap.1 hr
    obtain ⟨c', d', hread⟩ := mem_many (fun _ _ _ => ownedBranch_lt (honward read rfl)) c hb
    simp only [ownedBranch] at hread
    split at hread
    · exact branch_reports (hinner read rfl) hread r hr
    · cases hread

theorem reportsBranches_steps {inner : Option (Nat → PipelineReader)}
    (honward : ∀ read ∈ inner, ∀ label, Onward (read label))
    (hinner : ∀ read ∈ inner, ∀ label, ReportsBranches (read label)) (label : Option Nat) :
    ReportsBranches (steps inner label) := by
  intro c r hr
  obtain ⟨s, hs, hr⟩ := List.mem_flatMap.1 hr
  obtain ⟨c', d', hread⟩ := mem_many (fun _ _ _ => ownedStep_lt honward) c hs
  simp only [ownedStep] at hread
  split at hread
  · simp only [step, bind, Option.bind_eq_some_iff] at hread
    obtain ⟨arrow, -, hread⟩ := hread
    split at hread
    · next behind _ =>
      have hchoice := choice_reports honward hinner label c'.layout.offset behind
      rw [Option.some.inj hread] at hchoice
      exact hchoice r hr
    · obtain ⟨⟨t, last⟩, -, heq⟩ := Option.map_eq_some_iff.1 hread
      cases heq
      cases hr
  · cases hread

theorem reportsBranches_branchSteps (levels label : Nat) :
    ReportsBranches (branchSteps levels label) := by
  induction levels generalizing label with
  | zero =>
    refine reportsBranches_steps ?_ ?_ (some label)
    · rintro read ⟨⟩
    · rintro read ⟨⟩
  | succ levels ih =>
    refine reportsBranches_steps ?_ ?_ (some label)
    · rintro read ⟨⟩
      exact onward_branchSteps levels
    · rintro read ⟨⟩
      exact ih

theorem reportsBranches_pipeline : ReportsBranches pipeline := by
  refine reportsBranches_steps ?_ ?_ none
  · rintro read ⟨⟩
    exact onward_branchSteps (maxNesting - 1)
  · rintro read ⟨⟩
    exact reportsBranches_branchSteps (maxNesting - 1)

theorem not_isUnrecognized_of_isBranchFault {r : SyntaxReport} (h : IsBranchFault r.fault) :
    r.isUnrecognized = false := by
  obtain ⟨fault, span⟩ := r
  cases fault <;> first | rfl | exact h.elim

theorem not_isUnrecognized_of_isBlockFault {r : SyntaxReport} (h : IsBlockFault r.fault) :
    r.isUnrecognized = false := by
  obtain ⟨fault, span⟩ := r
  cases fault <;> first | rfl | exact h.elim

theorem config_reports {v : Spanned Config} {rs : List SyntaxReport}
    (h : config c = some (v, rs, d)) : ∀ r ∈ rs, IsBlockFault r.fault := by
  simp only [config, bind, Option.bind_eq_some_iff] at h
  obtain ⟨word, -, behind, -, ⟨name, next⟩, -, inside, -, h⟩ := h
  have hlines : ∀ r ∈ (inside.many configLine).1.filterMap ConfigLine.report?,
      IsBlockFault r.fault := by
    intro r hr
    obtain ⟨l, hl, hr⟩ := List.mem_filterMap.1 hr
    obtain ⟨c', d', hread⟩ := mem_many (fun _ _ _ => configLine_lt) inside hl
    simp only [configLine] at hread
    split at hread
    · cases hread
      cases hr
    · obtain ⟨⟨r', e⟩, hfault, heq⟩ := Option.map_eq_some_iff.1 hread
      cases heq
      cases hr
      simp only [faultyProperty, bind, Option.bind_eq_some_iff] at hfault
      obtain ⟨key, -, heq⟩ := hfault
      cases heq
      trivial
  split at h
  · cases h
    exact hlines
  · cases h
    intro r hr
    rcases List.mem_append.1 hr with hr | hr
    · exact hlines r hr
    · rw [List.mem_singleton.1 hr]
      trivial

theorem suite_reports {v : Spanned TestSuite} {rs : List SyntaxReport}
    (h : suite c = some (v, rs, d)) : ∀ r ∈ rs, IsBlockFault r.fault := by
  simp only [suite, bind, Option.bind_eq_some_iff] at h
  obtain ⟨word, -, ⟨name, next⟩, -, heq⟩ := h
  cases heq
  intro r hr
  obtain ⟨i, hi, hr⟩ := List.mem_filterMap.1 hr
  obtain ⟨c', d', hread⟩ := mem_many (fun _ _ _ => suiteItem_lt) next hi
  simp only [suiteItem] at hread
  split at hread
  · cases hread
    cases hr
  · split at hread
    · cases hread
      cases hr
    · next htest =>
      cases hread
      cases hr
      simp only [test, bind, Option.bind_eq_some_iff] at htest
      obtain ⟨word, -, ⟨name, next⟩, -, htest⟩ := htest
      split at htest
      · cases htest
      · cases htest
        trivial
    · cases hread

/-- Inside a declaration no line is reported as one that starts none. -/
theorem declaration_reports {i : Item} (h : declaration c = some (i, d)) :
    ∀ r ∈ i.reports, r.isUnrecognized = false := by
  rcases declaration_cases h with ⟨v, rs, rfl, hr⟩ | ⟨v, rs, rfl, hr⟩ | ⟨v, rfl, hr⟩ |
    ⟨v, rs, rfl, hr⟩ | ⟨v, rs, rfl, hr⟩
  · exact fun r hr' => not_isUnrecognized_of_isBlockFault (config_reports hr r hr')
  · simp only [namedPipeline, bind, Option.bind_eq_some_iff] at hr
    obtain ⟨word, -, ⟨name, equals⟩, -, heq⟩ := hr
    cases heq
    exact fun r hr => not_isUnrecognized_of_isBranchFault (reportsBranches_pipeline equals r hr)
  · intro r hr
    cases hr
  · simp only [route, bind, Option.bind_eq_some_iff] at hr
    obtain ⟨⟨word, next⟩, -, pathStart, -, hr⟩ := hr
    split at hr
    · simp only [Option.bind_eq_some_iff] at hr
      obtain ⟨⟨path, behind⟩, -, heq⟩ := hr
      cases heq
      exact fun r hr => not_isUnrecognized_of_isBranchFault (reportsBranches_pipeline behind r hr)
    · cases hr
  · exact fun r hr' => not_isUnrecognized_of_isBlockFault (suite_reports hr r hr')

/-! ## The items of a parse -/

namespace Parse

/-- The spans of all declarations, one kind after the other. -/
def declarationSpans (p : Parse) : List Span :=
  p.program.configs.map Spanned.span ++ p.program.pipelines.map Spanned.span
    ++ p.program.typedVariables.map Spanned.span ++ p.program.routes.map Spanned.span
    ++ p.program.suites.map Spanned.span

/-- The spans of the lines that are reported to start no declaration. -/
def unrecognizedSpans (p : Parse) : List Span :=
  (p.reports.filter SyntaxReport.isUnrecognized).map SyntaxReport.span

/-- The spans of all declarations and unrecognized lines, by their start. -/
def itemSpans (p : Parse) : List Span :=
  (p.declarationSpans ++ p.unrecognizedSpans).mergeSort fun s t => s.start ≤ t.start

end Parse

/-- The span of a line that starts no declaration. -/
def Item.unrecognizedSpan? : Item → Option Span
  | .unrecognized r => some r.span
  | _ => none

theorem item_reports {i : Item} (h : item c = some (i, d)) :
    (i.reports.filter SyntaxReport.isUnrecognized).map SyntaxReport.span
      = i.unrecognizedSpan?.toList := by
  obtain ⟨-, hread | ⟨-, hline⟩⟩ := item_cases h
  · rw [List.filter_eq_nil_iff.2 fun r hr => by simp [declaration_reports hread r hr]]
    rcases declaration_cases hread with ⟨v, rs, rfl, -⟩ | ⟨v, rs, rfl, -⟩ | ⟨v, rfl, -⟩ |
      ⟨v, rs, rfl, -⟩ | ⟨v, rs, rfl, -⟩ <;> rfl
  · cases hline
    rfl

/-- No report of a backtick is one of a line. -/
theorem filter_unclosedTick (text : List Char) :
    (unclosedTick text).filter SyntaxReport.isUnrecognized = [] := by
  refine List.filter_eq_nil_iff.2 fun r hr => ?_
  simp only [unclosedTick] at hr
  split at hr
  · split at hr
    · rw [List.mem_singleton.1 hr]
      exact Bool.false_ne_true
    · cases hr
  · cases hr

theorem unrecognizedSpans_parse (text : List Char) :
    (parse text).unrecognizedSpans = (items text).filterMap Item.unrecognizedSpan? := by
  have hread : ∀ is : List Item, (∀ i ∈ is, ∃ c d, item c = some (i, d)) →
      ((is.flatMap Item.reports).filter SyntaxReport.isUnrecognized).map SyntaxReport.span
        = is.filterMap Item.unrecognizedSpan? := by
    intro is his
    induction is with
    | nil => rfl
    | cons i is ih =>
      obtain ⟨c, d, hi⟩ := his i List.mem_cons_self
      rw [List.flatMap_cons, List.filter_append, List.map_append, item_reports hi,
        ih fun j hj => his j (List.mem_cons_of_mem _ hj)]
      cases hs : i.unrecognizedSpan? with
      | none => rw [List.filterMap_cons_none hs]; rfl
      | some s => rw [List.filterMap_cons_some hs]; rfl
  rw [Parse.unrecognizedSpans, parse, List.filter_append, filter_unclosedTick, List.append_nil]
  exact hread (items text) fun i hi => mem_many (fun _ _ _ => item_lt) _ hi

/-- The lists of a program and the unrecognized lines hold each item once. -/
theorem perm_itemSpans (is : List Item) :
    ((is.filterMap Item.asConfig?).map Spanned.span
      ++ (is.filterMap Item.asPipeline?).map Spanned.span
      ++ (is.filterMap Item.asVariable?).map Spanned.span
      ++ (is.filterMap Item.asRoute?).map Spanned.span
      ++ (is.filterMap Item.asSuite?).map Spanned.span
      ++ is.filterMap Item.unrecognizedSpan?).Perm (is.map Item.span) := by
  refine List.perm_iff_count.2 fun s => ?_
  induction is with
  | nil => rfl
  | cons i is ih =>
    simp only [List.count_append] at ih
    cases i <;>
      simp only [List.filterMap_cons, Item.asConfig?, Item.asPipeline?, Item.asVariable?,
        Item.asRoute?, Item.asSuite?, Item.unrecognizedSpan?, Item.span, List.map_cons,
        List.count_append, List.count_cons] <;>
      omega

/-- Sorted by start, the declarations and unrecognized lines are the items in the order read. -/
theorem itemSpans_parse (text : List Char) :
    (parse text).itemSpans = (items text).map Item.span := by
  have hsorted := (many_item_tiling (Cursor.start 0 text)).1.pairwise
  have hperm : (parse text).itemSpans.Perm ((items text).map Item.span) := by
    refine (List.mergeSort_perm _ _).trans ?_
    rw [unrecognizedSpans_parse]
    exact perm_itemSpans (items text)
  have hdistinct : (((items text).map Item.span).map Span.start).Nodup :=
    List.pairwise_map.2 (hsorted.imp fun h => Nat.ne_of_lt h.2)
  have hantisymm : ∀ s t, s ∈ (parse text).itemSpans → t ∈ (items text).map Item.span →
      s.start ≤ t.start → t.start ≤ s.start → s = t := by
    intro s t hs ht hst hts
    exact List.inj_on_of_nodup_map hdistinct (hperm.mem_iff.1 hs) ht (Nat.le_antisymm hst hts)
  refine hperm.eq_of_pairwise hantisymm ?_ ?_
  · exact List.pairwise_mergeSort' (Order.Preimage Span.start (· ≤ ·)) _
  · exact hsorted.imp fun h => Nat.le_of_lt h.2

/-- No two declarations share a byte. -/
theorem declarationSpans_apart (text : List Char) :
    (parse text).declarationSpans.Pairwise fun s t => s.stop ≤ t.start ∨ t.stop ≤ s.start := by
  have hitems : (parse text).itemSpans.Pairwise fun s t => s.stop ≤ t.start ∨ t.stop ≤ s.start := by
    rw [itemSpans_parse]
    exact (many_item_tiling (Cursor.start 0 text)).1.pairwise.imp fun hst => Or.inl hst.1
  have hparts := (List.mergeSort_perm _ _).pairwise hitems Or.symm
  exact (List.pairwise_append.1 hparts).1

/-- Declarations of one kind stand one behind the other. -/
theorem pairwise_declarations (text : List Char) {α : Type} {f : Item → Option (Spanned α)}
    (hf : ∀ i v, f i = some v → v.span = i.span) :
    ((items text).filterMap f).Pairwise fun v w => v.span.stop ≤ w.span.start := by
  have htiling := (many_item_tiling (Cursor.start 0 text)).1.pairwise
  refine (List.pairwise_map.1 htiling).filterMap f fun i j hij v hv w hw => ?_
  rw [hf i v hv, hf j w hw]
  exact hij.1

/-- A declaration is at least one byte long. -/
theorem declarationSpans_nonempty (text : List Char) :
    ∀ s ∈ (parse text).declarationSpans, s.start < s.stop := by
  have hitem : ∀ i ∈ items text, i.unrecognizedSpan? = none → i.span.start < i.span.stop := by
    intro i hi hnone
    obtain ⟨c, d, hread⟩ := mem_many (fun _ _ _ => item_lt) _ hi
    obtain ⟨-, hread | ⟨-, hline⟩⟩ := item_cases hread
    · rw [declaration_span hread]
      exact offset_lt (declaration_lt hread)
    · cases hline
      cases hnone
  intro s hs
  simp only [Parse.declarationSpans, parse, programOfItems, List.mem_append, List.mem_map,
    List.mem_filterMap] at hs
  obtain (((⟨v, ⟨i, hi, hv⟩, rfl⟩ | ⟨v, ⟨i, hi, hv⟩, rfl⟩) | ⟨v, ⟨i, hi, hv⟩, rfl⟩) |
    ⟨v, ⟨i, hi, hv⟩, rfl⟩) | ⟨v, ⟨i, hi, hv⟩, rfl⟩ := hs <;>
  · have hspan := hitem i hi
    cases i <;> cases hv
    exact hspan rfl

/-- **The parser loses and duplicates no text.** By their start, the spans of all
declarations and of all unrecognized lines are pairwise disjoint and within the text, and those of
declarations are not empty. Each byte outside all of them is of a white character, or of a comment
that opens outside all of them and has no line feed up to that byte. Each item moves the cursor
strictly forward, and reading stops at the end of the text only. -/
theorem itemSpans_cover (text : List Char) :
    (parse text).itemSpans.Pairwise (fun s t => s.stop ≤ t.start ∧ s.start < t.start) ∧
    (∀ s ∈ (parse text).itemSpans, s.start ≤ s.stop ∧ s.stop ≤ byteLength text) ∧
    (∀ s ∈ (parse text).declarationSpans, s.start < s.stop) ∧
    (∀ front x back byte, text = front ++ x :: back →
      byteLength front ≤ byte → byte < byteLength front + x.utf8Size →
      Outside (parse text).itemSpans byte →
      Blank.isWhite x = true ∨ ∃ pre comment, front ++ [x] = pre ++ '#' :: comment ∧
        '\n' ∉ comment ∧ Outside (parse text).itemSpans (byteLength pre)) ∧
    (∀ c i d, item c = some (i, d) → c.offset < d.offset) ∧
    ((Cursor.start 0 text).many item).2.layout.atEnd = true := by
  obtain ⟨htiling, hend⟩ := many_item_tiling (Cursor.start 0 text)
  have hbounds := htiling.bounds
  simp only [Cursor.start, Nat.zero_add] at hbounds
  rw [itemSpans_parse]
  refine ⟨htiling.pairwise, fun s hs => (hbounds s hs).2, declarationSpans_nonempty text, ?_,
    fun c i d hread => offset_lt (item_lt hread), hend⟩
  intro front x back byte htext hlo hhi hout
  have hcover := @Tiling.cover _ _ _ htiling front back x byte htext
  simp only [Cursor.start, Nat.zero_add] at hcover
  exact hcover hlo hhi hout

end Grammar
end PipelineLang
