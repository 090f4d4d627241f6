import Mathlib.Data.List.TakeWhile
import PipelineLang.Proofs.Reference.Search
import PipelineLang.Reference.Scan

/-!
# Shapes of references

What each of the five shapes matches ends with a name, apart from the word behind a mock. The text
up to that name tells the shapes apart: behind `|> type:` it ends with a colon, behind `with mock
type.` with a dot, and before the other names stand two words, of which the first is `executing`,
`variable` or `mock` (`clue`). Hence no two matches, of one shape or of two, have the same name, and
the spans of the references of a text are distinct (`scan_nodup`).
-/

namespace PipelineLang

open Cursor

/-! ## Clues -/

/-- The characters are blanks of a line, at least one. -/
def IsBlanks (cs : List Char) : Prop := cs ≠ [] ∧ ∀ x ∈ cs, Blank.isInline x = true

/-- The characters are those of an identifier, at least one. -/
def IsWord (cs : List Char) : Prop := cs ≠ [] ∧ ∀ x ∈ cs, isIdentChar x = true

instance (cs : List Char) : Decidable (IsWord cs) :=
  decidable_of_iff (cs.isEmpty = false ∧ cs.all isIdentChar = true)
    (and_congr List.isEmpty_eq_false_iff List.all_eq_true)

theorem IsIdentifier.isWord {name : String} (h : IsIdentifier name) : IsWord name.toList := by
  refine ⟨fun hnil => ?_, h.2⟩
  have := h.1
  rw [hnil] at this
  cases this

theorem IsBlanks.reverse {bs : List Char} (h : IsBlanks bs) : IsBlanks bs.reverse := by
  simpa [IsBlanks] using h

theorem IsWord.reverse {w : List Char} (h : IsWord w) : IsWord w.reverse := by
  simpa [IsWord] using h

theorem IsWord.not_isInline {w : List Char} (h : IsWord w) : ∀ x ∈ w, Blank.isInline x = false :=
  fun x hx => not_isInline_of_isIdentChar (h.2 x hx)

namespace Reference

/-- What a text ends with when the blanks behind it are left out: a colon, a dot, or else the word
before its last one, backwards. -/
def clue (front : List Char) : List Char :=
  let back := front.reverse.dropWhile Blank.isInline
  if back.head? = some ':' then [':']
  else if back.head? = some '.' then ['.']
  else ((back.dropWhile (!Blank.isInline ·)).dropWhile Blank.isInline).takeWhile (!Blank.isInline ·)

theorem clue_mark (front : List Char) {m : Char} {bs : List Char} (hm : m = ':' ∨ m = '.')
    (hbs : ∀ x ∈ bs, Blank.isInline x = true) : clue (front ++ m :: bs) = [m] := by
  have hnot : Blank.isInline m = false := by
    rcases hm with rfl | rfl
    · rfl
    · rfl
  have hback : (front ++ m :: bs).reverse.dropWhile Blank.isInline = m :: front.reverse := by
    rw [List.reverse_append, List.reverse_cons, List.append_assoc,
      List.dropWhile_append_of_pos (by simpa using hbs)]
    exact List.dropWhile_cons_of_neg (by simp [hnot])
  simp only [clue, hback, List.head?_cons]
  rcases hm with rfl | rfl
  · rfl
  · rfl

section
variable {p : Char → Bool} {xs ys : List Char}

theorem dropWhile_run (hxs : ∀ x ∈ xs, p x = true) (hne : ys ≠ []) (hys : ∀ y ∈ ys, p y = false)
    (zs : List Char) : (xs ++ (ys ++ zs)).dropWhile p = ys ++ zs := by
  rw [List.dropWhile_append_of_pos hxs]
  cases ys with
  | nil => exact absurd rfl hne
  | cons y ys => exact List.dropWhile_cons_of_neg (by simp [hys y List.mem_cons_self])

theorem takeWhile_run (hxs : ∀ x ∈ xs, p x = true) (hne : ys ≠ []) (hys : ∀ y ∈ ys, p y = false)
    (zs : List Char) : (xs ++ (ys ++ zs)).takeWhile p = xs := by
  rw [List.takeWhile_append_of_pos hxs]
  cases ys with
  | nil => exact absurd rfl hne
  | cons y ys =>
    rw [List.cons_append, List.takeWhile_cons_of_neg (by simp [hys y List.mem_cons_self]),
      List.append_nil]

end

/-- Behind a word the clue is the word before it. -/
theorem clue_behind_word (front : List Char) {w bs : List Char} (hw : IsWord w)
    (hbs : ∀ x ∈ bs, Blank.isInline x = true) :
    clue (front ++ (w ++ bs)) = ((front.reverse.dropWhile (!Blank.isInline ·)).dropWhile
      Blank.isInline).takeWhile (!Blank.isInline ·) := by
  have hreverse : (front ++ (w ++ bs)).reverse = bs.reverse ++ (w.reverse ++ front.reverse) := by
    simp only [List.reverse_append, List.append_assoc]
  have hback := dropWhile_run (fun x hx => hbs x (List.mem_reverse.1 hx)) hw.reverse.1
    hw.reverse.not_isInline front.reverse
  have hhead : ∀ x, isIdentChar x = false → (w.reverse ++ front.reverse).head? ≠ some x := by
    intro x hx hhead
    rw [List.head?_append_of_ne_nil _ hw.reverse.1] at hhead
    rw [hw.reverse.2 x (List.mem_of_head? hhead)] at hx
    cases hx
  rw [clue, hreverse]
  simp only [hback, if_neg (hhead ':' (by decide)), if_neg (hhead '.' (by decide))]
  rw [List.dropWhile_append_of_pos]
  exact fun x hx => by rw [hw.reverse.not_isInline x hx]; rfl

/-- Before the last of two words and the blanks behind it stands the first one. -/
theorem clue_words (front : List Char) {bs₀ w₁ bs₁ w₂ bs₂ : List Char} (h₀ : IsBlanks bs₀)
    (hw₁ : IsWord w₁) (h₁ : IsBlanks bs₁) (hw₂ : IsWord w₂) (h₂ : IsBlanks bs₂) :
    clue (front ++ (bs₀ ++ w₁ ++ bs₁ ++ w₂ ++ bs₂)) = w₁.reverse := by
  have hreverse : (front ++ (bs₀ ++ (w₁ ++ bs₁))).reverse
      = bs₁.reverse ++ (w₁.reverse ++ (bs₀.reverse ++ front.reverse)) := by
    simp only [List.reverse_append, List.append_assoc]
  have hinline {bs : List Char} (h : IsBlanks bs) : ∀ x ∈ bs, (!Blank.isInline x) = false :=
    fun x hx => by rw [h.2 x hx]; rfl
  have hword : ∀ x ∈ w₁.reverse, (!Blank.isInline x) = true :=
    fun x hx => by rw [hw₁.reverse.not_isInline x hx]; rfl
  have hback := dropWhile_run (fun x (hx : x ∈ []) => nomatch hx) h₁.reverse.1 (hinline h₁.reverse)
    (w₁.reverse ++ (bs₀.reverse ++ front.reverse))
  have hclue := clue_behind_word (front ++ (bs₀ ++ (w₁ ++ bs₁))) hw₂ h₂.2
  rw [hreverse, ← List.nil_append (bs₁.reverse ++ _), hback,
    dropWhile_run h₁.reverse.2 hw₁.reverse.1 hw₁.reverse.not_isInline,
    takeWhile_run hword h₀.reverse.1 (hinline h₀.reverse)] at hclue
  simpa only [List.append_assoc] using hclue

/-- Before a single word nothing stands. -/
theorem clue_word {bs w bs' : List Char} (hbs : ∀ x ∈ bs, Blank.isInline x = true) (hw : IsWord w)
    (h : IsBlanks bs') : clue (bs ++ w ++ bs') = [] := by
  rw [List.append_assoc, clue_behind_word bs hw h.2]
  have hdrop : ((bs.reverse.dropWhile (!Blank.isInline ·)).dropWhile Blank.isInline) = [] := by
    refine List.dropWhile_eq_nil_iff.2 fun x hx => hbs x ?_
    exact List.mem_reverse.1 ((List.dropWhile_suffix _).subset hx)
  rw [hdrop, List.takeWhile_nil]

/-! ## Readers of blanks -/

variable {b c d : Cursor}

theorem blanks_spec (c : Cursor) :
    ∃ bs, Between c bs c.blanks ∧ ∀ x ∈ bs, Blank.isInline x = true :=
  ⟨_, blanks_between c, List.all_eq_true.1 List.all_takeWhile⟩

theorem someBlanks_spec (h : c.someBlanks = some d) : ∃ bs, Between c bs d ∧ IsBlanks bs := by
  obtain ⟨bs, hbs, hall⟩ := blanks_spec c
  have hlt := someBlanks_lt h
  rw [someBlanks] at h
  split at h
  · cases h
  · split at h
    · cases h
      refine ⟨bs, hbs, ?_, hall⟩
      rintro rfl
      exact lt_irrefl _ (hbs.2 ▸ hlt)
    · cases h

theorem spaced_spec {word : List Char} (h : spaced word c = some d) :
    ∃ bs, Between c (word ++ bs) d ∧ IsBlanks bs := by
  obtain ⟨next, hword, hblanks⟩ := Option.bind_eq_some_iff.1 h
  obtain ⟨bs, hbs, hall⟩ := someBlanks_spec hblanks
  exact ⟨bs, (chars_between hword).trans hbs, hall⟩

/-! ## Matches -/

/-- The type in a key, if it has one, is an identifier. -/
def IsTyped : SymbolKey → Prop
  | .pipeline _ => True
  | .typed kind _ => IsIdentifier kind

/-- What the shape matches goes on at least to the end of a name, which the reference spans, and the
text up to that name has the clue. -/
def NamesBehind (mark : List Char) (shape : Cursor → Option (Reference × Cursor)) : Prop :=
  ∀ c r d, shape c = some (r, d) → ∃ run x n y, Between c run x ∧ x.identifier = some (n, y) ∧
    y ≤ d ∧ r.span = n.span ∧ IsTyped r.key ∧ ∀ front, clue (front ++ run) = mark

/-- What stands between the start of a step and what its type is bound to. -/
theorem stepHead_between {arrow next colon : Cursor} {kind : Token}
    (harrow : c.chars ['|', '>'] = some arrow) (hkind : arrow.blanks.identifier = some (kind, next))
    (hcolon : next.blanks.char ':' = some colon) :
    ∃ bs₀ bs₁ bs₂, (∀ x ∈ bs₀, Blank.isInline x = true) ∧ (∀ x ∈ bs₁, Blank.isInline x = true) ∧
      (∀ x ∈ bs₂, Blank.isInline x = true) ∧ IsIdentifier kind.text ∧
      Between c ('|' :: '>' :: (bs₀ ++ (kind.text.toList ++ (bs₁ ++ ':' :: bs₂)))) colon.blanks := by
  obtain ⟨bs₀, h₀, hbs₀⟩ := blanks_spec arrow
  obtain ⟨hkind, -, hidentifier, -⟩ := identifier_spec hkind
  obtain ⟨bs₁, h₁, hbs₁⟩ := blanks_spec next
  obtain ⟨bs₂, h₂, hbs₂⟩ := blanks_spec colon
  exact ⟨bs₀, bs₁, bs₂, hbs₀, hbs₁, hbs₂, hidentifier, (chars_between harrow).trans <| h₀.trans <|
    hkind.trans <| h₁.trans <| (char_between hcolon).trans h₂⟩

/-- A step up to its name, and the name. -/
theorem stepShape_spec {r : Reference} (h : stepShape c = some (r, d)) :
    ∃ run x kind n, Between c ('|' :: run) x ∧ '|' ∉ run ∧ x.identifier = some (n, d) ∧
      IsIdentifier kind ∧ r = ofStep kind n ∧ ∀ front, clue (front ++ '|' :: run) = [':'] := by
  simp only [stepShape, bind, Option.bind_eq_some_iff] at h
  obtain ⟨arrow, harrow, ⟨kind, next⟩, hkind, colon, hcolon, ⟨n, last⟩, hname, heq⟩ := h
  cases heq
  obtain ⟨bs₀, bs₁, bs₂, hbs₀, hbs₁, hbs₂, hidentifier, hrun⟩ := stepHead_between harrow hkind hcolon
  refine ⟨_, colon.blanks, kind.text, n, hrun, ?_, hname, hidentifier, rfl, fun front => ?_⟩
  · have hblank {bs : List Char} (hbs : ∀ x ∈ bs, Blank.isInline x = true) : '|' ∉ bs :=
      fun hmem => Bool.false_ne_true (hbs '|' hmem)
    have hword : '|' ∉ kind.text.toList :=
      fun hmem => absurd (hidentifier.2 '|' hmem) (by decide)
    simp [hblank hbs₀, hblank hbs₁, hblank hbs₂, hword]
  · have := clue_mark (front ++ '|' :: '>' :: (bs₀ ++ kind.text.toList ++ bs₁)) (Or.inl rfl) hbs₂
    simpa using this

theorem namesBehind_step : NamesBehind [':'] stepShape := by
  intro c r d h
  obtain ⟨run, x, kind, n, hrun, -, hname, hkind, rfl, hclue⟩ := stepShape_spec h
  refine ⟨_, x, n, d, hrun, hname, le_rfl, ?_, ?_, hclue⟩
  · unfold ofStep
    split
    · rfl
    · rfl
  · unfold ofStep
    split
    · trivial
    · exact hkind

/-- The words of a test before what it runs. -/
theorem whenExecuting_spec {word : List Char} (h : whenExecuting word c = some d) :
    ∃ bs₀ bs₁ bs₂, IsBlanks bs₀ ∧ IsBlanks bs₁ ∧ IsBlanks bs₂ ∧
      Between c ("when".toList ++ (bs₀ ++ "executing".toList ++ bs₁ ++ word ++ bs₂)) d := by
  simp only [whenExecuting, bind] at h
  split at h
  · simp only [Option.bind_eq_some_iff] at h
    obtain ⟨first, hwhen, second, hexecuting, hword⟩ := h
    obtain ⟨bs₀, h₀, hbs₀⟩ := spaced_spec hwhen
    obtain ⟨bs₁, h₁, hbs₁⟩ := spaced_spec hexecuting
    obtain ⟨bs₂, h₂, hbs₂⟩ := spaced_spec hword
    refine ⟨bs₀, bs₁, bs₂, hbs₀, hbs₁, hbs₂, ?_⟩
    simpa only [List.append_assoc] using h₀.trans (h₁.trans h₂)
  · cases h

/-- The words before what a test mocks. -/
theorem withMock_spec (h : withMock c = some d) :
    ∃ word bs₀ bs₁, (word = "with".toList ∨ word = "and".toList) ∧ IsBlanks bs₀ ∧ IsBlanks bs₁ ∧
      Between c (word ++ (bs₀ ++ "mock".toList ++ bs₁)) d := by
  simp only [withMock, bind] at h
  split at h
  · simp only [Option.bind_eq_some_iff] at h
    obtain ⟨word, hword, mock, hmock, hspaced⟩ := h
    obtain ⟨lead, hlead, hbetween⟩ :
        ∃ lead, (lead = "with".toList ∨ lead = "and".toList) ∧ Between c lead word := by
      rcases Option.or_eq_some_iff.1 hword with hword | ⟨-, hword⟩
      · exact ⟨_, Or.inl rfl, chars_between hword⟩
      · exact ⟨_, Or.inr rfl, chars_between hword⟩
    obtain ⟨bs₀, h₀, hbs₀⟩ := someBlanks_spec hmock
    obtain ⟨bs₁, h₁, hbs₁⟩ := spaced_spec hspaced
    refine ⟨lead, bs₀, bs₁, hlead, hbs₀, hbs₁, ?_⟩
    simpa only [List.append_assoc] using hbetween.trans (h₀.trans h₁)
  · cases h

theorem thenReturning_spec (h : thenReturning c = some d) :
    ∃ word, c.someBlanks = some word ∧ word.chars "returning".toList = some d := by
  simp only [thenReturning, bind, Option.bind_eq_some_iff] at h
  obtain ⟨word, hword, last, hlast, h⟩ := h
  split at h
  · cases h
    exact ⟨word, hword, hlast⟩
  · cases h

theorem thenReturning_le (h : thenReturning c = some d) : c ≤ d := by
  obtain ⟨word, hword, hlast⟩ := thenReturning_spec h
  exact (someBlanks_lt hword).le.trans (chars_le hlast)

theorem namesBehind_whenPipeline : NamesBehind "executing".toList.reverse whenPipelineShape := by
  intro c r d h
  simp only [whenPipelineShape, bind, Option.bind_eq_some_iff] at h
  obtain ⟨x, hx, ⟨n, last⟩, hname, heq⟩ := h
  cases heq
  obtain ⟨bs₀, bs₁, bs₂, h₀, h₁, h₂, hrun⟩ := whenExecuting_spec hx
  refine ⟨_, x, n, _, hrun, hname, le_rfl, rfl, trivial, fun front => ?_⟩
  rw [← List.append_assoc]
  exact clue_words _ h₀ (by decide) h₁ (by decide) h₂

theorem namesBehind_whenVariable : NamesBehind "variable".toList.reverse whenVariableShape := by
  intro c r d h
  simp only [whenVariableShape, bind, Option.bind_eq_some_iff] at h
  obtain ⟨first, hfirst, ⟨kind, next⟩, hkind, x, hx, ⟨n, last⟩, hname, heq⟩ := h
  cases heq
  obtain ⟨bs₀, bs₁, bs₂, h₀, h₁, h₂, hrun⟩ := whenExecuting_spec hfirst
  obtain ⟨hbetween, -, hidentifier, -⟩ := identifier_spec hkind
  obtain ⟨bs₃, hbs₃, h₃⟩ := someBlanks_spec hx
  refine ⟨_, x, n, _, hrun.trans (hbetween.trans hbs₃), hname, le_rfl, rfl, hidentifier,
    fun front => ?_⟩
  have := clue_words (front ++ ("when".toList ++ (bs₀ ++ "executing".toList))) h₁
    (by decide : IsWord "variable".toList) h₂ hidentifier.isWord h₃
  simpa only [List.append_assoc] using this

theorem namesBehind_mockPipeline : NamesBehind "mock".toList.reverse mockPipelineShape := by
  intro c r d h
  simp only [mockPipelineShape, bind, Option.bind_eq_some_iff] at h
  obtain ⟨first, hfirst, x, hx, ⟨n, next⟩, hname, last, hlast, heq⟩ := h
  cases heq
  obtain ⟨pre, bs₀, bs₁, -, h₀, h₁, hrun⟩ := withMock_spec hfirst
  obtain ⟨bs₂, hbs₂, h₂⟩ := spaced_spec hx
  refine ⟨_, x, n, next, hrun.trans hbs₂, hname, thenReturning_le hlast, rfl, trivial,
    fun front => ?_⟩
  have := clue_words (front ++ pre) h₀ (by decide : IsWord "mock".toList) h₁
    (by decide : IsWord "pipeline".toList) h₂
  simpa only [List.append_assoc] using this

theorem namesBehind_mockVariable : NamesBehind ['.'] mockVariableShape := by
  intro c r d h
  simp only [mockVariableShape, bind, Option.bind_eq_some_iff] at h
  obtain ⟨first, hfirst, ⟨kind, next⟩, hkind, x, hx, ⟨n, behind⟩, hname, last, hlast, heq⟩ := h
  cases heq
  obtain ⟨pre, bs₀, bs₁, -, -, -, hrun⟩ := withMock_spec hfirst
  obtain ⟨hbetween, -, hidentifier, -⟩ := identifier_spec hkind
  refine ⟨_, x, n, behind, hrun.trans (hbetween.trans (char_between hx)), hname,
    thenReturning_le hlast, rfl, hidentifier, fun front => ?_⟩
  have := clue_mark (front ++ (pre ++ (bs₀ ++ ("mock".toList ++ (bs₁ ++ kind.text.toList)))))
    (Or.inr rfl) (List.forall_mem_nil _)
  simpa only [List.append_assoc] using this

/-! ## Distinct places -/

variable {text : List Char} {mark : List Char} {shape : Cursor → Option (Reference × Cursor)}
  {r r' : Reference}

/-- The name of the reference stands in the text, behind a front with the clue. -/
def StandsBehind (text mark : List Char) (r : Reference) : Prop :=
  ∃ front x, Between (start 0 text) front x ∧ r.span.start = x.offset ∧ clue front = mark

/-- What stands before a place has one clue. -/
theorem StandsBehind.unique {mark' : List Char} (h : StandsBehind text mark r)
    (h' : StandsBehind text mark' r') (hstart : r.span.start = r'.span.start) : mark = mark' := by
  obtain ⟨front, x, hrun, hx, rfl⟩ := h
  obtain ⟨front', x', hrun', hx', rfl⟩ := h'
  have heq : x = x' := eq_of_offset_eq hrun.le hrun'.le (by omega)
  subst heq
  rw [hrun.run_eq hrun']

namespace NamesBehind

theorem moves (h : NamesBehind mark shape) : Moves shape := by
  intro c r d hmatch
  obtain ⟨run, x, n, y, hrun, hname, hy, -, -, -⟩ := h c r d hmatch
  exact hrun.le.trans_lt ((identifier_lt hname).trans_le hy)

/-- A reference spans a part of what was matched, and not an empty one. -/
theorem bounds (h : NamesBehind mark shape) (hmatch : shape c = some (r, d)) :
    c.offset ≤ r.span.start ∧ r.span.start < r.span.stop ∧ r.span.stop ≤ d.offset := by
  obtain ⟨run, x, n, y, hrun, hname, hy, hspan, -, -⟩ := h c r d hmatch
  obtain ⟨-, hn, -, -⟩ := identifier_spec hname
  rw [hspan, hn]
  exact ⟨offset_le hrun.le, offset_lt (identifier_lt hname), offset_le hy⟩

theorem standsBehind (h : NamesBehind mark shape) (hc : start 0 text ≤ c)
    (hmatch : shape c = some (r, d)) : StandsBehind text mark r := by
  obtain ⟨run, x, n, y, hrun, hname, -, hspan, -, hclue⟩ := h c r d hmatch
  obtain ⟨front, hfront⟩ := exists_run hc
  obtain ⟨-, hn, -, -⟩ := identifier_spec hname
  exact ⟨front ++ run, x, hfront.trans hrun, by rw [hspan, hn], hclue front⟩

/-- The names in the matches of one search stand one behind the other. -/
theorem pairwise (h : NamesBehind mark shape) (c : Cursor) :
    (matching shape c).Pairwise fun r r' => r.span.start < r'.span.start := by
  refine List.pairwise_map.2 ((pairwise_searchAll h.moves c).imp_of_mem ?_)
  intro m m' hm _ hbehind
  obtain ⟨b, -, hmatch⟩ := mem_searchAll h.moves c m hm
  obtain ⟨b', hle, hmatch'⟩ := hbehind
  have hbounds := h.bounds hmatch
  have hbounds' := h.bounds hmatch'
  have := offset_le hle
  omega

end NamesBehind

theorem matchingBare_sublist (shape : Cursor → Option (Reference × Cursor)) (c : Cursor) :
    (matchingBare shape c).Sublist (matching shape c) :=
  List.filter_sublist.map _

/-- The references stand at distinct places of the text, each behind a front with one of the clues,
and their types are identifiers. -/
structure Marked (text : List Char) (marks : List (List Char)) (rs : List Reference) : Prop where
  distinct : rs.Pairwise fun r r' => r.span.start ≠ r'.span.start
  stands : ∀ r ∈ rs, ∃ mark ∈ marks, StandsBehind text mark r
  typed : ∀ r ∈ rs, IsTyped r.key

namespace Marked

variable {marks marks' : List (List Char)} {rs rs' : List Reference}

theorem of_names (h : NamesBehind mark shape) (hsub : rs.Sublist (matching shape (start 0 text))) :
    Marked text [mark] rs where
  distinct := ((h.pairwise (start 0 text)).imp fun hlt => Nat.ne_of_lt hlt).sublist hsub
  stands := by
    intro r hr
    obtain ⟨m, hm, rfl⟩ := List.mem_map.1 (hsub.subset hr)
    obtain ⟨b, hb, hmatch⟩ := mem_searchAll h.moves (start 0 text) m hm
    exact ⟨mark, List.mem_singleton.2 rfl, h.standsBehind hb hmatch⟩
  typed := by
    intro r hr
    obtain ⟨m, hm, rfl⟩ := List.mem_map.1 (hsub.subset hr)
    obtain ⟨b, -, hmatch⟩ := mem_searchAll h.moves (start 0 text) m hm
    obtain ⟨run, x, n, y, -, -, -, -, htyped, -⟩ := h b m.1 m.2 hmatch
    exact htyped

theorem append (h : Marked text marks rs) (h' : Marked text marks' rs')
    (hdisjoint : ∀ mark ∈ marks, mark ∉ marks') : Marked text (marks ++ marks') (rs ++ rs') where
  distinct := by
    refine List.pairwise_append.2 ⟨h.distinct, h'.distinct, fun r hr r' hr' heq => ?_⟩
    obtain ⟨mark, hmark, hstands⟩ := h.stands r hr
    obtain ⟨mark', hmark', hstands'⟩ := h'.stands r' hr'
    exact hdisjoint mark hmark (hstands.unique hstands' heq ▸ hmark')
  stands := by
    intro r hr
    rcases List.mem_append.1 hr with hr | hr
    · obtain ⟨mark, hmark, hstands⟩ := h.stands r hr
      exact ⟨mark, List.mem_append_left _ hmark, hstands⟩
    · obtain ⟨mark, hmark, hstands⟩ := h'.stands r hr
      exact ⟨mark, List.mem_append_right _ hmark, hstands⟩
  typed := by
    intro r hr
    rcases List.mem_append.1 hr with hr | hr
    · exact h.typed r hr
    · exact h'.typed r hr

theorem perm (h : Marked text marks rs) (hperm : rs.Perm rs') : Marked text marks rs' where
  distinct := hperm.pairwise h.distinct fun h => h.symm
  stands := fun r hr => h.stands r (hperm.mem_iff.2 hr)
  typed := fun r hr => h.typed r (hperm.mem_iff.2 hr)

end Marked

/-- The clues of the five shapes. -/
def marks : List (List Char) :=
  [[':'], "executing".toList.reverse, "variable".toList.reverse, "mock".toList.reverse, ['.']]

theorem marked_scan (text : List Char) : Marked text marks (scan text) := by
  have hbare (shape : Cursor → Option (Reference × Cursor)) :=
    matchingBare_sublist shape (start 0 text)
  have hwhen := (Marked.of_names namesBehind_whenPipeline (hbare _)).append
    (Marked.of_names namesBehind_whenVariable (hbare _)) (by decide)
  have htests := (hwhen.append (Marked.of_names namesBehind_mockPipeline (List.Sublist.refl _))
    (by decide)).append (Marked.of_names namesBehind_mockVariable (List.Sublist.refl _)) (by decide)
  have hall := (Marked.of_names namesBehind_step (hbare _)).append htests (by decide)
  exact hall.perm (List.mergeSort_perm _ _).symm

/-- **No reference of a text is found twice.** -/
theorem scan_nodup (text : List Char) : ((scan text).map (·.span)).Nodup :=
  List.pairwise_map.2 <| (marked_scan text).distinct.imp fun h heq => h (congrArg Span.start heq)

end Reference
end PipelineLang
