import PipelineLang.Proofs.Template.Usages

/-!
# Tags of inline partials

What the text of a tag is, is stated apart from the reader of it (`InlineTag.Stands`); the reader
matches where such a text stands, and nowhere else (`inlineTag_iff`). The tags of a text are taken
from left to right, each as a whole (`Tagged`), and that is what a search finds (`tagged_iff`). No
tag starts inside a closing one, so a search for openings alone finds the same ones
(`searchAll_inlineOpen`), and the names that a region defines inline are those that its tags open
(`mem_definitionsIn_iff`).
-/

namespace PipelineLang.Template

open Cursor Reference Utf8

/-! ## Tags in order -/

/-- A tag of an inline partial. -/
inductive InlineTag where
  | opening (name : Token)
  | closing
  deriving DecidableEq

def InlineTag.isOpening : InlineTag → Bool
  | .opening _ => true
  | .closing => false

def InlineTag.isClosing (tag : InlineTag) : Bool := !tag.isOpening

/-- Matches a tag of either kind; yields where it starts. -/
def inlineTag (c : Cursor) : Option ((Nat × InlineTag) × Cursor) :=
  match inlineOpen c with
  | some ((start, name), d) => some ((start, .opening name), d)
  | none => (inlineClose c).map fun (_, d) => ((c.offset, .closing), d)

/-- The tag of a match, with its span. -/
def placed (m : (Nat × InlineTag) × Cursor) : InlineTag × Span := (m.1.2, ⟨m.1.1, m.2.offset⟩)

/-- The tags from the cursor on. -/
def tagsFrom (c : Cursor) : List (InlineTag × Span) := (searchAll inlineTag c).map placed

/-- The tags of inline partials in a region. What a name has in it between its quotes is no tag. -/
def tagsIn (text : List Char) (region : Span) : List (InlineTag × Span) :=
  tagsFrom (regionCursor text region)

/-! ## The text of a tag -/

/-- What may stand beside the braces of a tag: a tilde or nothing. -/
def IsMark (mark : List Char) : Prop := mark = [] ∨ mark = ['~']

/-- The braces and the word that a tag starts with. -/
def tagFront (mark word : List Char) : List Char := '\x7b' :: '\x7b' :: mark ++ word

/-- White characters and the braces that a tag ends with. -/
def IsTagEnd (tail : List Char) : Prop :=
  ∃ gap mark, (∀ x ∈ gap, Blank.isWhite x = true) ∧ IsMark mark ∧
    tail = gap ++ mark ++ ['\x7d', '\x7d']

/-- What stands before the name in an opening tag. -/
def openingFront (mark gap : List Char) : List Char :=
  tagFront mark "#*inline".toList ++ gap ++ ['"']

/-- The tag is written so at the offset: the opening one as `#*inline`, white characters and the name
between quotes, the closing one as `/inline`. -/
inductive InlineTag.Stands (offset : Nat) : InlineTag → List Char → Prop
  | opening {mark gap name tail : List Char} (hmark : IsMark mark) (hgap : gap ≠ [])
      (hwhite : ∀ x ∈ gap, Blank.isWhite x = true) (hname : name ≠ []) (hquote : '"' ∉ name)
      (htail : IsTagEnd tail) :
      Stands offset (.opening ⟨String.ofList name,
          .ofLength (offset + byteLength (openingFront mark gap)) (byteLength name)⟩)
        (openingFront mark gap ++ name ++ ['"'] ++ tail)
  | closing {mark tail : List Char} (hmark : IsMark mark) (htail : IsTagEnd tail) :
      Stands offset .closing (tagFront mark "/inline".toList ++ tail)

/-- The tags of a text at an offset, taken from left to right: a tag is passed over as a whole, and so
is each character at which none stands. -/
inductive Tagged : Nat → List Char → List (InlineTag × Span) → Prop
  | nil {offset : Nat} : Tagged offset [] []
  | skip {offset : Nat} {x : Char} {xs : List Char} {tags : List (InlineTag × Span)}
      (hnone : ∀ tag run, InlineTag.Stands offset tag run → ¬run <+: x :: xs)
      (hrest : Tagged (offset + x.utf8Size) xs tags) : Tagged offset (x :: xs) tags
  | tag {offset : Nat} {tag : InlineTag} {run rest : List Char} {tags : List (InlineTag × Span)}
      (htag : tag.Stands offset run) (hrest : Tagged (offset + byteLength run) rest tags) :
      Tagged offset (run ++ rest) ((tag, .ofLength offset (byteLength run)) :: tags)

/-- A tag of the region opens an inline partial of the name. -/
def OpensInline (text : List Char) (region : Span) (name : String) : Prop :=
  ∃ tags, Tagged region.start (region.text text) tags ∧
    ∃ nameSpan s, (.opening ⟨name, nameSpan⟩, s) ∈ tags

variable {b c d : Cursor} {text run mark tail : List Char} {region : Span} {name : String} {u : Unit}

/-! ## Parts of tags -/

theorem optional_between (x : Char) (c : Cursor) :
    ∃ run, Between c run (optional x c) ∧ (run = [] ∨ run = [x]) := by
  unfold optional
  cases h : c.char x with
  | none => exact ⟨[], .refl c, Or.inl rfl⟩
  | some d => exact ⟨[x], char_between h, Or.inr rfl⟩

theorem optional_of_between {x : Char} (h : Between c run d) (hrun : run = [] ∨ run = [x])
    (hnext : d.peek ≠ some x) : optional x c = d := by
  rcases hrun with rfl | rfl
  · obtain rfl := (Between.refl c).right_unique h
    rw [optional, char_eq_none hnext]
    rfl
  · rw [optional, char_of_between h]
    rfl

theorem openTag_between (h : openTag c = some d) :
    ∃ mark, IsMark mark ∧ Between c ('\x7b' :: '\x7b' :: mark) d := by
  obtain ⟨braces, hbraces, rfl⟩ := Option.map_eq_some_iff.1 h
  obtain ⟨mark, hbetween, hmark⟩ := optional_between '~' braces
  exact ⟨mark, hmark, (chars_between hbraces).trans hbetween⟩

theorem openTag_of_between (h : Between c ('\x7b' :: '\x7b' :: mark) d) (hmark : IsMark mark)
    (hnext : d.peek ≠ some '~') : openTag c = some d := by
  obtain ⟨braces, hbraces, hbetween⟩ :=
    (show Between c (['\x7b', '\x7b'] ++ mark) d from h).exists_mid
  rw [openTag, chars_of_between hbraces, Option.map_some, optional_of_between hbetween hmark hnext]

theorem closeTag_between (h : closeTag c = some d) : ∃ tail, IsTagEnd tail ∧ Between c tail d := by
  have hgap : Between c (c.rest.takeWhile Blank.isWhite) (c.skipWhile Blank.isWhite) :=
    takeWhile_between Blank.isWhite c
  obtain ⟨mark, hbetween, hmark⟩ := optional_between '~' (c.skipWhile Blank.isWhite)
  refine ⟨_, ⟨_, mark, ?_, hmark, rfl⟩, (hgap.trans hbetween).trans (chars_between h)⟩
  exact List.all_eq_true.1 List.all_takeWhile

theorem closeTag_of_between (h : Between c tail d) (htail : IsTagEnd tail) :
    closeTag c = some d := by
  obtain ⟨gap, mark, hwhite, hmark, rfl⟩ := htail
  obtain ⟨last, hfront, hbraces⟩ := h.exists_mid
  obtain ⟨behind, hgap, hbetween⟩ := hfront.exists_mid
  have hnext : ∀ x ∈ behind.peek, Blank.isWhite x = false := by
    rcases hmark with rfl | rfl
    · obtain rfl := (Between.refl behind).right_unique hbetween
      exact hbraces.peek_eq_false (by decide)
    · exact hbetween.peek_eq_false (by decide)
  have hskip : c.skipWhile Blank.isWhite = behind :=
    congrArg Prod.snd (takeWhile_of_between hgap hwhite hnext)
  rw [closeTag, hskip, optional_of_between hbetween hmark, chars_of_between hbraces]
  rw [hbraces.peek_cons]
  decide

/-! ## Where a tag is read -/

/-- The name of a tag that is read is the run between its quotes. -/
theorem takeWhile_name {quote : Cursor} {front : List Char} (hfront : Between c front quote) :
    let name := quote.rest.takeWhile (· != '"')
    (quote.takeWhile (· != '"')).1
      = ⟨String.ofList name, .ofLength (c.offset + byteLength front) (byteLength name)⟩ := by
  intro name
  rw [hfront.span_eq (takeWhile_between (· != '"') quote)]
  rfl

theorem takeWhile_ne_nil {p : Char → Bool} (h : c.peek.any p = true) : c.rest.takeWhile p ≠ [] := by
  obtain ⟨x, hx, hp⟩ := (Option.any_eq_true _ _).1 h
  obtain ⟨xs, hxs⟩ := List.head?_eq_some_iff.1 hx
  rw [hxs, List.takeWhile_cons_of_pos hp]
  exact List.cons_ne_nil _ _

/-- An opening tag is read only where its text stands. -/
theorem stands_of_inlineOpen {start : Nat} {n : Token} (h : inlineOpen c = some ((start, n), d)) :
    start = c.offset ∧ ∃ run, (InlineTag.opening n).Stands c.offset run ∧ Between c run d := by
  simp only [inlineOpen, bind, Option.bind_eq_some_iff] at h
  obtain ⟨braces, hbraces, word, hword, h⟩ := h
  split at h
  · next hpeek =>
    simp only [Option.bind_eq_some_iff] at h
    obtain ⟨quote, hquote, h⟩ := h
    split at h
    · cases h
    · next hempty =>
      simp only [Option.bind_eq_some_iff] at h
      obtain ⟨behind, hclose, last, hlast, heq⟩ := h
      cases heq
      obtain ⟨mark, hmark, hopen⟩ := openTag_between hbraces
      obtain ⟨tail, htail, hend⟩ := closeTag_between hlast
      have hgap : Between word (word.rest.takeWhile Blank.isWhite) _ :=
        takeWhile_between Blank.isWhite word
      have hfront := ((hopen.trans (chars_between hword)).trans hgap).trans (char_between hquote)
      have hname := takeWhile_between (· != '"') quote
      refine ⟨rfl, _, ?_, ((hfront.trans hname).trans (char_between hclose)).trans hend⟩
      rw [takeWhile_name hfront]
      refine .opening hmark (takeWhile_ne_nil hpeek) (List.all_eq_true.1 List.all_takeWhile)
        (fun hnil => ?_) (fun hmem => ?_) htail
      · have hlt := lt_of_span_not_empty (by simpa using hempty)
        rw [hnil] at hname
        exact hlt.ne ((Between.refl quote).right_unique hname)
      · exact absurd (List.all_eq_true.1 List.all_takeWhile _ hmem) (by decide)
  · cases h

/-- An opening tag is read wherever its text stands. -/
theorem inlineOpen_of_stands {n : Token} (h : (InlineTag.opening n).Stands c.offset run)
    (hbetween : Between c run d) : inlineOpen c = some ((c.offset, n), d) := by
  cases h with
  | @opening mark gap name tail hmark hgap hwhite hname hquote htail =>
    obtain ⟨behind, h, hend⟩ := hbetween.exists_mid
    obtain ⟨close, h, hclose⟩ := h.exists_mid
    obtain ⟨quote, hfront, hinner⟩ := h.exists_mid
    obtain ⟨space, h, hopen⟩ := hfront.exists_mid
    obtain ⟨word, h, hspace⟩ := h.exists_mid
    obtain ⟨braces, hbraces, hword⟩ := h.exists_mid
    obtain ⟨y, ys, rfl⟩ := List.exists_cons_of_ne_nil hgap
    have hbraces' : openTag c = some braces :=
      openTag_of_between hbraces hmark (by rw [hword.peek_cons]; decide)
    have hpeek : word.peek.any Blank.isWhite = true := by
      rw [hspace.peek_cons]
      exact hwhite y List.mem_cons_self
    have hskip : word.skipWhile Blank.isWhite = space :=
      congrArg Prod.snd (takeWhile_of_between hspace hwhite (hopen.peek_eq_false (by decide)))
    have hname' : quote.takeWhile (· != '"')
        = (⟨String.ofList name, ⟨quote.offset, close.offset⟩⟩, close) := by
      refine takeWhile_of_between hinner (fun x hx => ?_) (hclose.peek_eq_false (by decide))
      rw [bne_iff_ne]
      rintro rfl
      exact hquote hx
    have hempty : (⟨quote.offset, close.offset⟩ : Span).isEmpty = false :=
      beq_eq_false_iff_ne.2 (offset_lt (hinner.lt hname)).ne
    rw [hfront.span_eq hinner]
    simp only [inlineOpen, bind, hbraces', Option.bind_some, chars_of_between hword, hpeek, if_true,
      hskip, char_of_between hopen, hname', hempty, Bool.false_eq_true, if_false,
      char_of_between hclose, closeTag_of_between hend htail]
    rfl

theorem stands_of_inlineClose (h : inlineClose c = some (u, d)) :
    ∃ run, InlineTag.closing.Stands c.offset run ∧ Between c run d := by
  simp only [inlineClose, bind, Option.bind_eq_some_iff] at h
  obtain ⟨braces, hbraces, word, hword, last, hlast, heq⟩ := h
  cases heq
  obtain ⟨mark, hmark, hopen⟩ := openTag_between hbraces
  obtain ⟨tail, htail, hend⟩ := closeTag_between hlast
  exact ⟨_, .closing hmark htail, (hopen.trans (chars_between hword)).trans hend⟩

theorem inlineClose_of_stands (h : InlineTag.closing.Stands c.offset run)
    (hbetween : Between c run d) : inlineClose c = some ((), d) := by
  cases h with
  | @closing mark tail hmark htail =>
    obtain ⟨word, h, hend⟩ := hbetween.exists_mid
    obtain ⟨braces, hbraces, hword⟩ := h.exists_mid
    have hbraces' : openTag c = some braces :=
      openTag_of_between hbraces hmark (by rw [hword.peek_cons]; decide)
    simp only [inlineClose, bind, hbraces', Option.bind_some, chars_of_between hword,
      closeTag_of_between hend htail]
    rfl

/-- No text starts with an opening tag and with a closing one. -/
theorem not_stands_both {n : Token} {run' xs xs' : List Char} {offset : Nat}
    (h : (InlineTag.opening n).Stands offset run) (h' : InlineTag.closing.Stands offset run') :
    run ++ xs ≠ run' ++ xs' := by
  intro heq
  cases h with
  | opening hmark hgap hwhite hname hquote htail =>
    cases h' with
    | closing hmark' htail' =>
      rcases hmark with rfl | rfl
      · rcases hmark' with rfl | rfl
        · simp [openingFront, tagFront] at heq
        · simp [openingFront, tagFront] at heq
      · rcases hmark' with rfl | rfl
        · simp [openingFront, tagFront] at heq
        · simp [openingFront, tagFront] at heq

/-- A tag is read where its text stands, and nowhere else. -/
theorem inlineTag_iff {start : Nat} {tag : InlineTag} : inlineTag c = some ((start, tag), d) ↔
    start = c.offset ∧ ∃ run, tag.Stands c.offset run ∧ Between c run d := by
  unfold inlineTag
  constructor
  · intro h
    split at h
    · next hopen =>
      cases h
      exact stands_of_inlineOpen hopen
    · obtain ⟨⟨⟨⟩, last⟩, hclose, heq⟩ := Option.map_eq_some_iff.1 h
      cases heq
      exact ⟨rfl, stands_of_inlineClose hclose⟩
  · rintro ⟨rfl, run, hstands, hbetween⟩
    cases tag with
    | opening n => rw [inlineOpen_of_stands hstands hbetween]
    | closing =>
      have hopen : inlineOpen c = none := by
        by_contra hsome
        obtain ⟨⟨⟨start, n⟩, e⟩, he⟩ := Option.ne_none_iff_exists'.1 hsome
        obtain ⟨-, run', hopening, hbetween'⟩ := stands_of_inlineOpen he
        exact not_stands_both hopening hstands (hbetween'.rest_eq.symm.trans hbetween.rest_eq)
      rw [hopen, inlineClose_of_stands hstands hbetween]
      rfl

theorem InlineTag.Stands.ne_nil {offset : Nat} {tag : InlineTag} (h : tag.Stands offset run) :
    run ≠ [] := by
  cases h with
  | opening => simp [openingFront, tagFront]
  | closing => simp [tagFront]

theorem moves_inlineTag : Moves inlineTag := by
  rintro c ⟨start, tag⟩ d h
  obtain ⟨-, run, hstands, hbetween⟩ := inlineTag_iff.1 h
  exact hbetween.lt hstands.ne_nil

theorem moves_inlineOpen : Moves inlineOpen := by
  rintro c ⟨start, n⟩ d h
  obtain ⟨-, run, hstands, hbetween⟩ := stands_of_inlineOpen h
  exact hbetween.lt hstands.ne_nil

theorem moves_inlineClose : Moves inlineClose := by
  intro c u d h
  obtain ⟨run, hstands, hbetween⟩ := stands_of_inlineClose h
  exact hbetween.lt hstands.ne_nil

theorem inlineTag_eq_none_iff : inlineTag c = none ↔
    ∀ tag run, InlineTag.Stands c.offset tag run → ¬run <+: c.rest := by
  constructor
  · rintro hnone tag run hstands ⟨back, hback⟩
    obtain ⟨d, hbetween, -⟩ := exists_between_of_rest hback.symm
    rw [inlineTag_iff.2 ⟨rfl, run, hstands, hbetween⟩] at hnone
    cases hnone
  · intro hnot
    by_contra hsome
    obtain ⟨⟨⟨start, tag⟩, d⟩, hmatch⟩ := Option.ne_none_iff_exists'.1 hsome
    obtain ⟨-, run, hstands, hbetween⟩ := inlineTag_iff.1 hmatch
    exact hnot tag run hstands ⟨d.rest, hbetween.rest_eq.symm⟩

/-! ## The tags of a text -/

theorem placed_eq {tag : InlineTag} (h : Between c run d) :
    placed ((c.offset, tag), d) = (tag, .ofLength c.offset (byteLength run)) := by
  rw [placed, h.offset_eq]
  rfl

theorem tagged_tagsFrom (c : Cursor) : Tagged c.offset c.rest (tagsFrom c) := by
  refine searchAll_induction (motive := fun c ms => Tagged c.offset c.rest (ms.map placed))
    moves_inlineTag ?_ ?_ ?_ c
  · intro c _ hrest
    rw [hrest]
    exact .nil
  · intro c x xs hnone hrest ih
    have hnone := inlineTag_eq_none_iff.1 hnone
    rw [hrest] at hnone ⊢
    exact .skip hnone ih
  · rintro c ⟨start, tag⟩ d hmatch _ ih
    obtain ⟨rfl, run, hstands, hbetween⟩ := inlineTag_iff.1 hmatch
    rw [hbetween.offset_eq] at ih
    rw [hbetween.rest_eq, List.map_cons, placed_eq hbetween]
    exact .tag hstands ih

/-- The tags of a text are settled by the text: they are those that a search finds. -/
theorem tagged_iff {tags : List (InlineTag × Span)} :
    Tagged c.offset c.rest tags ↔ tags = tagsFrom c := by
  refine ⟨fun h => ?_, fun h => h ▸ tagged_tagsFrom c⟩
  generalize hoffset : c.offset = offset at h
  generalize hrest : c.rest = rest at h
  induction h generalizing c with
  | nil =>
    have hnone : inlineTag c = none := by
      refine inlineTag_eq_none_iff.2 fun tag run hstands hprefix => hstands.ne_nil ?_
      rwa [hrest, List.prefix_nil] at hprefix
    rw [tagsFrom, searchAll_of_end hnone hrest]
    rfl
  | @skip offset x xs tags hnot _ ih =>
    have hnone : inlineTag c = none := by
      rw [inlineTag_eq_none_iff, hoffset, hrest]
      exact hnot
    rw [tagsFrom, searchAll_of_step hnone hrest]
    exact ih (by rw [← hoffset]; rfl) rfl
  | @tag offset tag run rest tags hstands _ ih =>
    obtain ⟨d, hbetween, hd⟩ := exists_between_of_rest hrest
    rw [← hoffset] at hstands ih ⊢
    rw [tagsFrom, searchAll_of_match moves_inlineTag (inlineTag_iff.2 ⟨rfl, run, hstands, hbetween⟩),
      List.map_cons, placed_eq hbetween, ih hbetween.offset_eq hd]
    rfl

/-! ## Closing tags -/

/-- What a tag ends with opens no tag. -/
theorem IsTagEnd.not_mem (h : IsTagEnd tail) : '\x7b' ∉ tail := by
  obtain ⟨gap, mark, hwhite, hmark, rfl⟩ := h
  simp only [List.mem_append, not_or]
  refine ⟨⟨fun hmem => absurd (hwhite _ hmem) (by decide), ?_⟩, by decide⟩
  rcases hmark with rfl | rfl
  · decide
  · decide

/-- No brace of a closing tag opens a tag, apart from the first two. -/
theorem inlineClose_between (h : inlineClose c = some (u, d)) :
    ∃ run, Between c ('\x7b' :: '\x7b' :: run) d ∧ run ≠ [] ∧ '\x7b' ∉ run := by
  obtain ⟨run, hstands, hbetween⟩ := stands_of_inlineClose h
  cases hstands with
  | @closing mark tail hmark htail =>
    refine ⟨mark ++ "/inline".toList ++ tail, hbetween, by simp, ?_⟩
    simp only [List.mem_append, not_or]
    refine ⟨⟨?_, by decide⟩, htail.not_mem⟩
    rcases hmark with rfl | rfl
    · decide
    · decide

/-- No tag starts inside a closing one. -/
theorem openTag_eq_none (h : inlineClose c = some (u, d)) (hcb : c < b) (hbd : b < d) :
    openTag b = none := by
  by_contra hsome
  obtain ⟨e, he⟩ := Option.ne_none_iff_exists'.1 hsome
  obtain ⟨mark, -, hmark⟩ := openTag_between he
  obtain ⟨run, hrun, hne, hnot⟩ := inlineClose_between h
  obtain ⟨front, hfront⟩ := exists_run hcb.le
  obtain ⟨back, hback⟩ := exists_run hbd.le
  have hsplit := hrun.run_eq (hfront.trans hback)
  have hbraces : '\x7b' :: '\x7b' :: (mark ++ e.rest) = back ++ d.rest :=
    hmark.rest_eq.symm.trans hback.rest_eq
  have hfront' : front ≠ [] := by
    rintro rfl
    exact hcb.ne hfront.2.symm
  have hback' : back ≠ [] := by
    rintro rfl
    exact hbd.ne hback.2.symm
  match front, back, hfront', hback' with
  | [_], y :: back, _, _ =>
    -- behind the first brace there is only one more
    obtain ⟨x, run, rfl⟩ := List.exists_cons_of_ne_nil hne
    simp only [List.singleton_append, List.cons.injEq] at hsplit
    obtain ⟨-, -, rfl⟩ := hsplit
    obtain ⟨rfl, -⟩ := List.cons.inj (List.cons.inj hbraces).2
    exact hnot List.mem_cons_self
  | _ :: _ :: front, y :: back, _, _ =>
    simp only [List.cons_append, List.cons.injEq] at hsplit
    obtain ⟨rfl, -⟩ := List.cons.inj hbraces
    exact hnot (hsplit.2.2 ▸ List.mem_append_right _ List.mem_cons_self)

theorem inlineOpen_eq_none (h : openTag c = none) : inlineOpen c = none := by
  simp only [inlineOpen, h]
  rfl

theorem inlineClose_eq_none (h : openTag c = none) : inlineClose c = none := by
  simp only [inlineClose, h]
  rfl

theorem separate_inlineClose : Separate inlineClose := fun _ _ _ _ h hcb hbd =>
  inlineClose_eq_none (openTag_eq_none h hcb hbd)

/-! ## Openings -/

/-- What a tag is matched by. -/
theorem inlineTag_cases {start : Nat} {tag : InlineTag} (h : inlineTag c = some ((start, tag), d)) :
    start = c.offset ∧ ((∃ n, tag = .opening n ∧ inlineOpen c = some ((start, n), d)) ∨
      tag = .closing ∧ inlineOpen c = none ∧ inlineClose c = some ((), d)) := by
  unfold inlineTag at h
  split at h
  · next hopen =>
    cases h
    exact ⟨(stands_of_inlineOpen hopen).1, Or.inl ⟨_, rfl, hopen⟩⟩
  · next hopen =>
    obtain ⟨⟨⟨⟩, last⟩, hclose, heq⟩ := Option.map_eq_some_iff.1 h
    cases heq
    exact ⟨rfl, Or.inr ⟨rfl, hopen, hclose⟩⟩

theorem inlineTag_eq_none (h : inlineTag c = none) : inlineOpen c = none ∧ inlineClose c = none := by
  unfold inlineTag at h
  split at h
  · cases h
  · next hopen => exact ⟨hopen, Option.map_eq_none_iff.1 h⟩

/-- The match of an opening, where the tag is one. -/
def asOpening : (Nat × InlineTag) × Cursor → Option ((Nat × Token) × Cursor)
  | ((start, .opening name), d) => some ((start, name), d)
  | ((_, .closing), _) => none

/-- The openings among the tags are all that a search for openings finds. -/
theorem searchAll_inlineOpen (c : Cursor) :
    searchAll inlineOpen c = (searchAll inlineTag c).filterMap asOpening := by
  refine searchAll_induction (motive := fun c ms => searchAll inlineOpen c = ms.filterMap asOpening)
    moves_inlineTag ?_ ?_ ?_ c
  · intro c hnone hrest
    exact searchAll_of_end (inlineTag_eq_none hnone).1 hrest
  · intro c x xs hnone hrest ih
    rwa [searchAll_of_step (inlineTag_eq_none hnone).1 hrest]
  · rintro c ⟨start, tag⟩ d h hlt ih
    rcases (inlineTag_cases h).2 with ⟨n, rfl, hopen⟩ | ⟨rfl, hnone, hclose⟩
    · rw [searchAll_of_match moves_inlineOpen hopen, ih]
      rfl
    · rw [searchAll_of_none hlt.le, ih]
      · rfl
      · intro e he hed
        rcases eq_or_lt_of_le he with rfl | hce
        · exact hnone
        · exact inlineOpen_eq_none (openTag_eq_none hclose hce hed)

/-- Whether a tag opens a partial of the name is a matter of the text of the region. -/
theorem opensInline_iff : OpensInline text region name ↔
    ∃ nameSpan s, (.opening ⟨name, nameSpan⟩, s) ∈ tagsIn text region := by
  constructor
  · rintro ⟨tags, htags, hmem⟩
    rwa [show tags = tagsIn text region from
      (tagged_iff (c := regionCursor text region)).1 htags] at hmem
  · exact fun hmem => ⟨_, tagged_tagsFrom (regionCursor text region), hmem⟩

/-- **A region defines inline the names that its tags open.** -/
theorem mem_definitionsIn_iff :
    name ∈ (definitionsIn text region).map (·.1) ↔ OpensInline text region name := by
  rw [opensInline_iff, definitionsIn, searchAll_inlineOpen, List.map_filterMap, tagsIn, tagsFrom]
  constructor
  · intro h
    obtain ⟨⟨_, definition⟩, hmem, rfl⟩ := List.mem_map.1 h
    obtain ⟨⟨⟨start, tag⟩, d⟩, hm, heq⟩ := List.mem_filterMap.1 hmem
    cases tag with
    | closing => cases heq
    | opening n =>
      cases heq
      exact ⟨n.span, _, List.mem_map.2 ⟨_, hm, rfl⟩⟩
  · rintro ⟨nameSpan, s, hmem⟩
    obtain ⟨⟨⟨start, tag⟩, d⟩, hm, heq⟩ := List.mem_map.1 hmem
    cases heq
    exact List.mem_map.2 ⟨_, List.mem_filterMap.2 ⟨_, hm, rfl⟩, rfl⟩

end PipelineLang.Template
