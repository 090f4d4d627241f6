import PipelineLang.Proofs.Grammar.Reading

/-!
# What stands under a span

`Between c run d` says that the characters from the cursor `c` to the cursor `d` are `run`; every
reader of a token is described by it. All cursors of a document are reached from its start, so a
span from one cursor to another begins and ends where characters do, and the document spells under
it what lies between the two (`Between.spells`).
-/

namespace PipelineLang

open Utf8

/-! ## Spans of a document -/

/-- Whether a character of the document starts at the offset, or the document ends there. -/
def IsBoundary (document : List Char) (offset : Nat) : Prop :=
  ∃ front back, document = front ++ back ∧ offset = byteLength front

/-- The ends of the span are in order, inside the document and between characters. -/
structure Span.Fits (document : List Char) (s : Span) : Prop where
  start_le_stop : s.start ≤ s.stop
  stop_le : s.stop ≤ byteLength document
  start_boundary : IsBoundary document s.start
  stop_boundary : IsBoundary document s.stop

/-- The span fits the document, which holds the characters `run` there. -/
structure Span.Spells (document run : List Char) (s : Span) : Prop extends s.Fits document where
  text_eq : s.text document = run

theorem Span.encloses_iff {s t : Span} :
    s.encloses t = true ↔ s.start ≤ t.start ∧ t.stop ≤ s.stop := by
  simp [encloses]

theorem Utf8.dropBytes_append (xs ys : List Char) :
    dropBytes (byteLength xs) (xs ++ ys) = some ys := by
  induction xs with
  | nil => cases ys <;> rfl
  | cons x xs ih =>
    have hpos := Char.utf8Size_pos x
    obtain ⟨n, hn⟩ : ∃ n, byteLength (x :: xs) = n + 1 :=
      Nat.exists_eq_add_one_of_ne_zero (by simp only [byteLength]; omega)
    have hrest : n + 1 - x.utf8Size = byteLength xs := by
      simp only [byteLength] at hn
      omega
    rw [hn, List.cons_append, dropBytes, if_pos (by simp only [byteLength] at hn; omega), hrest, ih]

theorem Utf8.takeBytes_append (xs ys : List Char) :
    takeBytes (byteLength xs) (xs ++ ys) = some xs := by
  induction xs with
  | nil => cases ys <;> rfl
  | cons x xs ih =>
    have hpos := Char.utf8Size_pos x
    obtain ⟨n, hn⟩ : ∃ n, byteLength (x :: xs) = n + 1 :=
      Nat.exists_eq_add_one_of_ne_zero (by simp only [byteLength]; omega)
    have hrest : n + 1 - x.utf8Size = byteLength xs := by
      simp only [byteLength] at hn
      omega
    rw [hn, List.cons_append, takeBytes, if_pos (by simp only [byteLength] at hn; omega), hrest, ih]
    rfl

/-- A span that fits stands between a front of the document and the rest behind it. -/
theorem Span.Fits.exists_run {document : List Char} {s : Span} (h : s.Fits document) :
    ∃ front run back, document = front ++ run ++ back ∧
      s = ⟨byteLength front, byteLength (front ++ run)⟩ := by
  obtain ⟨start, stop⟩ := s
  obtain ⟨hle, -, ⟨front, back, hdocument, hstart⟩, ⟨front', back', hdocument', hstop⟩⟩ := h
  simp only at hle hstart hstop
  rcases List.append_eq_append_iff.1 (hdocument.symm.trans hdocument') with
    ⟨run, hfront, -⟩ | ⟨run, hfront, -⟩
  · exact ⟨front, run, back', by rw [← hfront, hdocument'], by rw [hstart, hstop, hfront]⟩
  · -- here the span is empty, and so is what `front` has beyond `front'`
    have hrun : run = [] := by
      by_contra hne
      have := byteLength_pos hne
      rw [hstart, hstop, hfront, byteLength_append] at hle
      omega
    subst hrun
    rw [List.append_nil] at hfront
    subst hfront
    exact ⟨front, [], back, by rw [List.append_nil, hdocument],
      by rw [hstart, hstop, List.append_nil]⟩

/-- Two fronts of a text with the same number of bytes are the same. -/
theorem Utf8.append_inj_of_byteLength {xs ys as bs : List Char} (h : xs ++ as = ys ++ bs)
    (hlen : byteLength xs = byteLength ys) : xs = ys := by
  have hxs := takeBytes_append xs as
  rw [h, hlen, takeBytes_append] at hxs
  exact (Option.some.inj hxs).symm

theorem Span.spells_append (front run back : List Char) :
    Span.Spells (front ++ run ++ back) run ⟨byteLength front, byteLength (front ++ run)⟩ where
  start_le_stop := by rw [byteLength_append]; exact Nat.le_add_right ..
  stop_le := by rw [byteLength_append (front ++ run)]; exact Nat.le_add_right ..
  start_boundary := ⟨front, run ++ back, List.append_assoc .., rfl⟩
  stop_boundary := ⟨front ++ run, back, rfl, rfl⟩
  text_eq := by
    have hlen : byteLength (front ++ run) - byteLength front = byteLength run := by
      rw [byteLength_append]
      omega
    rw [Span.text, slice, if_pos (by rw [byteLength_append]; exact Nat.le_add_right ..), hlen,
      List.append_assoc, dropBytes_append, Option.bind_some, takeBytes_append, Option.getD_some]

/-- What a span that fits has under it has as many bytes as the span. -/
theorem Span.Fits.byteLength_text {document : List Char} {s : Span} (h : s.Fits document) :
    s.start + byteLength (s.text document) = s.stop := by
  obtain ⟨front, run, back, rfl, rfl⟩ := h.exists_run
  rw [(Span.spells_append front run back).text_eq, byteLength_append]

namespace Cursor

variable {c d e : Cursor} {run : List Char}

/-! ## Between two cursors -/

/-- The characters from the cursor `c` to the cursor `d` are `run`. -/
def Between (c : Cursor) (run : List Char) (d : Cursor) : Prop :=
  c.rest = run ++ d.rest ∧ d = c.skip run.length

namespace Between

theorem refl (c : Cursor) : Between c [] c := ⟨rfl, rfl⟩

theorem rest_eq (h : Between c run d) : c.rest = run ++ d.rest := h.1

theorem le (h : Between c run d) : c ≤ d := ⟨run.length, h.2⟩

theorem lt (h : Between c run d) (hne : run ≠ []) : c < d := by
  refine lt_iff.2 ⟨h.le, ?_⟩
  rw [h.rest_eq, List.length_append]
  exact Nat.lt_add_of_pos_left (List.length_pos_iff.2 hne)

theorem trans {run' : List Char} (h : Between c run d) (h' : Between d run' e) :
    Between c (run ++ run') e := by
  obtain ⟨hrest, hskip⟩ := h
  obtain ⟨hrest', hskip'⟩ := h'
  constructor
  · rw [hrest, hrest', List.append_assoc]
  · rw [hskip', hskip, skip_skip, List.length_append]

theorem offset_eq (h : Between c run d) : d.offset = c.offset + byteLength run := by
  rw [h.2, offset_skip, h.1, List.take_left]

theorem run_eq {run' : List Char} (h : Between c run d) (h' : Between c run' d) : run = run' :=
  List.append_cancel_right (h.1.symm.trans h'.1)

/-- What lies behind a part of the way is the rest of it. -/
theorem tail {run' : List Char} (h : Between c (run ++ run') e) (h' : Between c run d) :
    Between d run' e := by
  constructor
  · refine List.append_cancel_left (?_ : run ++ d.rest = run ++ (run' ++ e.rest))
    rw [← List.append_assoc, ← h.1, h'.1]
  · rw [h.2, h'.2, skip_skip, List.length_append]

theorem right_unique (h : Between c run d) (h' : Between c run e) : d = e := h.2.trans h'.2.symm

theorem peek_cons {x : Char} (h : Between c (x :: run) d) : c.peek = some x := by
  rw [peek, h.rest_eq]
  rfl

/-- A run of a class ends before a character that is not of it. -/
theorem peek_eq_false {x : Char} {p : Char → Bool} (h : Between c (x :: run) d) (hx : p x = false) :
    ∀ y ∈ c.peek, p y = false := by
  intro y hy
  cases h.peek_cons.symm.trans hy
  exact hx

/-- Where a run stands, by how much stands before it and how long it is. -/
theorem span_eq {front : List Char} (hfront : Between c front d) (h : Between d run e) :
    Span.ofLength (c.offset + byteLength front) (byteLength run) = ⟨d.offset, e.offset⟩ := by
  rw [h.offset_eq, hfront.offset_eq]
  rfl

end Between

theorem exists_run (h : c ≤ d) : ∃ run, Between c run d := by
  obtain ⟨run, hrest, -, hskip⟩ := exists_between h
  exact ⟨run, hrest, hskip⟩

/-- The cursor behind a front of the text. -/
theorem exists_between_of_rest {back : List Char} (h : c.rest = run ++ back) :
    ∃ d, Between c run d ∧ d.rest = back := by
  have hrest : (c.skip run.length).rest = back := by rw [rest_skip, h, List.drop_left]
  exact ⟨_, ⟨by rw [hrest, h], rfl⟩, hrest⟩

/-- The cursor behind the first part of the way. -/
theorem Between.exists_mid {run' : List Char} (h : Between c (run ++ run') e) :
    ∃ d, Between c run d ∧ Between d run' e := by
  obtain ⟨d, hd, -⟩ := exists_between_of_rest (h.rest_eq.trans (List.append_assoc ..))
  exact ⟨d, hd, h.tail hd⟩

theorem offset_le (h : c ≤ d) : c.offset ≤ d.offset := by
  obtain ⟨run, -, hoffset, -⟩ := exists_between h
  omega

/-- Two cursors of a document at the same offset are the same. -/
theorem eq_of_offset_eq (hd : c ≤ d) (he : c ≤ e) (h : d.offset = e.offset) : d = e := by
  obtain ⟨run, hrun, hoffset, hskip⟩ := exists_between hd
  obtain ⟨run', hrun', hoffset', hskip'⟩ := exists_between he
  have heq : run = run' := append_inj_of_byteLength (hrun.symm.trans hrun') (by omega)
  rw [hskip, hskip', heq]

theorem le_of_offset_le (hd : c ≤ d) (he : c ≤ e) (h : d.offset ≤ e.offset) : d ≤ e := by
  rcases le_total_of_le hd he with hle | hle
  · exact hle
  · rw [eq_of_offset_eq hd he (Nat.le_antisymm h (offset_le hle))]

theorem lt_of_offset_lt (hd : c ≤ d) (he : c ≤ e) (h : d.offset < e.offset) : d < e := by
  refine lt_of_le_not_ge (le_of_offset_le hd he (Nat.le_of_lt h)) fun hge => ?_
  exact absurd (offset_le hge) (Nat.not_le.2 h)

/-- A document spells under the span from one of its cursors to another what lies between them. -/
theorem Between.spells {document : List Char} (hc : start 0 document ≤ c) (h : Between c run d) :
    Span.Spells document run ⟨c.offset, d.offset⟩ := by
  obtain ⟨front, hfront⟩ := exists_run hc
  have hoffset := hfront.offset_eq
  have hoffset' := (hfront.trans h).offset_eq
  rw [start, Nat.zero_add] at hoffset hoffset'
  have hdocument : document = front ++ run ++ d.rest := (hfront.trans h).rest_eq
  rw [hoffset, hoffset', hdocument]
  exact Span.spells_append front run d.rest

theorem fits_of_le {document : List Char} (hc : start 0 document ≤ c) (h : c ≤ d) :
    Span.Fits document ⟨c.offset, d.offset⟩ := by
  obtain ⟨run, hrun⟩ := exists_run h
  exact (hrun.spells hc).toFits

theorem encloses_of_le {a b : Cursor} (ha : c ≤ a) (hb : b ≤ d) :
    Span.encloses ⟨c.offset, d.offset⟩ ⟨a.offset, b.offset⟩ = true :=
  Span.encloses_iff.2 ⟨offset_le ha, offset_le hb⟩

/-- What lies between two cursors lies between any two farther apart. -/
theorem encloses_mono {a b : Cursor} {s : Span} (ha : c ≤ a) (hb : b ≤ d)
    (h : Span.encloses ⟨a.offset, b.offset⟩ s = true) :
    Span.encloses ⟨c.offset, d.offset⟩ s = true := by
  obtain ⟨hstart, hstop⟩ := Span.encloses_iff.1 h
  exact Span.encloses_iff.2 ⟨Nat.le_trans (offset_le ha) hstart, Nat.le_trans hstop (offset_le hb)⟩

/-! ## The character before a cursor -/

theorem before_skip (n : Nat) (c : Cursor) :
    (c.skip n).before = (c.rest.take n).getLast?.or c.before := by
  induction n generalizing c with
  | zero => rfl
  | succ n ih =>
    cases hc : c.rest with
    | nil => rw [skip_of_rest_nil hc, List.take_nil, List.getLast?_nil, Option.none_or]
    | cons x xs =>
      rw [skip_succ hc, ih, List.take_succ_cons, List.getLast?_cons]
      cases hxs : ((c.step x xs).rest.take n).getLast? with
      | none => rw [show xs.take n = (c.step x xs).rest.take n from rfl, hxs]; rfl
      | some y => rw [show xs.take n = (c.step x xs).rest.take n from rfl, hxs]; rfl

/-- The character before a cursor is the last one on the way to it. -/
theorem Between.before_eq (h : Between c run d) : d.before = run.getLast?.or c.before := by
  rw [h.2, before_skip, h.1, List.take_left]

/-- The character before a cursor on the way is one of those on the way. -/
theorem Between.before_mem (h : Between c run e) (hcd : c < d) (hde : d ≤ e) :
    ∃ z ∈ run, d.before = some z := by
  obtain ⟨front, hfront⟩ := exists_run hcd.le
  obtain ⟨back, hback⟩ := exists_run hde
  have hne : front ≠ [] := by
    rintro rfl
    exact absurd hcd (hfront.2 ▸ lt_irrefl c)
  refine ⟨front.getLast hne, ?_, ?_⟩
  · rw [← (hfront.trans hback).run_eq h]
    exact List.mem_append_left back (List.getLast_mem hne)
  · rw [hfront.before_eq, List.getLast?_eq_some_getLast hne, Option.some_or]

/-- The character at a cursor on the way is one of those on the way. -/
theorem Between.peek_mem (h : Between c run e) (hcd : c ≤ d) (hde : d < e) :
    ∃ z ∈ run, d.peek = some z := by
  obtain ⟨front, hfront⟩ := exists_run hcd
  obtain ⟨back, hback⟩ := exists_run hde.le
  cases back with
  | nil => exact absurd hde (hback.2 ▸ lt_irrefl d)
  | cons z back =>
    refine ⟨z, ?_, by rw [peek, hback.rest_eq]; rfl⟩
    rw [← (hfront.trans hback).run_eq h]
    exact List.mem_append_right front List.mem_cons_self

section
variable {p : Char → Bool} (hrun : ∀ z ∈ run, p z = true)
include hrun

theorem Between.before_any (h : Between c run e) (hcd : c < d) (hde : d ≤ e) :
    d.before.any p = true := by
  obtain ⟨z, hz, hbefore⟩ := h.before_mem hcd hde
  rw [hbefore, Option.any_some, hrun z hz]

theorem Between.peek_any (h : Between c run e) (hcd : c ≤ d) (hde : d < e) :
    d.peek.any p = true := by
  obtain ⟨z, hz, hpeek⟩ := h.peek_mem hcd hde
  rw [hpeek, Option.any_some, hrun z hz]

end

/-- The character at a cursor on the way, but not at its start, is none but one of the later ones. -/
theorem Between.peek_mem_tail {x : Char} (h : Between c (x :: run) e) (hcd : c < d) (hde : d < e) :
    ∃ z ∈ run, d.peek = some z := by
  obtain ⟨a, ha, -⟩ : ∃ a, Between c [x] a ∧ a.rest = run ++ e.rest :=
    exists_between_of_rest h.rest_eq
  have had : a ≤ d := by
    rw [show a = c.step x (run ++ e.rest) from ha.2.trans (step_eq_skip h.rest_eq).symm]
    exact step_le_of_lt h.rest_eq hcd
  exact (Between.tail h ha).peek_mem had hde

/-! ## Lines -/

/-- Up to a cursor that is on the same line, the line is what lies between. -/
theorem Between.line_eq (h : Between c run d) (hrun : '\n' ∉ run) : c.line = run ++ d.line := by
  rw [line, h.rest_eq, List.takeWhile_append_of_pos]
  · rfl
  · intro x hx
    exact bne_iff_ne.2 fun heq => hrun (heq ▸ hx)

/-- What is left of a line without the white characters at its end lies behind the cursor. -/
theorem trimmedLine_between (c : Cursor) :
    Between c (Blank.trimEnd c.line) (c.skip (Blank.trimEnd c.line).length) := by
  obtain ⟨trail, htrail, -⟩ := Blank.exists_trimEnd_append c.line
  have hrest : c.rest = Blank.trimEnd c.line ++ (trail ++ c.lineEnd.rest) := by
    rw [← List.append_assoc, ← htrail]
    exact rest_lineEnd c
  refine ⟨?_, rfl⟩
  rw [rest_skip, hrest, List.drop_left]

/-! ## Readers of tokens -/

theorem chars_between {word : List Char} (h : c.chars word = some d) : Between c word d := by
  obtain ⟨run, hrun⟩ := exists_run (chars_le h)
  have hword : run = word := List.append_cancel_right (hrun.rest_eq.symm.trans (chars_spec h))
  rwa [hword] at hrun

theorem char_between {x : Char} (h : c.char x = some d) : Between c [x] d := by
  refine chars_between ?_
  rw [chars, h]
  rfl

theorem chars_of_between {word : List Char} (h : Between c word d) : c.chars word = some d := by
  obtain ⟨e, he, -⟩ := chars_append h.rest_eq
  rw [he, (chars_between he).right_unique h]

theorem char_of_between {x : Char} (h : Between c [x] d) : c.char x = some d := by
  have hchars := chars_of_between h
  rw [chars] at hchars
  obtain ⟨e, he, heq⟩ := Option.bind_eq_some_iff.1 hchars
  cases heq
  exact he

theorem takeWhile_between (p : Char → Bool) (c : Cursor) :
    Between c (c.rest.takeWhile p) (c.takeWhile p).2 := by
  constructor
  · rw [show (c.takeWhile p).2 = c.skipWhile p from rfl, rest_skipWhile]
    exact List.takeWhile_append_dropWhile.symm
  · rfl

theorem blanks_between (c : Cursor) :
    Between c (c.rest.takeWhile Blank.isInline) c.blanks := takeWhile_between Blank.isInline c

/-- What a run of a class reads, and where. -/
theorem takeWhile_spec {p : Char → Bool} {t : Token} (h : c.takeWhile p = (t, d)) :
    Between c t.text.toList d ∧ t.span = ⟨c.offset, d.offset⟩ ∧
      (∀ x ∈ t.text.toList, p x = true) ∧ ∀ x ∈ d.peek, p x = false := by
  have hbetween := takeWhile_between p c
  have hrest : (c.takeWhile p).2.rest = c.rest.dropWhile p := rest_skipWhile p c
  have htext : (c.takeWhile p).1.text.toList = c.rest.takeWhile p := String.toList_ofList
  have hspan : (c.takeWhile p).1.span = ⟨c.offset, (c.takeWhile p).2.offset⟩ := rfl
  rw [h] at hbetween hrest htext hspan
  rw [htext]
  refine ⟨hbetween, hspan, List.all_eq_true.1 List.all_takeWhile, fun x hx => ?_⟩
  have hhead := List.head?_dropWhile_not p c.rest
  rw [peek, hrest, Option.mem_def] at hx
  simpa only [hx] using hhead

/-- A run of a class is read where it stands, if no more of the class follow. -/
theorem takeWhile_of_between {p : Char → Bool} (h : Between c run d) (hrun : ∀ x ∈ run, p x = true)
    (hnext : ∀ x ∈ d.peek, p x = false) :
    c.takeWhile p = (⟨String.ofList run, ⟨c.offset, d.offset⟩⟩, d) := by
  have htake : c.rest.takeWhile p = run := by rw [h.rest_eq, takeWhile_of_head hrun hnext]
  simp only [takeWhile, htake, ← h.2]

/-- An identifier spans its characters, and no more of them follow. -/
theorem identifier_spec {t : Token} (h : c.identifier = some (t, d)) :
    Between c t.text.toList d ∧ t.span = ⟨c.offset, d.offset⟩ ∧ IsIdentifier t.text ∧
      ∀ x ∈ d.peek, isIdentChar x = false := by
  rw [identifier_eq] at h
  split at h
  · next hstart =>
    obtain ⟨hbetween, hspan, hrun, hnext⟩ := takeWhile_spec (Option.some.inj h)
    refine ⟨hbetween, hspan, ⟨?_, hrun⟩, hnext⟩
    obtain ⟨x, hx, hxstart⟩ := (Option.any_eq_true _ _).1 hstart
    obtain ⟨xs, hc⟩ := List.head?_eq_some_iff.1 hx
    cases htext : t.text.toList with
    | nil =>
      -- the first character is one of an identifier, so the run is not empty
      have hpeek : x ∈ d.peek := by
        rw [peek, ← List.nil_append d.rest, ← htext, ← hbetween.rest_eq, hc]
        rfl
      have hx' := hnext x hpeek
      simp only [isIdentStart, isIdentChar, Char.isAlphanum, Bool.or_eq_true,
        Bool.or_eq_false_iff] at hxstart hx'
      grind
    | cons y ys =>
      have hrest := hbetween.rest_eq
      rw [htext, hc, List.cons_append, List.cons.injEq] at hrest
      rw [List.head?_cons, ← hrest.1]
      exact hxstart
  · cases h

/-- An identifier is read where it stands, if no more of its characters follow. -/
theorem identifier_of_between {name : String} (h : Between c name.toList d)
    (hname : IsIdentifier name) (hnext : ∀ x ∈ d.peek, isIdentChar x = false) :
    c.identifier = some (⟨name, ⟨c.offset, d.offset⟩⟩, d) := by
  obtain ⟨t, e, ht, rfl, hrest⟩ := identifier_append h.rest_eq hname hnext
  obtain ⟨hbetween, hspan, -, -⟩ := identifier_spec ht
  obtain rfl := hbetween.right_unique h
  rw [ht, ← hspan]

/-- A word that is read is the identifier that stands there. -/
theorem identifier_of_keyword {word : String} (hword : IsIdentifier word)
    (h : c.keyword word.toList = some d) : c.identifier = some (⟨word, ⟨c.offset, d.offset⟩⟩, d) :=
  identifier_of_between (chars_between (chars_of_keyword h).1) hword (keyword_spec h).2

/-- No two words are read at one place. -/
theorem keyword_unique {word other : String} {e : Cursor} (hword : IsIdentifier word)
    (hother : IsIdentifier other) (h : c.keyword word.toList = some d)
    (h' : c.keyword other.toList = some e) : word = other ∧ d = e := by
  have heq := (identifier_of_keyword hword h).symm.trans (identifier_of_keyword hother h')
  simp only [Option.some.injEq, Prod.mk.injEq, Token.mk.injEq] at heq
  exact ⟨heq.1.1, heq.2⟩

/-- A text in backticks spans what stands between them. -/
theorem backtickText_spec {t : Token} (h : c.backtickText = some (t, d)) :
    ∃ inner close, c < inner ∧ Between inner t.text.toList close ∧ close < d ∧
      t.span = ⟨inner.offset, close.offset⟩ := by
  simp only [backtickText, bind, Option.bind_eq_some_iff] at h
  obtain ⟨inner, hopen, next, hclose, heq⟩ := h
  cases heq
  obtain ⟨hbetween, hspan, -, -⟩ := takeWhile_spec (rfl : inner.takeWhile (· != tick) = _)
  exact ⟨inner, _, char_lt hopen, hbetween, char_lt hclose, hspan⟩

end Cursor
end PipelineLang
