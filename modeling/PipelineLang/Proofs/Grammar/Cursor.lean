import Mathlib.Logic.Relation
import Mathlib.Order.Basic
import PipelineLang.Grammar.Cursor
import PipelineLang.Text.Utf8

/-!
# How cursors move

A cursor only ever moves by skipping characters, so `c ≤ d` says that `d` is some characters on from
`c`, and `c < d` that it is at least one on. What lies between the two is the front of `c.rest`, and
the offset grows by its bytes (`offset_skip`). Every reader of a token returns a cursor that is not
before the one it was given (`*_le`), and that is behind it where the token cannot be empty
(`*_lt`).
-/

namespace PipelineLang

open Utf8

theorem Utf8.byteLength_pos {cs : List Char} (h : cs ≠ []) : 0 < byteLength cs := by
  cases cs with
  | nil => exact absurd rfl h
  | cons c cs =>
    have := Char.utf8Size_pos c
    simp only [byteLength]
    omega

/-- What trimming takes away is white. -/
theorem Blank.exists_trimEnd_append (cs : List Char) :
    ∃ trail, cs = trimEnd cs ++ trail ∧ ∀ x ∈ trail, isWhite x = true := by
  induction cs with
  | nil => exact ⟨[], rfl, nofun⟩
  | cons c cs ih =>
    obtain ⟨trail, heq, hwhite⟩ := ih
    simp only [trimEnd]
    split
    · next h =>
      rw [h, List.nil_append] at heq
      split
      · next hc => exact ⟨c :: cs, rfl, by simpa [hc, heq] using hwhite⟩
      · exact ⟨cs, rfl, by rwa [heq]⟩
    · next ds h => exact ⟨trail, by rw [heq, h]; rfl, hwhite⟩

namespace Cursor

variable {c d e : Cursor} {n : Nat}

/-! ## Skipping -/

@[simp] theorem skip_zero (c : Cursor) : c.skip 0 = c := rfl

theorem skip_of_rest_nil (h : c.rest = []) (n : Nat) : c.skip n = c := by
  cases n with
  | zero => rfl
  | succ n => rw [skip, h]

theorem skip_succ {x : Char} {xs : List Char} (h : c.rest = x :: xs) (n : Nat) :
    c.skip (n + 1) = (c.step x xs).skip n := by
  rw [skip, h]

theorem rest_skip (n : Nat) (c : Cursor) : (c.skip n).rest = c.rest.drop n := by
  induction n generalizing c with
  | zero => rfl
  | succ n ih =>
    cases hc : c.rest with
    | nil => rw [skip_of_rest_nil hc, hc, List.drop_nil]
    | cons x xs => rw [skip_succ hc, ih, List.drop_succ_cons, step]

theorem offset_skip (n : Nat) (c : Cursor) :
    (c.skip n).offset = c.offset + byteLength (c.rest.take n) := by
  induction n generalizing c with
  | zero => rfl
  | succ n ih =>
    cases hc : c.rest with
    | nil => rw [skip_of_rest_nil hc, List.take_nil, byteLength, Nat.add_zero]
    | cons x xs =>
      rw [skip_succ hc, ih, List.take_succ_cons]
      simp only [step, byteLength]
      omega

theorem skip_skip (m n : Nat) (c : Cursor) : (c.skip m).skip n = c.skip (m + n) := by
  induction m generalizing c with
  | zero => rw [skip_zero, Nat.zero_add]
  | succ m ih =>
    cases hc : c.rest with
    | nil => rw [skip_of_rest_nil hc, skip_of_rest_nil hc, skip_of_rest_nil hc]
    | cons x xs => rw [skip_succ hc, ih, Nat.add_right_comm, skip_succ hc]

/-! ## Order -/

/-- `c ≤ d` says that `d` is reached from `c` by skipping characters. -/
instance : Preorder Cursor where
  le c d := ∃ n, d = c.skip n
  le_refl c := ⟨0, rfl⟩
  le_trans := by
    rintro c _ _ ⟨m, rfl⟩ ⟨n, rfl⟩
    exact ⟨m + n, skip_skip m n c⟩

theorem le_skip (n : Nat) (c : Cursor) : c ≤ c.skip n := ⟨n, rfl⟩

theorem rest_suffix (h : c ≤ d) : d.rest <:+ c.rest := by
  obtain ⟨n, rfl⟩ := h
  rw [rest_skip]
  exact List.drop_suffix n c.rest

/-- What lies between two cursors, with its bytes. -/
theorem exists_between (h : c ≤ d) :
    ∃ run, c.rest = run ++ d.rest ∧ d.offset = c.offset + byteLength run ∧
      d = c.skip run.length := by
  obtain ⟨n, rfl⟩ := h
  refine ⟨c.rest.take n, by rw [rest_skip, List.take_append_drop], offset_skip n c, ?_⟩
  rw [List.length_take]
  by_cases hn : n ≤ c.rest.length
  · rw [Nat.min_eq_left hn]
  · obtain ⟨k, rfl⟩ := Nat.exists_eq_add_of_le (Nat.le_of_not_le hn)
    rw [Nat.min_eq_right (by omega), ← skip_skip]
    exact skip_of_rest_nil (by rw [rest_skip, List.drop_length]) k

theorem lt_iff : c < d ↔ c ≤ d ∧ d.rest.length < c.rest.length := by
  rw [lt_iff_le_not_ge]
  refine and_congr_right fun h => ?_
  obtain ⟨run, hrest, -, hd⟩ := exists_between h
  have hlen := congrArg List.length hrest
  rw [List.length_append] at hlen
  cases run with
  | nil => exact iff_of_false (fun hn => hn (le_of_eq hd)) (by simp [hrest])
  | cons x xs =>
    rw [List.length_cons] at hlen
    refine iff_of_true (fun hle => ?_) (by omega)
    have := (rest_suffix hle).length_le
    omega

theorem not_lt_of_rest_nil (hrest : c.rest = []) : ¬ c < d := by
  intro hlt
  have hlength := (lt_iff.1 hlt).2
  rw [hrest] at hlength
  exact absurd hlength (Nat.not_lt_zero _)

theorem skip_lt (hn : 0 < n) (hc : c.rest ≠ []) : c < c.skip n := by
  refine lt_iff.2 ⟨le_skip n c, ?_⟩
  rw [rest_skip, List.length_drop]
  have := List.length_pos_iff.2 hc
  omega

theorem eq_or_lt_of_le (h : c ≤ d) : c = d ∨ c < d := by
  obtain ⟨run, hrest, -, hd⟩ := exists_between h
  cases run with
  | nil => exact Or.inl hd.symm
  | cons x xs =>
    have hlen := congrArg List.length hrest
    rw [List.length_append, List.length_cons] at hlen
    exact Or.inr (lt_iff.2 ⟨h, by omega⟩)

/-- Of two cursors that are reached from the same one, one is reached from the other. -/
theorem le_total_of_le (hd : c ≤ d) (he : c ≤ e) : d ≤ e ∨ e ≤ d := by
  obtain ⟨m, rfl⟩ := hd
  obtain ⟨n, rfl⟩ := he
  rcases Nat.le_total m n with h | h
  · obtain ⟨k, rfl⟩ := Nat.exists_eq_add_of_le h
    exact Or.inl ⟨k, (skip_skip m k c).symm⟩
  · obtain ⟨k, rfl⟩ := Nat.exists_eq_add_of_le h
    exact Or.inr ⟨k, (skip_skip n k c).symm⟩

/-- Of two cursors behind a third one, one stands before the other, or they are the same. -/
theorem lt_trichotomy_of_le (hd : c ≤ d) (he : c ≤ e) : d < e ∨ d = e ∨ e < d := by
  rcases le_total_of_le hd he with hle | hle
  · exact (eq_or_lt_of_le hle).elim (fun heq => Or.inr (Or.inl heq)) Or.inl
  · exact Or.inr ((eq_or_lt_of_le hle).imp_left Eq.symm)

/-- Of two cursors behind a third one, one stands before the other or not. -/
theorem lt_or_le_of_le (hd : c ≤ d) (he : c ≤ e) : d < e ∨ e ≤ d := by
  rcases lt_trichotomy_of_le hd he with hlt | rfl | hlt
  · exact Or.inl hlt
  · exact Or.inr le_rfl
  · exact Or.inr hlt.le

theorem le_step {x : Char} {xs : List Char} (h : c.rest = x :: xs) : c ≤ c.step x xs :=
  ⟨1, by rw [skip_succ h, skip_zero]⟩

theorem step_le_of_lt {x : Char} {xs : List Char} (h : c.rest = x :: xs) (hlt : c < d) :
    c.step x xs ≤ d := by
  obtain ⟨n, rfl⟩ := hlt.le
  cases n with
  | zero => exact absurd hlt (lt_irrefl c)
  | succ n => exact ⟨n, skip_succ h n⟩

theorem offset_lt (h : c < d) : c.offset < d.offset := by
  obtain ⟨hle, hlen⟩ := lt_iff.1 h
  obtain ⟨run, hrest, hoffset, -⟩ := exists_between hle
  have hrun : run ≠ [] := by
    rintro rfl
    rw [hrest, List.nil_append] at hlen
    omega
  have := byteLength_pos hrun
  omega

/-! ## Readers of tokens -/

theorem step_eq_skip {x : Char} {xs : List Char} (h : c.rest = x :: xs) :
    c.step x xs = c.skip 1 := by
  rw [skip_succ h, skip_zero]

theorem rest_skipWhile (p : Char → Bool) (c : Cursor) :
    (c.skipWhile p).rest = c.rest.dropWhile p := by
  have hsplit : c.rest.takeWhile p ++ c.rest.dropWhile p = c.rest := List.takeWhile_append_dropWhile
  rw [skipWhile, rest_skip]
  exact List.append_cancel_left ((List.prefix_iff_eq_append.1 (List.takeWhile_prefix p)).trans
    hsplit.symm)

theorem rest_lineEnd (c : Cursor) : c.rest = c.line ++ c.lineEnd.rest := by
  rw [show c.lineEnd = c.skipWhile (· != '\n') from rfl, rest_skipWhile]
  exact List.takeWhile_append_dropWhile.symm

theorem le_skipWhile (p : Char → Bool) (c : Cursor) : c ≤ c.skipWhile p := le_skip _ c

theorem le_takeWhile (p : Char → Bool) (c : Cursor) : c ≤ (c.takeWhile p).2 := le_skip _ c

theorem le_blanks (c : Cursor) : c ≤ c.blanks := le_skipWhile _ c

theorem le_lineEnd (c : Cursor) : c ≤ c.lineEnd := le_skip _ c

/-- A run that starts with a character of the class is not empty. -/
theorem lt_takeWhile {p : Char → Bool} {x : Char} {xs : List Char} (h : c.rest = x :: xs)
    (hx : p x = true) : c < (c.takeWhile p).2 := by
  refine skip_lt ?_ (by rw [h]; exact List.cons_ne_nil x xs)
  rw [h, List.takeWhile_cons_of_pos hx]
  exact Nat.succ_pos _

theorem lt_of_span_not_empty {p : Char → Bool} (h : (c.takeWhile p).1.span.isEmpty = false) :
    c < (c.takeWhile p).2 := by
  cases hc : c.rest with
  | nil => simp [takeWhile, hc, Span.isEmpty] at h
  | cons x xs =>
    cases hx : p x with
    | true => exact lt_takeWhile hc hx
    | false => simp [takeWhile, hc, hx, Span.isEmpty] at h

theorem char_lt {x : Char} (h : c.char x = some d) : c < d := by
  unfold char at h
  split at h
  · cases h
  · next y ys hc =>
    split at h
    · cases h
      rw [step_eq_skip hc]
      exact skip_lt Nat.one_pos (by rw [hc]; exact List.cons_ne_nil y ys)
    · cases h

theorem char_eq_none {x : Char} (h : c.rest.head? ≠ some x) : c.char x = none := by
  rw [char]
  cases hc : c.rest with
  | nil => rfl
  | cons y ys =>
    rw [hc] at h
    exact if_neg fun hy => h (congrArg some hy)

theorem chars_le : ∀ {word : List Char} {c : Cursor}, c.chars word = some d → c ≤ d
  | [], _, h => by cases h; exact le_refl _
  | x :: xs, c, h => by
    obtain ⟨e, hx, hxs⟩ := Option.bind_eq_some_iff.1 h
    exact (char_lt hx).le.trans (chars_le hxs)

theorem chars_lt {word : List Char} (hword : word ≠ []) (h : c.chars word = some d) : c < d := by
  cases word with
  | nil => exact absurd rfl hword
  | cons x xs =>
    obtain ⟨e, hx, hxs⟩ := Option.bind_eq_some_iff.1 h
    exact (char_lt hx).trans_le (chars_le hxs)

theorem someBlanks_eq (c : Cursor) :
    c.someBlanks = if c.peek.any Blank.isInline then some c.blanks else none := by
  rw [someBlanks, peek]
  cases c.rest <;> rfl

theorem identifier_eq (c : Cursor) :
    c.identifier = if c.peek.any isIdentStart then some (c.takeWhile isIdentChar) else none := by
  rw [identifier, peek]
  cases c.rest <;> rfl

theorem someBlanks_lt (h : c.someBlanks = some d) : c < d := by
  unfold someBlanks at h
  split at h
  · cases h
  · next hc =>
    split at h
    · next hx => cases h; exact lt_takeWhile hc hx
    · cases h

theorem identifier_lt {t : Token} (h : c.identifier = some (t, d)) : c < d := by
  unfold identifier at h
  split at h
  · cases h
  · next x _ hc =>
    split at h
    · next hx =>
      cases h
      refine lt_takeWhile hc ?_
      simp only [isIdentStart, isIdentChar, Char.isAlphanum, Bool.or_eq_true,
        decide_eq_true_eq] at hx ⊢
      grind
    · cases h

theorem keyword_of_head {word : List Char} {x y : Char} {xs : List Char} (hc : c.rest = x :: xs)
    (hx : x ≠ y) : c.keyword (y :: word) = none := by
  rw [keyword, chars, char_eq_none, Option.bind_none]
  rw [hc]
  exact fun h => hx (Option.some.inj h)

theorem keyword_lt {word : List Char} (hword : word ≠ []) (h : c.keyword word = some d) :
    c < d := by
  unfold keyword at h
  split at h
  · cases h
  · next hc =>
    split at h
    · cases h
    · cases h; exact chars_lt hword hc

theorem bareToken_lt {t : Token} (h : c.bareToken = some (t, d)) : c < d := by
  simp only [bareToken] at h
  split at h
  · cases h
  · next hempty => cases h; exact lt_of_span_not_empty (by simpa using hempty)

theorem backtickText_lt {t : Token} (h : c.backtickText = some (t, d)) : c < d := by
  simp only [backtickText, bind, Option.bind_eq_some_iff] at h
  obtain ⟨inner, hopen, close, hclose, heq⟩ := h
  cases heq
  exact (char_lt hopen).trans_le ((le_takeWhile _ inner).trans (char_lt hclose).le)

/-- What stands before the closing quote is the front of the text. -/
theorem quotedRun_spec {text run : List Char} (h : quotedRun text = some run) :
    ∃ tail, text = run ++ '"' :: tail := by
  fun_induction quotedRun text generalizing run with
  | case1 => cases h
  | case2 x xs ih =>
    obtain ⟨run', hrun, rfl⟩ := Option.map_eq_some_iff.1 h
    obtain ⟨tail, rfl⟩ := ih hrun
    exact ⟨tail, rfl⟩
  | case3 xs => cases h; exact ⟨xs, rfl⟩
  | case4 => cases h
  | case5 x xs hbackslash hquote hend ih =>
    obtain ⟨run', hrun, rfl⟩ := Option.map_eq_some_iff.1 h
    obtain ⟨tail, rfl⟩ := ih hrun
    exact ⟨tail, rfl⟩

theorem quotedText_lt {t : Token} (h : c.quotedText = some (t, d)) : c < d := by
  simp only [quotedText, bind, Option.bind_eq_some_iff] at h
  obtain ⟨inner, hopen, run, -, close, hclose, heq⟩ := h
  cases heq
  exact (char_lt hopen).trans_le ((le_skip _ inner).trans (char_lt hclose).le)

theorem restOfLine_lt {t : Token} (h : c.restOfLine = some (t, d)) : c < d := by
  simp only [restOfLine] at h
  split at h
  · cases h
  · next hempty =>
    cases h
    have hline : c.line ≠ [] := by
      intro hnil
      rw [hnil] at hempty
      exact hempty rfl
    have hrest : c.rest ≠ [] := by
      intro hnil
      rw [line, hnil] at hline
      exact hline rfl
    exact skip_lt (List.length_pos_iff.2 fun hnil => hempty (by rw [hnil]; rfl)) hrest

/-! ## Layout -/

/-- The text ends inside a comment, or with the `#` that opens one. -/
def EndsInComment (text : List Char) : Prop :=
  ∃ front comment, text = front ++ '#' :: comment ∧ '\n' ∉ comment

/-- White characters and comments; if `comment` is set, a comment is open in front of the text. -/
def IsGap (comment : Bool) (text : List Char) : Prop :=
  ∀ front x back, text = front ++ x :: back →
    Blank.isWhite x = true ∨ EndsInComment (front ++ [x]) ∨ (comment = true ∧ '\n' ∉ front ++ [x])

theorem EndsInComment.append {text : List Char} (front : List Char) (h : EndsInComment text) :
    EndsInComment (front ++ text) := by
  obtain ⟨pre, comment, rfl, hn⟩ := h
  exact ⟨front ++ pre, comment, (List.append_assoc ..).symm, hn⟩

/-- One more character in front of a gap. -/
theorem IsGap.cons {comment later : Bool} {x : Char} {xs : List Char} (h : IsGap later xs)
    (hx : Blank.isWhite x = true ∨ x = '#' ∨ (comment = true ∧ x ≠ '\n'))
    (hlater : later = true → x = '#' ∨ (comment = true ∧ x ≠ '\n')) : IsGap comment (x :: xs) := by
  intro front y back heq
  cases front with
  | nil =>
    cases heq
    rcases hx with hx | rfl | ⟨hc, hx⟩
    · exact Or.inl hx
    · exact Or.inr (Or.inl ⟨[], [], rfl, List.not_mem_nil⟩)
    · exact Or.inr (Or.inr ⟨hc, by simpa using Ne.symm hx⟩)
  | cons z front =>
    cases heq
    rcases h front y back rfl with hy | hy | ⟨hl, hy⟩
    · exact Or.inl hy
    · exact Or.inr (Or.inl (hy.append [x]))
    · rcases hlater hl with rfl | ⟨hc, hx⟩
      · exact Or.inr (Or.inl ⟨[], front ++ [y], rfl, hy⟩)
      · exact Or.inr (Or.inr ⟨hc, by simpa [Ne.symm hx] using hy⟩)

theorem isWhite_of_isLayout {x : Char} (h : Blank.isLayout x = true) : Blank.isWhite x = true := by
  simp only [Blank.isLayout, Bool.or_eq_true, beq_iff_eq] at h
  rcases h with ((h | h) | h) | h <;> subst h <;> decide

theorem not_isWhite_of_isIdentChar {x : Char} (h : isIdentChar x = true) :
    Blank.isWhite x = false := by
  delta isIdentChar Char.isAlphanum Char.isAlpha Char.isUpper Char.isLower Char.isDigit at h
  simp only [Bool.or_eq_true, Bool.and_eq_true, decide_eq_true_eq] at h
  rcases h with (h | rfl) | rfl
  · have hrange : 48 ≤ x.val ∧ x.val ≤ 122 := by grind
    simp only [UInt32.le_iff_toNat_le, UInt32.reduceToNat] at hrange
    simp only [Blank.isWhite, Bool.or_eq_false_iff, Bool.and_eq_false_iff, decide_eq_false_iff_not,
      beq_eq_false_iff_ne, ne_eq, UInt32.le_iff_toNat_le, ← UInt32.toNat_inj, UInt32.reduceToNat]
    omega
  · decide
  · decide

theorem layout_go_spec : ∀ {text : List Char} {comment : Bool} {c : Cursor}, c.rest = text →
    ∃ gap, text = gap ++ (layout.go comment text c).rest ∧
      layout.go comment text c = c.skip gap.length ∧ IsGap comment gap ∧
      ∀ x ∈ (layout.go comment text c).rest.head?, Blank.isLayout x = false ∧ x ≠ '#'
  | [], comment, c, hc =>
    ⟨[], by simp [layout.go, hc], rfl, fun front x back h => by simp at h, by simp [layout.go, hc]⟩
  | x :: xs, comment, c, hc => by
    have hstep : (c.step x xs).rest = xs := rfl
    -- wherever the walk goes on, what it finds behind `x` is the gap without its first character
    have hcons (later : Bool)
        (hx : Blank.isWhite x = true ∨ x = '#' ∨ (comment = true ∧ x ≠ '\n'))
        (hlater : later = true → x = '#' ∨ (comment = true ∧ x ≠ '\n')) :
        ∃ gap, x :: xs = gap ++ (layout.go later xs (c.step x xs)).rest ∧
          layout.go later xs (c.step x xs) = c.skip gap.length ∧ IsGap comment gap ∧
          ∀ y ∈ (layout.go later xs (c.step x xs)).rest.head?,
            Blank.isLayout y = false ∧ y ≠ '#' := by
      obtain ⟨gap, htext, hskip, hgap, hstop⟩ :=
        @layout_go_spec xs later (c.step x xs) hstep
      refine ⟨x :: gap, by rw [List.cons_append, ← htext], ?_, hgap.cons hx hlater, hstop⟩
      rw [List.length_cons, skip_succ hc, hskip]
    rw [layout.go]
    split
    · next h =>
      have hopen : comment = true ∧ x ≠ '\n' := by simpa using h
      exact hcons true (Or.inr (Or.inr hopen)) fun _ => Or.inr hopen
    · next hopen =>
      split
      · next h => exact hcons false (Or.inl (isWhite_of_isLayout h)) nofun
      · next hlayout =>
        split
        · next h => exact hcons true (Or.inr (Or.inl h)) fun _ => Or.inl h
        · next hx =>
          refine ⟨[], hc.symm, rfl, fun front y back h => by simp at h, fun y hy => ?_⟩
          rw [hc] at hy
          cases hy
          exact ⟨by simpa using hlayout, hx⟩

/-- Layout is a gap, and ends at the end of the text or before a character that is none. -/
theorem layout_spec (c : Cursor) :
    ∃ gap, c.rest = gap ++ c.layout.rest ∧ c.layout = c.skip gap.length ∧ IsGap false gap ∧
      ∀ x ∈ c.layout.rest.head?, Blank.isLayout x = false ∧ x ≠ '#' :=
  layout_go_spec rfl

theorem le_layout (c : Cursor) : c ≤ c.layout := by
  obtain ⟨gap, -, hskip, -, -⟩ := layout_spec c
  exact ⟨gap.length, hskip⟩

theorem layout_of_head (h : ∀ x ∈ c.rest.head?, Blank.isLayout x = false ∧ x ≠ '#') :
    c.layout = c := by
  cases hc : c.rest with
  | nil => rw [layout, hc, layout.go]
  | cons x xs =>
    obtain ⟨hblank, hhash⟩ := h x (by rw [hc]; rfl)
    rw [layout, hc, layout.go, Bool.false_and, if_neg Bool.false_ne_true, hblank,
      if_neg Bool.false_ne_true, if_neg hhash]

/-! ## Repetition -/

variable {α : Type} {item : Cursor → Option (α × Cursor)}

theorem many_of_none (h : item c = none) : c.many item = ([], c) := by
  rw [many, h]

theorem many_of_lt {a : α} (h : item c = some (a, d)) (hlt : c < d) :
    c.many item = (a :: (d.many item).1, (d.many item).2) := by
  rw [many, h]
  exact if_pos (lt_iff.1 hlt).2

/-- Repetition: what holds where nothing more is read, and is carried back over each reading that
moves on, holds of the whole. -/
theorem many_induction {motive : Cursor → List α × Cursor → Prop}
    (hmoves : ∀ c a d, item c = some (a, d) → c < d)
    (hstop : ∀ c, item c = none → motive c ([], c))
    (hread : ∀ c a d, item c = some (a, d) → c < d → motive d (d.many item) →
      motive c (a :: (d.many item).1, (d.many item).2))
    (c : Cursor) : motive c (c.many item) := by
  induction hn : c.rest.length using Nat.strongRecOn generalizing c with
  | ind n ih =>
    cases hc : item c with
    | none => rw [many_of_none hc]; exact hstop c hc
    | some r =>
      obtain ⟨a, d⟩ := r
      have hlt := hmoves c a d hc
      rw [many_of_lt hc hlt]
      exact hread c a d hc hlt (ih _ (hn ▸ (lt_iff.1 hlt).2) d rfl)

theorem le_many (hmoves : ∀ c a d, item c = some (a, d) → c < d) (c : Cursor) :
    c ≤ (c.many item).2 :=
  many_induction (motive := fun c r => c ≤ r.2) hmoves (fun c _ => le_refl c)
    (fun _ _ _ _ hlt ih => hlt.le.trans ih) c

/-- What is read in a repetition is read at a cursor that the repetition comes by. -/
theorem mem_many_within {a : α} (hmoves : ∀ c a d, item c = some (a, d) → c < d) (c : Cursor) :
    a ∈ (c.many item).1 → ∃ c' d', c ≤ c' ∧ d' ≤ (c.many item).2 ∧ item c' = some (a, d') := by
  refine many_induction
    (motive := fun c r => a ∈ r.1 → ∃ c' d', c ≤ c' ∧ d' ≤ r.2 ∧ item c' = some (a, d'))
    hmoves ?_ ?_ c
  · intro c _ hmem
    exact absurd hmem List.not_mem_nil
  · intro c b d hread hlt ih hmem
    rcases List.mem_cons.1 hmem with rfl | hmem
    · exact ⟨c, d, le_refl c, le_many hmoves d, hread⟩
    · obtain ⟨c', d', hc, hd, hread'⟩ := ih hmem
      exact ⟨c', d', hlt.le.trans hc, hd, hread'⟩

theorem mem_many {a : α} (hmoves : ∀ c a d, item c = some (a, d) → c < d) (c : Cursor)
    (h : a ∈ (c.many item).1) : ∃ c d, item c = some (a, d) := by
  obtain ⟨c', d', -, -, hread⟩ := mem_many_within hmoves c h
  exact ⟨c', d', hread⟩

/-! ## Cursors that a repetition comes by -/

/-- Reading with `item` again and again from `c` on comes by the cursor `d`. -/
def Comes (item : Cursor → Option (α × Cursor)) : Cursor → Cursor → Prop :=
  Relation.ReflTransGen fun c d => ∃ a, item c = some (a, d)

theorem Comes.le (hmoves : ∀ c a d, item c = some (a, d) → c < d) (h : Comes item c d) : c ≤ d := by
  induction h with
  | refl => exact le_rfl
  | tail _ hstep ih =>
    obtain ⟨a, ha⟩ := hstep
    exact ih.trans (hmoves _ a _ ha).le

/-- From a cursor that it comes by, a repetition goes on as it does from its start. -/
theorem Comes.many_eq (hmoves : ∀ c a d, item c = some (a, d) → c < d) (h : Comes item c d) :
    (c.many item).2 = (d.many item).2 ∧ ∀ a ∈ (d.many item).1, a ∈ (c.many item).1 := by
  induction h using Relation.ReflTransGen.head_induction_on with
  | refl => exact ⟨rfl, fun a ha => ha⟩
  | head hstep _ ih =>
    obtain ⟨a, ha⟩ := hstep
    rw [many_of_lt ha (hmoves _ a _ ha)]
    exact ⟨ih.1, fun a' ha' => List.mem_cons_of_mem a (ih.2 a' ha')⟩

/-- A repetition ends where it comes by and can read nothing. -/
theorem Comes.stop (hmoves : ∀ c a d, item c = some (a, d) → c < d) (h : Comes item c d)
    (hd : item d = none) : (c.many item).2 = d := by
  rw [(h.many_eq hmoves).1, many_of_none hd]

theorem Comes.mem_many {a : α} {b : Cursor} (hmoves : ∀ c a d, item c = some (a, d) → c < d)
    (h : Comes item c b) (ha : item b = some (a, d)) : a ∈ (c.many item).1 := by
  refine (h.many_eq hmoves).2 a ?_
  rw [many_of_lt ha (hmoves b a d ha)]
  exact List.mem_cons_self

theorem comes_many (hmoves : ∀ c a d, item c = some (a, d) → c < d) (c : Cursor) :
    Comes item c (c.many item).2 :=
  many_induction (motive := fun c r => Comes item c r.2) hmoves (fun _ _ => .refl)
    (fun _ a _ ha _ ih => .head ⟨a, ha⟩ ih) c

theorem exists_comes {a : α} (hmoves : ∀ c a d, item c = some (a, d) → c < d) (c : Cursor) :
    a ∈ (c.many item).1 → ∃ b d, Comes item c b ∧ item b = some (a, d) := by
  refine many_induction
    (motive := fun c r => a ∈ r.1 → ∃ b d, Comes item c b ∧ item b = some (a, d)) hmoves
    (fun c _ => nofun) (fun c a' d ha' _ ih hmem => ?_) c
  rcases List.mem_cons.1 hmem with rfl | hmem
  · exact ⟨c, d, .refl, ha'⟩
  · obtain ⟨b, e, hb, ha⟩ := ih hmem
    exact ⟨b, e, .head ⟨a', ha'⟩ hb, ha⟩

end Cursor
end PipelineLang
