import Mathlib.Data.List.TakeWhile
import PipelineLang.Proofs.Grammar.Movement
import PipelineLang.Proofs.Grammar.Shift

/-!
# Reading with text in front and behind

`c.within front back` is the cursor `c` where `front` stands before the text and `back` behind it.
What a reader finds there is what it finds at `c`, shifted by the bytes of `front` (`Agrees`), as
long as it does not look beyond the text it was given. It does not if there is nothing behind, or if
the text ends with a line feed (`Closed`): every token ends before that line feed, but for a text in
backticks or quotes. A text in quotes does so as well if no backslash takes the line feed along
(`Sealed`), and either of them if it is read at all.
-/

namespace PipelineLang

open Utf8

/-- The text ends with a line feed. -/
def EndsInLineFeed (text : List Char) : Prop := text.getLast? = some '\n'

instance (text : List Char) : Decidable (EndsInLineFeed text) :=
  inferInstanceAs (Decidable (text.getLast? = some '\n'))

namespace EndsInLineFeed

variable {text tail : List Char}

theorem ne_nil (h : EndsInLineFeed text) : text ≠ [] := by
  rintro rfl
  cases h

theorem mem (h : EndsInLineFeed text) : '\n' ∈ text := List.mem_of_getLast? h

/-- What is left of such a text is one, until nothing is left. -/
theorem suffix (h : EndsInLineFeed text) (hs : tail <:+ text) (htail : tail ≠ []) :
    EndsInLineFeed tail := by
  obtain ⟨front, rfl⟩ := hs
  rwa [EndsInLineFeed, List.getLast?_append, List.getLast?_eq_some_getLast htail,
    Option.some_or, ← List.getLast?_eq_some_getLast htail] at h

theorem dropWhile_ne_nil {p : Char → Bool} (h : EndsInLineFeed text) (hp : p '\n' = false) :
    text.dropWhile p ≠ [] := by
  rw [Ne, List.dropWhile_eq_nil_iff]
  intro hall
  exact absurd (hall _ h.mem) (by rw [hp]; exact Bool.false_ne_true)

end EndsInLineFeed

/-- The text ends with a line feed, and no backslash stands in front of it. -/
def EndsLine (text : List Char) : Prop :=
  ∃ front, text = front ++ ['\n'] ∧ front.getLast? ≠ some '\\'

theorem EndsLine.endsInLineFeed {text : List Char} (h : EndsLine text) : EndsInLineFeed text := by
  obtain ⟨front, rfl, -⟩ := h
  exact List.getLast?_concat

theorem EndsLine.suffix {text tail : List Char} (h : EndsLine text) (hs : tail <:+ text)
    (htail : tail ≠ []) : EndsLine tail := by
  obtain ⟨front, rfl, hfront⟩ := h
  obtain ⟨pre, hpre⟩ := hs
  rcases List.append_eq_append_iff.1 hpre with ⟨m, hfront', htail'⟩ | ⟨m, -, hm⟩
  · refine ⟨m, htail', fun hm => hfront ?_⟩
    rw [hfront', List.getLast?_append, hm]
    rfl
  · cases m with
    | nil => exact ⟨[], hm.symm, nofun⟩
    | cons x m =>
      rw [List.cons_append, List.cons.injEq] at hm
      exact absurd (List.append_eq_nil_iff.1 hm.2.symm).2 htail

namespace Cursor

/-- The same place where `front` stands before the text and `back` behind it. -/
def within (front back : List Char) (c : Cursor) : Cursor :=
  { offset := c.offset + byteLength front
    column := c.column
    before := c.before.or front.getLast?
    rest := c.rest ++ back }

/-- What is left of the text keeps its readers from what stands behind it. -/
def Closed (back : List Char) (c : Cursor) : Prop := back = [] ∨ EndsInLineFeed c.rest

/-- What is left of the text keeps a text in quotes from what stands behind it. -/
def Sealed (back : List Char) (c : Cursor) : Prop := back = [] ∨ EndsLine c.rest

end Cursor

/-- What changes in a value that was read, if `front` stands before the text and `back` behind it,
and whether the cursors in it are closed. -/
class Framed (α : Type) where
  within : List Char → List Char → α → α
  Closed : List Char → α → Prop

namespace Framed

/-- Values that hold places only. -/
@[reducible] def shifted {α : Type} (shift : Nat → α → α) : Framed α :=
  ⟨fun front _ => shift (byteLength front), fun _ _ => True⟩

/-- Values that hold no places. -/
@[reducible] def fixed (α : Type) : Framed α := ⟨fun _ _ a => a, fun _ _ => True⟩

instance : Framed Cursor := ⟨Cursor.within, Cursor.Closed⟩
instance : Framed Token := shifted Token.shift
instance : Framed String := fixed String

instance {α β : Type} [Framed α] [Framed β] : Framed (α × β) where
  within front back p := (within front back p.1, within front back p.2)
  Closed back p := Closed back p.1 ∧ Closed back p.2

instance {α : Type} [Framed α] : Framed (List α) where
  within front back := List.map (within front back)
  Closed back as := ∀ a ∈ as, Closed back a

end Framed

/-- What is read at a cursor, `x`, and what is read there within a larger text, `y`: the same but
for the places, and what is left is closed. -/
def Agrees {α : Type} [Framed α] (front back : List Char) (x y : Option α) : Prop :=
  y = x.map (Framed.within front back) ∧ ∀ a ∈ x, Framed.Closed back a

namespace Agrees

variable {α β : Type} [Framed α] [Framed β] {front back : List Char} {x y : Option α}

theorem none : Agrees front back (none : Option α) none := ⟨rfl, nofun⟩

theorem some {a : α} (h : Framed.Closed back a) :
    Agrees front back (some a) (some (Framed.within front back a)) :=
  ⟨rfl, fun _ ha => Option.some.inj ha ▸ h⟩

theorem of_eq {a a' : α} (heq : a' = Framed.within front back a) (h : Framed.Closed back a) :
    Agrees front back (.some a) (.some a') := heq ▸ some h

theorem cases (h : Agrees front back x y) :
    (x = .none ∧ y = .none) ∨
      ∃ a, x = .some a ∧ y = .some (Framed.within front back a) ∧ Framed.Closed back a := by
  obtain ⟨rfl, hclosed⟩ := h
  cases x with
  | none => exact Or.inl ⟨rfl, rfl⟩
  | some a => exact Or.inr ⟨a, rfl, rfl, hclosed a rfl⟩

/-- Two readers in a row. -/
theorem bind {g k : α → Option β} (h : Agrees front back x y)
    (hnext : ∀ a, x = .some a → Framed.Closed back a →
      Agrees front back (g a) (k (Framed.within front back a))) :
    Agrees front back (x >>= g) (y >>= k) := by
  rcases h.cases with ⟨rfl, rfl⟩ | ⟨a, rfl, rfl, ha⟩
  · exact none
  · exact hnext a rfl ha

/-- `bind` behind a reader that returns a cursor only. -/
theorem bind_cursor {x y : Option Cursor} {g k : Cursor → Option β} (h : Agrees front back x y)
    (hnext : ∀ d, Cursor.Closed back d → Agrees front back (g d) (k (d.within front back))) :
    Agrees front back (x >>= g) (y >>= k) := h.bind fun d _ hd => hnext d hd

/-- `bind` behind a reader that returns something with a cursor. -/
theorem bind_read {x y : Option (α × Cursor)} {g k : α × Cursor → Option β}
    (h : Agrees front back x y)
    (hnext : ∀ a d, Cursor.Closed back d →
      Agrees front back (g (a, d)) (k (Framed.within front back a, d.within front back))) :
    Agrees front back (x >>= g) (y >>= k) := h.bind fun p _ hp => hnext p.1 p.2 hp.2

/-- `bind` where the two readers together are known to read something. -/
theorem bind_of_read {g k : α → Option β} (h : Agrees front back x y)
    (hread : back = [] ∨ x >>= g ≠ .none)
    (hnext : ∀ a, x = .some a → Framed.Closed back a → (back = [] ∨ g a ≠ .none) →
      Agrees front back (g a) (k (Framed.within front back a))) :
    Agrees front back (x >>= g) (y >>= k) :=
  h.bind fun a ha hclosed => hnext a ha hclosed (hread.imp_right fun hread hnone =>
    hread (by rw [ha]; exact hnone))

theorem map {g k : α → β} (h : Agrees front back x y)
    (hg : ∀ a, Framed.Closed back a →
      k (Framed.within front back a) = Framed.within front back (g a) ∧ Framed.Closed back (g a)) :
    Agrees front back (x.map g) (y.map k) := by
  rcases h.cases with ⟨rfl, rfl⟩ | ⟨a, rfl, rfl, ha⟩
  · exact none
  · obtain ⟨hk, hclosed⟩ := hg a ha
    rw [Option.map_some, Option.map_some, hk]
    exact some hclosed

/-- A reader and, where it reads nothing, another one. -/
theorem or {x' y' : Option α} (h : Agrees front back x y)
    (h' : x = .none → Agrees front back x' y') : Agrees front back (x.or x') (y.or y') := by
  rcases h.cases with ⟨rfl, rfl⟩ | ⟨a, rfl, rfl, ha⟩
  · rw [Option.none_or, Option.none_or]
    exact h' rfl
  · exact some ha

end Agrees

namespace Cursor

variable {front back : List Char} {c d : Cursor} {n : Nat}

theorem offset_within (front back : List Char) (c : Cursor) :
    (c.within front back).offset = c.offset + byteLength front := rfl

theorem column_within (front back : List Char) (c : Cursor) :
    (c.within front back).column = c.column := rfl

/-! ## Cursors that are closed -/

theorem Closed.of_le (h : Closed back c) (hle : c ≤ d) (hd : d.rest ≠ []) : Closed back d :=
  h.imp_right fun h => h.suffix (rest_suffix hle) hd

theorem Sealed.closed (h : Sealed back c) : Closed back c := h.imp_right EndsLine.endsInLineFeed

theorem Sealed.of_le (h : Sealed back c) (hle : c ≤ d) (hd : Closed back d) : Sealed back d := by
  rcases hd with hback | hd
  · exact Or.inl hback
  · exact h.imp_right fun h => h.suffix (rest_suffix hle) hd.ne_nil

theorem Closed.peek (h : Closed back c) : (c.within front back).peek = c.peek := by
  rcases h with rfl | h
  · rw [Cursor.peek, within, List.append_nil, Cursor.peek]
  · obtain ⟨x, xs, hc⟩ := List.exists_cons_of_ne_nil h.ne_nil
    rw [Cursor.peek, within, Cursor.peek, hc]
    rfl

/-- A run that ends in a text is the same with more behind that text. -/
theorem takeWhile_append_of_dropWhile {p : Char → Bool} {xs : List Char}
    (h : xs.dropWhile p ≠ []) (ys : List Char) : (xs ++ ys).takeWhile p = xs.takeWhile p := by
  rw [List.takeWhile_append, if_neg]
  intro hlen
  have hsplit := List.takeWhile_append_dropWhile (p := p) (l := xs)
  rw [(List.takeWhile_prefix p).eq_of_length hlen] at hsplit
  exact h (List.append_right_eq_self.1 hsplit)

theorem Closed.takeWhile {p : Char → Bool} (h : Closed back c) (hp : p '\n' = false) :
    (c.rest ++ back).takeWhile p = c.rest.takeWhile p := by
  rcases h with rfl | h
  · rw [List.append_nil]
  · exact takeWhile_append_of_dropWhile (h.dropWhile_ne_nil hp) back

theorem skip_within (hn : n ≤ c.rest.length) :
    (c.within front back).skip n = (c.skip n).within front back := by
  induction n generalizing c with
  | zero => rfl
  | succ n ih =>
    cases hc : c.rest with
    | nil => rw [hc] at hn; cases hn
    | cons x xs =>
      rw [hc, List.length_cons] at hn
      have hstep : (c.within front back).step x (xs ++ back) = (c.step x xs).within front back := by
        simp only [step, within, Option.some_or, Cursor.mk.injEq, and_true]
        exact Nat.add_right_comm ..
      have hrest : (c.within front back).rest = x :: (xs ++ back) := by rw [within, hc]; rfl
      rw [skip_succ hc, skip_succ hrest, hstep, ih (Nat.le_of_succ_le_succ hn)]

theorem takeWhile_within {p : Char → Bool}
    (h : (c.rest ++ back).takeWhile p = c.rest.takeWhile p) :
    (c.within front back).takeWhile p = Framed.within front back (c.takeWhile p) := by
  have hskip : (c.within front back).skip (c.rest.takeWhile p).length
      = (c.skip (c.rest.takeWhile p).length).within front back :=
    skip_within (List.takeWhile_prefix p).length_le
  rw [Cursor.takeWhile, Cursor.takeWhile,
    show (c.within front back).rest = c.rest ++ back from rfl, h,
    hskip]
  rfl

theorem Closed.run {p : Char → Bool} (h : Closed back c) (hp : p '\n' = false) :
    Closed back (c.takeWhile p).2 := by
  refine h.imp_right fun h => h.suffix (rest_suffix (le_takeWhile p c)) ?_
  rw [show (c.takeWhile p).2 = c.skipWhile p from rfl, rest_skipWhile]
  exact h.dropWhile_ne_nil hp

theorem Closed.run_within {p : Char → Bool} (h : Closed back c) (hp : p '\n' = false) :
    (c.within front back).takeWhile p = Framed.within front back (c.takeWhile p) :=
  takeWhile_within (h.takeWhile hp)

theorem Closed.blanks (h : Closed back c) : Closed back c.blanks := h.run (p := Blank.isInline) rfl

theorem Closed.blanks_within (h : Closed back c) :
    (c.within front back).blanks = c.blanks.within front back :=
  congrArg Prod.snd (h.run_within (p := Blank.isInline) rfl)

theorem Closed.lineEnd (h : Closed back c) : Closed back c.lineEnd := h.run (p := (· != '\n')) rfl

theorem Closed.lineEnd_within (h : Closed back c) :
    (c.within front back).lineEnd = c.lineEnd.within front back :=
  congrArg Prod.snd (h.run_within (p := (· != '\n')) rfl)

theorem Closed.line (h : Closed back c) : (c.within front back).line = c.line := h.takeWhile rfl

/-! ## Readers of tokens -/

theorem Closed.char {x : Char} (h : Closed back c) (hx : x ≠ '\n') :
    Agrees front back (c.char x) ((c.within front back).char x) := by
  cases hc : c.rest with
  | nil =>
    rcases h with rfl | h
    · rw [Cursor.char, Cursor.char, within, hc]
      exact Agrees.none
    · exact absurd hc h.ne_nil
  | cons y ys =>
    have hrest : (c.within front back).rest = y :: (ys ++ back) := by rw [within, hc]; rfl
    rw [Cursor.char, Cursor.char, hc, hrest]
    by_cases hy : y = x
    · have hlen : 1 ≤ c.rest.length := by rw [hc]; exact Nat.succ_pos _
      simp only [if_pos hy]
      rw [step_eq_skip hc, step_eq_skip hrest, skip_within hlen]
      refine Agrees.some (h.imp_right fun h => h.suffix (rest_suffix (le_skip 1 c)) ?_)
      rw [rest_skip, hc, List.drop_one, List.tail_cons]
      rintro rfl
      rw [hc] at h
      exact hx (hy ▸ (List.mem_singleton.1 h.mem).symm)
    · simp only [if_neg hy]
      exact Agrees.none

theorem Closed.blanks_char {x : Char} (h : Closed back c) (hx : x ≠ '\n') :
    Agrees front back (c.blanks.char x) ((c.within front back).blanks.char x) :=
  h.blanks_within ▸ h.blanks.char hx

theorem Closed.chars {word : List Char} (h : Closed back c) (hword : '\n' ∉ word) :
    Agrees front back (c.chars word) ((c.within front back).chars word) := by
  induction word generalizing c with
  | nil => exact Agrees.some h
  | cons x xs ih =>
    rw [List.mem_cons, not_or] at hword
    exact (h.char (Ne.symm hword.1)).bind_cursor fun d hd => ih hd hword.2

theorem Closed.someBlanks (h : Closed back c) :
    Agrees front back c.someBlanks (c.within front back).someBlanks := by
  rw [someBlanks_eq, someBlanks_eq, h.peek, h.blanks_within]
  split
  · exact Agrees.some h.blanks
  · exact Agrees.none

theorem Closed.identifier (h : Closed back c) :
    Agrees front back c.identifier (c.within front back).identifier := by
  rw [identifier_eq, identifier_eq, h.peek, h.run_within rfl]
  split
  · exact Agrees.some ⟨trivial, h.run rfl⟩
  · exact Agrees.none

theorem Closed.keyword {word : List Char} (h : Closed back c) (hword : '\n' ∉ word) :
    Agrees front back (c.keyword word) ((c.within front back).keyword word) := by
  rw [Cursor.keyword, Cursor.keyword]
  rcases (h.chars hword : Agrees front back _ _).cases with ⟨hx, hy⟩ | ⟨d, hx, hy, hd⟩
  · rw [hx, hy]
    exact Agrees.none
  · rw [hx, hy]
    simp only [Framed.within, hd.peek]
    split
    · exact Agrees.none
    · exact Agrees.some hd

theorem Closed.bareToken (h : Closed back c) :
    Agrees front back c.bareToken (c.within front back).bareToken := by
  have hrun : (c.within front back).takeWhile (!Blank.isAscii ·) = _ := h.run_within rfl
  simp only [Cursor.bareToken, hrun, Framed.within, Token.shift, Span.isEmpty_shift]
  split
  · exact Agrees.none
  · exact Agrees.some ⟨trivial, h.run rfl⟩

theorem Closed.atTokenEnd (h : Closed back c) :
    (c.within front back).atTokenEnd = c.atTokenEnd := by
  rw [Cursor.atTokenEnd, h.peek, Cursor.atTokenEnd]

/-- A text in backticks that is read at all ends before what stands behind it. -/
theorem Closed.backtickText (h : Closed back c) (hread : back = [] ∨ c.backtickText ≠ none) :
    Agrees front back c.backtickText (c.within front back).backtickText := by
  rcases (h.char (by decide) : Agrees front back (c.char tick) _).cases with
    ⟨hx, hy⟩ | ⟨inner, hx, hy, hinner⟩
  · rw [Cursor.backtickText, Cursor.backtickText, hx, hy]
    exact Agrees.none
  have hclosed : back = [] ∨ (inner.takeWhile (· != tick)).2.rest ≠ [] := by
    refine hread.imp_right fun hread hnil => hread ?_
    rw [Cursor.backtickText, hx]
    simp only [bind, Option.bind_some, Cursor.char, hnil, Option.bind_none]
  have hrun : (inner.rest ++ back).takeWhile (· != tick) = inner.rest.takeWhile (· != tick) := by
    rcases hclosed with rfl | hne
    · rw [List.append_nil]
    · rw [show (inner.takeWhile (· != tick)).2 = inner.skipWhile (· != tick) from rfl,
        rest_skipWhile] at hne
      exact takeWhile_append_of_dropWhile hne back
  rw [Cursor.backtickText, Cursor.backtickText, hx, hy]
  simp only [bind, Option.bind_some, Framed.within, takeWhile_within hrun]
  have hclose : Closed back (inner.takeWhile (· != tick)).2 :=
    hclosed.elim Or.inl (hinner.of_le (le_takeWhile _ inner))
  exact (hclose.char (by decide)).bind_cursor fun next hnext => Agrees.some ⟨trivial, hnext⟩

theorem quotedRun_append {text : List Char} (h : back = [] ∨ EndsLine text) :
    quotedRun (text ++ back) = quotedRun text := by
  rcases h with rfl | h
  · rw [List.append_nil]
  fun_induction quotedRun text with
  | case1 => exact absurd rfl h.endsInLineFeed.ne_nil
  | case2 x xs ih =>
    rw [List.cons_append, List.cons_append, quotedRun]
    cases xs with
    | nil =>
      obtain ⟨front, hfront, hlast⟩ := h
      have hlength : front.length = 1 := by simpa using congrArg List.length hfront
      have hback : ['\\'] ++ [x] = front ++ ['\n'] := hfront
      exact absurd ((List.append_inj hback hlength.symm).1 ▸ rfl) hlast
    | cons y ys => rw [ih (h.suffix ⟨['\\', x], rfl⟩ (List.cons_ne_nil y ys))]
  | case3 xs => rfl
  | case4 x xs hback hquote hend =>
    rw [List.cons_append, quotedRun, if_neg hquote, if_pos hend]
    rintro y ys rfl hys
    cases xs with
    | nil => exact absurd h.endsInLineFeed.mem (by decide)
    | cons z zs => exact hback z zs rfl rfl
  | case5 x xs hback hquote hend ih =>
    simp only [Bool.or_eq_true, decide_eq_true_eq, not_or] at hend
    rw [List.cons_append, quotedRun, if_neg hquote, if_neg (by simpa using hend), ih]
    · refine h.suffix ⟨[x], rfl⟩ ?_
      rintro rfl
      exact hend.1 (List.mem_singleton.1 h.endsInLineFeed.mem).symm
    · exact fun y ys hx => absurd hx hend.2

/-- What stands before a closing quote is the same with more behind that quote. -/
theorem quotedRun_append_of_some {text run : List Char} (h : quotedRun text = some run) :
    quotedRun (text ++ back) = some run := by
  fun_induction quotedRun text generalizing run with
  | case1 => cases h
  | case2 x xs ih =>
    obtain ⟨run, hrun, rfl⟩ := Option.map_eq_some_iff.1 h
    rw [List.cons_append, List.cons_append, quotedRun, ih hrun]
    rfl
  | case3 xs => exact h
  | case4 x xs hback hquote hend => cases h
  | case5 x xs hback hquote hend ih =>
    obtain ⟨run, hrun, rfl⟩ := Option.map_eq_some_iff.1 h
    simp only [Bool.or_eq_true, decide_eq_true_eq, not_or] at hend
    rw [List.cons_append, quotedRun, if_neg hquote, if_neg (by simpa using hend), ih hrun]
    · rfl
    · exact fun y ys hx => absurd hx hend.2

/-- A text in quotes ends before what stands behind it if the cursor is sealed, or if it is read at
all. -/
theorem Closed.quotedText (h : Closed back c) (hread : Sealed back c ∨ c.quotedText ≠ none) :
    Agrees front back c.quotedText (c.within front back).quotedText := by
  refine (h.char (by decide)).bind fun inner hx hinner => ?_
  have hrun : quotedRun (inner.within front back).rest = quotedRun inner.rest := by
    rcases hread with hread | hread
    · exact quotedRun_append (hread.of_le (char_lt hx).le hinner)
    · cases hquoted : quotedRun inner.rest with
      | some run => exact quotedRun_append_of_some hquoted
      | none =>
        refine absurd ?_ hread
        rw [Cursor.quotedText, hx]
        simp only [bind, Option.bind_some, hquoted, Option.bind_none]
  simp only [Framed.within, hrun]
  cases hquoted : quotedRun inner.rest with
  | none => exact Agrees.none
  | some run =>
    obtain ⟨tail, htail⟩ := quotedRun_spec hquoted
    have hlen : run.length ≤ inner.rest.length := by
      rw [htail, List.length_append]
      exact Nat.le_add_right ..
    have hclosed : Closed back (inner.skip run.length) := by
      refine Closed.of_le hinner (le_skip _ inner) ?_
      rw [rest_skip, htail, List.drop_left]
      exact List.cons_ne_nil _ tail
    simp only [bind, Option.bind_some, skip_within hlen]
    exact (hclosed.char (by decide)).bind_cursor fun next hnext => Agrees.some ⟨trivial, hnext⟩

theorem Closed.restOfLine (h : Closed back c) :
    Agrees front back c.restOfLine (c.within front back).restOfLine := by
  simp only [Cursor.restOfLine, h.line]
  split
  · exact Agrees.none
  · have hlen : (Blank.trimEnd c.line).length ≤ c.line.length := by
      obtain ⟨trail, htrail, -⟩ := Blank.exists_trimEnd_append c.line
      rw [congrArg List.length htrail, List.length_append]
      exact Nat.le_add_right ..
    have hline := congrArg List.length (rest_lineEnd c)
    rw [List.length_append] at hline
    rw [skip_within (hlen.trans (by omega))]
    have hend : c.skip (Blank.trimEnd c.line).length ≤ c.lineEnd := by
      refine ⟨c.line.length - (Blank.trimEnd c.line).length, ?_⟩
      rw [skip_skip, Nat.add_sub_cancel' hlen, Cursor.lineEnd]
    refine Agrees.some ⟨trivial, h.imp_right fun h => h.suffix (rest_suffix (le_skip _ c)) ?_⟩
    intro hnil
    have hlineEnd := rest_suffix hend
    rw [hnil, List.suffix_nil, show c.lineEnd = c.skipWhile (· != '\n') from rfl,
      rest_skipWhile] at hlineEnd
    exact h.dropWhile_ne_nil rfl hlineEnd

/-! ## Layout -/

theorem layout_go_within : ∀ {text : List Char} {comment : Bool} {c : Cursor}, c.rest = text →
    (back = [] ∨ EndsInLineFeed text ∨ (text = [] ∧ comment = false)) →
    layout.go comment (text ++ back) (c.within front back)
      = ((layout.go comment text c).within front back).layout
  | [], comment, c, hc, h => by
    have hrest : (c.within front back).rest = back := by rw [within, hc]; rfl
    rcases h with rfl | h | ⟨-, rfl⟩
    · rw [List.append_nil, layout.go, layout.go, layout_of_head (by rw [hrest]; rintro x ⟨⟩)]
    · exact absurd rfl h.ne_nil
    · rw [List.nil_append, layout.go, layout, hrest]
  | x :: xs, comment, c, hc, h => by
    have hrest : (c.within front back).rest = x :: (xs ++ back) := by rw [within, hc]; rfl
    have hlen : 1 ≤ c.rest.length := by rw [hc]; exact Nat.succ_pos _
    have hstep : (c.within front back).step x (xs ++ back) = (c.step x xs).within front back := by
      rw [step_eq_skip hc, step_eq_skip hrest, skip_within hlen]
    -- a comment that is open behind `x` is closed by a line feed further on
    have hnext (later : Bool) (hlater : later = true → x ≠ '\n') :
        layout.go later (xs ++ back) ((c.within front back).step x (xs ++ back))
          = ((layout.go later xs (c.step x xs)).within front back).layout := by
      rw [hstep]
      refine layout_go_within rfl (h.imp_right fun h => ?_)
      have hends : EndsInLineFeed (x :: xs) := h.resolve_right fun h => List.cons_ne_nil x xs h.1
      cases xs with
      | nil =>
        refine Or.inr ⟨rfl, Bool.eq_false_iff.2 fun hl => hlater hl ?_⟩
        exact (List.mem_singleton.1 hends.mem).symm
      | cons y ys => exact Or.inl (hends.suffix ⟨[x], rfl⟩ (List.cons_ne_nil y ys))
    rw [List.cons_append, layout.go, layout.go]
    split
    · next hopen => exact hnext true fun _ => by simpa using (Bool.and_eq_true_iff.1 hopen).2
    · split
      · exact hnext false fun hfalse => absurd hfalse Bool.false_ne_true
      · next hblank =>
        split
        · next hx => exact hnext true fun _ => by rw [hx]; decide
        · next hx =>
          refine (layout_of_head fun y hy => ?_).symm
          rw [hrest] at hy
          cases hy
          exact ⟨by simpa using hblank, hx⟩

/-- Layout reaches beyond the text only from its end. -/
theorem layout_within (h : Closed back c ∨ c.rest = []) :
    (c.within front back).layout = (c.layout.within front back).layout := by
  refine layout_go_within rfl ?_
  rcases h with (h | h) | h
  · exact Or.inl h
  · exact Or.inr (Or.inl h)
  · exact Or.inr (Or.inr ⟨h, rfl⟩)

theorem layout_layout_within (h : back = [] ∨ c.layout.rest ≠ []) :
    (c.layout.within front back).layout = c.layout.within front back := by
  obtain ⟨-, -, -, -, hstop⟩ := layout_spec c
  refine layout_of_head fun x hx => hstop x ?_
  rcases h with rfl | h
  · rwa [within, List.append_nil] at hx
  · obtain ⟨y, ys, hrest⟩ := List.exists_cons_of_ne_nil h
    rw [within, hrest] at hx
    rw [hrest]
    exact hx

theorem layout_of_rest_nil (h : c.rest = []) : c.layout = c :=
  layout_of_head (by rw [h]; rintro x ⟨⟩)

theorem layout_go_rest : ∀ {text : List Char} {comment : Bool} {c d : Cursor}, c.rest = text →
    d.rest = text → (layout.go comment text c).rest = (layout.go comment text d).rest
  | [], _, _, _, hc, hd => hc.trans hd.symm
  | x :: xs, comment, c, d, hc, hd => by
    rw [layout.go, layout.go]
    split
    · exact layout_go_rest rfl rfl
    · split
      · exact layout_go_rest rfl rfl
      · split
        · exact layout_go_rest rfl rfl
        · exact hc.trans hd.symm

/-- Where layout ends depends on what is left of the text only. -/
theorem layout_rest_congr (h : c.rest = d.rest) : c.layout.rest = d.layout.rest := by
  rw [layout, layout, h]
  exact layout_go_rest h rfl

/-! ## Fresh starts -/

/-- The text does not go on with the arrow of a step, a closing brace, or a name with an opening
parenthesis or a colon behind it: nothing that could belong to what stands before. -/
def IsFresh (text : List Char) : Prop :=
  ¬['|', '>'] <+: text ∧ text.head? ≠ some '\x7d' ∧
    (text.head?.any isIdentStart = true →
      ∀ x ∈ ((text.dropWhile isIdentChar).dropWhile Blank.isInline).head?, x ≠ '(' ∧ x ≠ ':')

/-- What the text starts with behind its layout is a fresh start. -/
def OpensAfresh (text : List Char) : Prop := IsFresh (start 0 text).layout.rest

theorem isFresh_nil : IsFresh [] := ⟨by decide, nofun, nofun⟩

theorem IsFresh.arrow (h : IsFresh c.rest) : c.chars ['|', '>'] = none := by
  by_cases hbar : c.rest.head? = some '|'
  · obtain ⟨xs, hc⟩ := List.head?_eq_some_iff.1 hbar
    have hgreater : (c.step '|' xs).rest.head? ≠ some '>' := by
      intro hxs
      obtain ⟨ys, rfl⟩ := List.head?_eq_some_iff.1 hxs
      exact h.1 (hc ▸ ⟨ys, rfl⟩)
    rw [chars, char, hc]
    simp only [if_true, Option.bind_some, chars, char_eq_none hgreater, Option.bind_none]
  · rw [chars, char_eq_none hbar, Option.bind_none]

theorem IsFresh.brace (h : IsFresh c.rest) : c.char '\x7d' = none := char_eq_none h.2.1

theorem IsFresh.name {t : Token} {x : Char} (h : IsFresh c.rest) (ht : c.identifier = some (t, d))
    (hx : x = '(' ∨ x = ':') : d.blanks.char x = none := by
  rw [identifier_eq] at ht
  split at ht
  · next hstart =>
    cases ht
    refine char_eq_none fun hhead => ?_
    have hrest : (c.takeWhile isIdentChar).2.blanks.rest
        = (c.rest.dropWhile isIdentChar).dropWhile Blank.isInline := by
      rw [blanks, rest_skipWhile,
        show (c.takeWhile isIdentChar).2 = c.skipWhile isIdentChar from rfl,
        rest_skipWhile]
    have hnext := h.2.2 hstart x (by rw [← hrest]; exact hhead)
    exact hx.elim hnext.1 hnext.2
  · cases ht

theorem Closed.layout (h : Closed back c) (hend : back = [] ∨ c.layout.rest ≠ []) :
    Closed back c.layout := hend.elim Or.inl (h.of_le (le_layout c))

theorem Closed.layout_eq (h : Closed back c) (hend : back = [] ∨ c.layout.rest ≠ []) :
    (c.within front back).layout = c.layout.within front back :=
  (layout_within (Or.inl h)).trans (layout_layout_within hend)

/-- Behind the layout of a closed cursor there is something that is closed as well, or the end of
the text and what stands behind its own layout. -/
theorem Closed.layout_or_end (front : List Char) (h : Closed back c) :
    (Closed back c.layout ∧ (c.within front back).layout = c.layout.within front back) ∨
      (c.layout.rest = [] ∧ (c.within front back).layout.rest = (start 0 back).layout.rest) := by
  by_cases hend : back = [] ∨ c.layout.rest ≠ []
  · exact Or.inl ⟨h.layout hend, h.layout_eq hend⟩
  · rw [not_or, not_not] at hend
    refine Or.inr ⟨hend.2, ?_⟩
    rw [layout_within (Or.inl h)]
    refine layout_rest_congr ?_
    rw [within, hend.2]
    rfl

/-- If that opens afresh, so do both texts. -/
theorem Closed.layout_cases (front : List Char) (h : Closed back c) (hback : OpensAfresh back) :
    (Closed back c.layout ∧ (c.within front back).layout = c.layout.within front back) ∨
      (IsFresh c.layout.rest ∧ IsFresh (c.within front back).layout.rest) :=
  (h.layout_or_end front).imp_right fun ⟨hend, hrest⟩ => ⟨hend ▸ isFresh_nil, hrest ▸ hback⟩

/-! ## Repetition -/

/-- The cursor behind what is read, or the same cursor if nothing is. -/
def after {α : Type} (item : Cursor → Option (α × Cursor)) (c : Cursor) : Cursor :=
  ((item c).map Prod.snd).getD c

/-- A repetition agrees if each of its readings does, at the cursors that it comes by. -/
theorem many_within {α : Type} [Framed α] {item : Cursor → Option (α × Cursor)}
    (front : List Char) (hmoves : ∀ c a d, item c = some (a, d) → c < d) (h : Closed back c)
    (hitem : ∀ d, Comes item c d → Closed back d →
      Agrees front back (item d) (item (d.within front back))) :
    (c.within front back).many item = Framed.within front back (c.many item) ∧
      Closed back (c.many item).2 := by
  revert h
  suffices ∀ b, Comes item c b → Closed back b →
      (b.within front back).many item = Framed.within front back (b.many item) ∧
        Closed back (b.many item).2 from this c .refl
  intro b
  refine many_induction (motive := fun b r => Comes item c b → Closed back b →
    (b.within front back).many item = Framed.within front back r ∧ Closed back r.2) hmoves ?_ ?_ b
  · intro b hnone hb hclosed
    obtain ⟨heq, -⟩ := hitem b hb hclosed
    rw [hnone] at heq
    rw [many_of_none heq]
    exact ⟨rfl, hclosed⟩
  · intro b a d hread hlt ih hb hclosed
    obtain ⟨heq, hrest⟩ := hitem b hb hclosed
    rw [hread] at heq
    obtain ⟨hmany, hlast⟩ := ih (hb.tail ⟨a, hread⟩) (hrest (a, d) hread).2
    rw [many_of_lt heq (hmoves _ _ _ heq)]
    refine ⟨?_, hlast⟩
    simp only [Framed.within] at hmany ⊢
    rw [hmany]
    rfl

/-- Where a repetition leaves a `Clear` cursor, each of its readings does: it ends with the first
one that does not, as nothing more is read there. -/
theorem Comes.clear_after {α : Type} {item : Cursor → Option (α × Cursor)} {Clear : Cursor → Prop}
    (hmoves : ∀ c a d, item c = some (a, d) → c < d) (hclear : ∀ c, ¬Clear c → item c = none)
    (h : Comes item c d) (hend : Clear (c.many item).2) : Clear (after item d) := by
  cases hread : item d with
  | none =>
    rw [after, hread]
    exact h.stop hmoves hread ▸ hend
  | some r =>
    rw [after, hread]
    by_contra hnot
    have hlast : Comes item c r.2 := h.tail ⟨r.1, hread⟩
    rw [hlast.stop hmoves (hclear r.2 hnot)] at hend
    exact hnot hend

end Cursor
end PipelineLang
