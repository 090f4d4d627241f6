import PipelineLang.Proofs.Grammar.LineEnds

/-!
# What is read across line ends

For each kind of value that is read, `Alike a a'` says that `a'` is what becomes of `a` where the
text has carriage returns. Places do not matter. A text has carriage returns of its own, and what is
made of texts is made of such texts. Readers that find something alike at cursors that are abreast
can be put in a row, tried in turn and repeated.
-/

namespace PipelineLang

open Lines

/-- `Alike a a'`: where `a` is read of a text, `a'` is read of the text with carriage returns. -/
class Returned (α : Type) where
  Alike : α → α → Prop

namespace Returned

/-- Values without places: their texts change, and nothing else. -/
@[reducible] def texts {α : Type} (retext : (String → String) → α → α) : Returned α :=
  ⟨fun a a' => a' = retext returned a⟩

/-- Values with places, which do not matter. -/
@[reducible] def placed {α : Type} (unplaced : α → α) (retext : (String → String) → α → α) :
    Returned α :=
  ⟨fun a a' => unplaced a' = unplaced (retext returned a)⟩

instance : Returned Cursor := ⟨Cursor.Abreast⟩
instance : Returned Span := ⟨fun _ _ => True⟩
instance : Returned String := ⟨fun s s' => s' = returned s⟩
instance : Returned Token := ⟨fun t t' => t'.text = returned t.text⟩
instance : Returned SyntaxReport := ⟨fun r r' => r'.fault = r.fault⟩

instance {α β : Type} [Returned α] [Returned β] : Returned (α × β) :=
  ⟨fun p p' => Alike p.1 p'.1 ∧ Alike p.2 p'.2⟩

instance {α : Type} [Returned α] : Returned (Option α) := ⟨Option.Rel Alike⟩
instance {α : Type} [Returned α] : Returned (List α) := ⟨List.Forall₂ Alike⟩
instance {α : Type} [Returned α] : Returned (Spanned α) := ⟨fun v v' => Alike v.value v'.value⟩

instance : Returned ConfigValue := texts ConfigValue.retext
instance : Returned ConfigProperty := texts ConfigProperty.retext
instance : Returned Config := texts Config.retext
instance : Returned Payload := texts Payload.retext
instance : Returned Step := placed Step.unplaced Step.retext
instance : Returned Branch := placed Branch.unplaced Branch.retext
instance : Returned NamedPipeline := placed NamedPipeline.unplaced NamedPipeline.retext
instance : Returned Variable := placed Variable.unplaced Variable.retext
instance : Returned Route := placed Route.unplaced Route.retext
instance : Returned Mock := texts Mock.retext
instance : Returned Action := texts Action.retext
instance : Returned Lead := ⟨fun l l' => l' = l⟩
instance : Returned Condition := texts Condition.retext
instance : Returned TestCase := texts TestCase.retext
instance : Returned TestSuite := texts TestSuite.retext

namespace Alike

variable {α β : Type} [Returned α] [Returned β]

/-! ## Options -/

theorem none : Alike (none : Option α) Option.none := Option.Rel.none

theorem some {a a' : α} (h : Alike a a') : Alike (some a) (Option.some a') := Option.Rel.some h

theorem cases {x x' : Option α} (h : Alike x x') :
    (x = .none ∧ x' = .none) ∨ ∃ a a', x = .some a ∧ x' = .some a' ∧ Alike a a' := by
  cases h with
  | none => exact Or.inl ⟨rfl, rfl⟩
  | some ha => exact Or.inr ⟨_, _, rfl, rfl, ha⟩

/-- Two readers in a row. -/
theorem bind {x x' : Option α} {g k : α → Option β} (h : Alike x x')
    (hnext : ∀ a a', x = .some a → Alike a a' → Alike (g a) (k a')) :
    Alike (x >>= g) (x' >>= k) := by
  rcases h.cases with ⟨rfl, rfl⟩ | ⟨a, a', rfl, rfl, ha⟩
  · exact none
  · exact hnext a a' rfl ha

/-- `bind` behind a reader that returns a cursor only. -/
theorem bind_cursor {x x' : Option Cursor} {g k : Cursor → Option β} (h : Alike x x')
    (hnext : ∀ d d', Cursor.Abreast d d' → Alike (g d) (k d')) :
    Alike (x >>= g) (x' >>= k) := h.bind fun d d' _ hd => hnext d d' hd

/-- `bind` behind a reader that returns something with a cursor. -/
theorem bind_read {x x' : Option (α × Cursor)} {g k : α × Cursor → Option β} (h : Alike x x')
    (hnext : ∀ a a' d d', Alike a a' → Cursor.Abreast d d' → Alike (g (a, d)) (k (a', d'))) :
    Alike (x >>= g) (x' >>= k) :=
  h.bind fun p p' _ hp => hnext p.1 p'.1 p.2 p'.2 hp.1 hp.2

theorem map {x x' : Option α} {g k : α → β} (h : Alike x x')
    (hg : ∀ a a', Alike a a' → Alike (g a) (k a')) : Alike (x.map g) (x'.map k) := by
  rcases h.cases with ⟨rfl, rfl⟩ | ⟨a, a', rfl, rfl, ha⟩
  · exact none
  · exact some (hg a a' ha)

/-- A reader and, where it reads nothing, another one. -/
theorem or {x x' y y' : Option α} (h : Alike x x') (h' : Alike y y') :
    Alike (x.or y) (x'.or y') := by
  rcases h.cases with ⟨rfl, rfl⟩ | ⟨a, a', rfl, rfl, ha⟩
  · rw [Option.none_or, Option.none_or]
    exact h'
  · exact some ha

theorem option_eq_map {γ : Type} {f : γ → γ} {x x' : Option γ}
    (h : Option.Rel (fun a a' => a' = f a) x x') : x' = x.map f := by
  cases h with
  | none => rfl
  | some ha => exact congrArg Option.some ha

/-! ## Lists -/

theorem nil : Alike ([] : List α) [] := List.Forall₂.nil

theorem cons {a a' : α} {as as' : List α} (h : Alike a a') (hs : Alike as as') :
    Alike (a :: as) (a' :: as') := List.Forall₂.cons h hs

theorem report {r r' : SyntaxReport} (h : r'.fault = r.fault) : Alike [r] [r'] := cons h nil

theorem append {as as' bs bs' : List α} (ha : Alike as as') (hb : Alike bs bs') :
    Alike (as ++ bs) (as' ++ bs') := List.rel_append ha hb

theorem mapList {as as' : List α} {g k : α → β} (hg : ∀ a a', Alike a a' → Alike (g a) (k a'))
    (h : Alike as as') : Alike (as.map g) (as'.map k) := List.rel_map (fun a a' => hg a a') h

theorem filterMap {as as' : List α} {g k : α → Option β}
    (hg : ∀ a a', Alike a a' → Alike (g a) (k a')) (h : Alike as as') :
    Alike (as.filterMap g) (as'.filterMap k) := List.rel_filterMap (fun a a' => hg a a') h

theorem flatMap {as as' : List α} {g k : α → List β}
    (hg : ∀ a a', Alike a a' → Alike (g a) (k a')) (h : Alike as as') :
    Alike (as.flatMap g) (as'.flatMap k) := List.rel_flatMap h (fun a a' => hg a a')

theorem list_map_eq_map {γ δ : Type} {f g : γ → δ} {as as' : List γ}
    (h : List.Forall₂ (fun a a' => g a' = f a) as as') : as'.map g = as.map f := by
  induction h with
  | nil => rfl
  | cons ha _ ih => rw [List.map_cons, List.map_cons, ha, ih]

theorem list_eq_map {γ : Type} {f : γ → γ} {as as' : List γ}
    (h : List.Forall₂ (fun a a' => a' = f a) as as') : as' = as.map f := by
  rw [← list_map_eq_map (g := id) h, List.map_id]

end Alike
end Returned

open Returned

namespace Cursor

variable {c c' d : Cursor} {word run : List Char} {t : Token} {p : Char → Bool}

/-! ## Readers of tokens -/

/-- Behind a character that ends no line, cursors are level. -/
theorem Abreast.char_level {x : Char} (h : Abreast c c') (hx : Blank.isLayout x = false) :
    Option.Rel Level (c.char x) (c'.char x) := by
  by_cases hpeek : c.peek = some x
  · have hend : x ≠ '\n' := by
      rintro rfl
      cases hx
    obtain ⟨xs, hc⟩ := List.head?_eq_some_iff.1 hpeek
    rcases h with h | ⟨-, ys, hc', -⟩
    · rw [char_cons hc, char_cons (h.rest_cons hc hend)]
      exact Option.Rel.some (h.step hc hend)
    · rw [hc, List.cons.injEq] at hc'
      exact absurd hc'.1 hend
  · rw [char_eq_none hpeek, char_eq_none (mt (h.peek_eq_some_iff hx).1 hpeek)]
    exact Option.Rel.none

theorem Abreast.char {x : Char} (h : Abreast c c') (hx : Blank.isLayout x = false) :
    Alike (c.char x) (c'.char x) := by
  have hread := h.char_level hx
  generalize c.char x = d, c'.char x = d' at hread
  cases hread with
  | none => exact Alike.none
  | some hd => exact Alike.some (Or.inl hd)

theorem Abreast.blanks_char {x : Char} (h : Abreast c c') (hx : Blank.isLayout x = false) :
    Alike (c.blanks.char x) (c'.blanks.char x) := h.blanks.char hx

theorem Abreast.chars (h : Abreast c c') (hword : word.any Blank.isLayout = false) :
    Alike (c.chars word) (c'.chars word) := by
  induction word generalizing c c' with
  | nil => exact Alike.some h
  | cons x xs ih =>
    rw [List.any_cons, Bool.or_eq_false_iff] at hword
    exact (h.char hword.1).bind_cursor fun d d' hd => ih hd hword.2

theorem Abreast.keyword (h : Abreast c c') (hword : word.any Blank.isLayout = false) :
    Alike (c.keyword word) (c'.keyword word) := by
  rw [Cursor.keyword, Cursor.keyword]
  rcases (h.chars hword).cases with ⟨hx, hx'⟩ | ⟨d, d', hx, hx', hd⟩
  · rw [hx, hx']
    exact Alike.none
  · rw [hx, hx']
    simp only [Abreast.peek_any hd (q := isIdentChar) rfl]
    split
    · exact Alike.none
    · exact Alike.some hd

theorem Abreast.someBlanks (h : Abreast c c') : Alike c.someBlanks c'.someBlanks := by
  rw [someBlanks_eq, someBlanks_eq, h.peek_any rfl]
  split
  · exact Alike.some h.blanks
  · exact Alike.none

/-- A run of a class that ends with the line is the same. -/
theorem Abreast.text_takeWhile (h : Abreast c c') (hr : p '\r' = false) (hn : p '\n' = false) :
    (c'.takeWhile p).1.text = (c.takeWhile p).1.text :=
  congrArg String.ofList (h.takeWhile_rest hr hn)

theorem text_takeWhile_line (hn : p '\n' = false) : '\n' ∉ (c.takeWhile p).1.text.toList := by
  rw [takeWhile, String.toList_ofList]
  exact not_mem_takeWhile hn c.rest

theorem Abreast.takeWhile (h : Abreast c c') (hr : p '\r' = false) (hn : p '\n' = false) :
    Alike (c.takeWhile p) (c'.takeWhile p) := by
  refine ⟨?_, h.skipWhile hr hn⟩
  have hline := returned_of_not_mem (text_takeWhile_line (c := c) hn)
  exact (h.text_takeWhile hr hn).trans hline.symm

theorem Abreast.identifier (h : Abreast c c') : Alike c.identifier c'.identifier := by
  rw [identifier_eq, identifier_eq, h.peek_any rfl]
  split
  · exact Alike.some (h.takeWhile rfl rfl)
  · exact Alike.none

/-- An identifier is part of a line. -/
theorem identifier_line (h : c.identifier = some (t, d)) : '\n' ∉ t.text.toList := by
  rw [identifier_eq] at h
  split at h
  · cases h
    exact text_takeWhile_line rfl
  · cases h

/-- A token that ends with the line, if it is not empty. -/
theorem Abreast.takeSome (h : Abreast c c') (hr : p '\r' = false) (hn : p '\n' = false) :
    Alike (if (c.takeWhile p).1.span.isEmpty then none else some (c.takeWhile p))
      (if (c'.takeWhile p).1.span.isEmpty then none else some (c'.takeWhile p)) := by
  rw [isEmpty_span_takeWhile, isEmpty_span_takeWhile, h.takeWhile_rest hr hn]
  split
  · exact Alike.none
  · exact Alike.some (h.takeWhile hr hn)

theorem Abreast.bareToken (h : Abreast c c') : Alike c.bareToken c'.bareToken :=
  h.takeSome rfl rfl

/-! ## Texts -/

/-- A run that may go on over line ends. -/
theorem Level.takeWhile (h : Level c c') (hp : p '\r' = p '\n') :
    (c'.takeWhile p).1.text = returned (c.takeWhile p).1.text ∧
      Level (c.takeWhile p).2 (c'.takeWhile p).2 := by
  have hrun : c'.rest.takeWhile p = withReturns (c.rest.takeWhile p) := by
    rw [h.rest, takeWhile_withReturns hp]
  have hend := h.skip (c.rest.takeWhile p).length
  rw [← List.prefix_iff_eq_take.1 (List.takeWhile_prefix p), ← hrun] at hend
  exact ⟨by rw [Cursor.takeWhile, Cursor.takeWhile, returned_ofList, hrun], hend⟩

theorem Abreast.backtickText (h : Abreast c c') : Alike c.backtickText c'.backtickText := by
  have hread := h.char_level (x := tick) rfl
  rw [Cursor.backtickText, Cursor.backtickText]
  generalize c.char tick = x, c'.char tick = x' at hread
  cases hread with
  | none => exact Alike.none
  | some hinner =>
    obtain ⟨htext, hclose⟩ := hinner.takeWhile (p := (· != tick)) rfl
    have hlast := Abreast.char (x := tick) (Or.inl hclose) rfl
    exact hlast.bind_cursor fun next next' hnext => Alike.some ⟨htext, hnext⟩

theorem quotedRun_withReturns {text : List Char} (h : HasPlainEnds text) :
    quotedRun (withReturns text) = quotedRun text := by
  fun_induction quotedRun text with
  | case1 => rfl
  | case2 x xs ih =>
    have hx : x ≠ '\n' := by
      rintro rfl
      exact h.noSplice ⟨[], xs, rfl⟩
    have hxs : HasPlainEnds xs := h.suffix ⟨['\\', x], rfl⟩
    rw [withReturns_cons (by decide), withReturns_cons hx, quotedRun, ih hxs]
  | case3 xs =>
    rw [withReturns_cons (by decide), quotedRun, if_pos rfl]
    intro y ys hx
    exact absurd hx (by decide)
  | case4 x xs hbackslash hquote hend =>
    simp only [Bool.or_eq_true, decide_eq_true_eq] at hend
    rcases hend with rfl | rfl
    · rw [withReturns_lineFeed]
      rfl
    · cases xs with
      | nil => rfl
      | cons y ys => exact absurd rfl (hbackslash y ys rfl)
  | case5 x xs hbackslash hquote hend ih =>
    have hxs : HasPlainEnds xs := h.suffix ⟨[x], rfl⟩
    have hplain : x ≠ '\n' ∧ x ≠ '\\' := by simpa using hend
    rw [withReturns_cons hplain.1, quotedRun, if_neg hquote, if_neg hend, ih hxs]
    exact fun y ys hx => absurd hx hplain.2

/-- A text in quotes is part of a line. -/
theorem quotedRun_line {text run : List Char} (h : HasPlainEnds text)
    (hrun : quotedRun text = some run) : '\n' ∉ run := by
  fun_induction quotedRun text generalizing run with
  | case1 => cases hrun
  | case2 x xs ih =>
    obtain ⟨run, hxs, rfl⟩ := Option.map_eq_some_iff.1 hrun
    have hx : '\n' ≠ x := by
      rintro rfl
      exact h.noSplice ⟨[], xs, rfl⟩
    have hrest := ih (h.suffix ⟨['\\', x], rfl⟩) hxs
    simp [hx, hrest]
  | case3 xs => cases hrun; exact List.not_mem_nil
  | case4 => cases hrun
  | case5 x xs hbackslash hquote hend ih =>
    obtain ⟨run, hxs, rfl⟩ := Option.map_eq_some_iff.1 hrun
    have hrest := ih (h.suffix ⟨[x], rfl⟩) hxs
    have hplain : x ≠ '\n' ∧ x ≠ '\\' := by simpa using hend
    rw [List.mem_cons, not_or]
    exact ⟨Ne.symm hplain.1, hrest⟩

theorem mem_of_mem_unescapeQuotes {text : List Char} {x : Char} (h : x ∈ unescapeQuotes text) :
    x ∈ text := by
  fun_induction unescapeQuotes text with
  | case1 => exact h
  | case2 xs ih =>
    rcases List.mem_cons.1 h with rfl | hx
    · exact List.mem_cons_of_mem _ List.mem_cons_self
    · exact List.mem_cons_of_mem _ (List.mem_cons_of_mem _ (ih hx))
  | case3 y xs hescape ih =>
    rcases List.mem_cons.1 h with rfl | hx
    · exact List.mem_cons_self
    · exact List.mem_cons_of_mem y (ih hx)

theorem unescapeQuotes_line (h : '\n' ∉ run) :
    '\n' ∉ (String.ofList (unescapeQuotes run)).toList := by
  rw [String.toList_ofList]
  exact fun hmem => h (mem_of_mem_unescapeQuotes hmem)

theorem quotedText_line (h : HasPlainEnds c.rest) (hread : c.quotedText = some (t, d)) :
    '\n' ∉ t.text.toList := by
  simp only [Cursor.quotedText, bind, Option.bind_eq_some_iff] at hread
  obtain ⟨inner, hopen, run, hrun, close, -, heq⟩ := hread
  cases heq
  have hplain : HasPlainEnds inner.rest := h.suffix (rest_suffix (char_lt hopen).le)
  exact unescapeQuotes_line (quotedRun_line hplain hrun)

theorem Abreast.quotedText (h : Abreast c c') : Alike c.quotedText c'.quotedText := by
  have hread := h.char_level (x := '"') rfl
  rw [Cursor.quotedText, Cursor.quotedText]
  generalize c.char '"' = x, c'.char '"' = x' at hread
  cases hread with
  | none => exact Alike.none
  | @some inner inner' hinner =>
    simp only [bind, Option.bind_some, hinner.rest, quotedRun_withReturns hinner.plain]
    cases hrun : quotedRun inner.rest with
    | none => exact Alike.none
    | some run =>
      obtain ⟨tail, htail⟩ := quotedRun_spec hrun
      have hline := quotedRun_line hinner.plain hrun
      have hclose := Abreast.skip (Or.inl hinner) ⟨_, htail.symm⟩ hline
      refine (hclose.char (x := '"') rfl).bind_cursor fun next next' hnext => ?_
      exact Alike.some ⟨(returned_of_not_mem (unescapeQuotes_line hline)).symm, hnext⟩

theorem Abreast.restOfLine (h : Abreast c c') : Alike c.restOfLine c'.restOfLine := by
  have hline : '\n' ∉ c.line := not_mem_takeWhile rfl c.rest
  obtain ⟨trail, htrail, -⟩ := Blank.exists_trimEnd_append c.line
  have htext : '\n' ∉ Blank.trimEnd c.line := fun hmem =>
    hline (by rw [htrail]; exact List.mem_append_left trail hmem)
  have hprefix : Blank.trimEnd c.line <+: c.rest :=
    List.IsPrefix.trans ⟨trail, htrail.symm⟩ (List.takeWhile_prefix _)
  simp only [Cursor.restOfLine, h.trimEnd_line]
  split
  · exact Alike.none
  · refine Alike.some ⟨?_, h.skip hprefix htext⟩
    exact (returned_of_not_mem (by rwa [String.toList_ofList])).symm

/-! ## Repetition -/

/-- Two repetitions that start abreast stop together. -/
theorem Abreast.many {α : Type} [Returned α] {item : Cursor → Option (α × Cursor)}
    (hmoves : ∀ c a d, item c = some (a, d) → c < d)
    (hitem : ∀ c c', Abreast c c' → Alike (item c) (item c')) (h : Abreast c c') :
    Alike (c.many item) (c'.many item) := by
  refine many_induction (motive := fun c r => ∀ c', Abreast c c' → Alike r (c'.many item))
    hmoves ?_ ?_ c c' h
  · intro c hc c' h
    rcases (hitem c c' h).cases with ⟨-, hc'⟩ | ⟨r, -, hr, -, -⟩
    · rw [many_of_none hc']
      exact ⟨Alike.nil, h⟩
    · rw [hc] at hr
      cases hr
  · intro c a d hc hlt ih c' h
    rcases (hitem c c' h).cases with ⟨hnone, -⟩ | ⟨r, ⟨a', d'⟩, hr, hc', ha, hd⟩
    · rw [hc] at hnone
      cases hnone
    · rw [hc] at hr
      cases hr
      rw [many_of_lt hc' (hmoves c' a' d' hc')]
      obtain ⟨has, hlast⟩ := ih d' hd
      exact ⟨Alike.cons ha has, hlast⟩

end Cursor
end PipelineLang
