import Mathlib.Data.Bool.AllAny
import PipelineLang.Proofs.Grammar.Clauses
import PipelineLang.Proofs.Reference.Names

/-!
# What stands in front of a clause

A clause of a test block stands behind a quote, a backtick or a line end, with blanks between at most,
or else behind an action on its line (`Opens`). In neither case does the text in front of it end with
words behind which the search for references expects a name (`Opens.not_endsInWords`), so that no match of
the search runs into the clause.
-/

namespace PipelineLang

open Cursor

/-! ## The end of a text -/

section
variable {p : Char → Bool} {xs ys zs xs' ys' zs' : List Char}

/-- A text begins with one run of a class only, if something else stands behind it. -/
theorem run_inj (h : xs ++ (ys ++ zs) = xs' ++ (ys' ++ zs')) (hxs : ∀ x ∈ xs, p x = true)
    (hys : ys ≠ [] ∧ ∀ y ∈ ys, p y = false) (hxs' : ∀ x ∈ xs', p x = true)
    (hys' : ys' ≠ [] ∧ ∀ y ∈ ys', p y = false) : xs = xs' ∧ ys ++ zs = ys' ++ zs' := by
  have htake := congrArg (List.takeWhile p) h
  have hdrop := congrArg (List.dropWhile p) h
  rw [Reference.takeWhile_run hxs hys.1 hys.2, Reference.takeWhile_run hxs' hys'.1 hys'.2] at htake
  rw [Reference.dropWhile_run hxs hys.1 hys.2, Reference.dropWhile_run hxs' hys'.1 hys'.2] at hdrop
  exact ⟨htake, hdrop⟩

end

/-- The characters hold no blank of a line, and there is one at least. -/
def IsUnbroken (cs : List Char) : Prop := cs ≠ [] ∧ ∀ x ∈ cs, Blank.isInline x = false

theorem IsWord.isUnbroken {w : List Char} (h : IsWord w) : IsUnbroken w := ⟨h.1, h.not_isInline⟩

/-- The text ends with the character, behind which stand two words, one blank or more before each. -/
def EndsInWords (x : Char) (w v text : List Char) : Prop :=
  ∃ front bs₀ bs₁, text = front ++ x :: (bs₀ ++ (w ++ (bs₁ ++ v))) ∧ Blank.isInline x = false ∧
    IsBlanks bs₀ ∧ IsUnbroken w ∧ IsBlanks bs₁ ∧ IsUnbroken v

/-- The text ends with the character and blanks of a line behind it. -/
def EndsInMark (m : Char) (text : List Char) : Prop :=
  ∃ front bs, text = front ++ m :: bs ∧ ∀ x ∈ bs, Blank.isInline x = true

section
variable {x x' m : Char} {w v w' v' text text' bs bs' cs cs' : List Char}

theorem IsUnbroken.reverse (h : IsUnbroken w) : IsUnbroken w.reverse := by
  simpa [IsUnbroken] using h

/-- A text that begins with blanks and a word begins with one word only. -/
theorem word_inj (h : bs ++ (w ++ (cs ++ text)) = bs' ++ (w' ++ (cs' ++ text')))
    (hbs : IsBlanks bs) (hw : IsUnbroken w) (hcs : IsBlanks cs) (hbs' : IsBlanks bs')
    (hw' : IsUnbroken w') (hcs' : IsBlanks cs') : w = w' ∧ cs ++ text = cs' ++ text' := by
  obtain ⟨-, hword⟩ := run_inj h hbs.2 hw hbs'.2 hw'
  have hall {w : List Char} (hw : IsUnbroken w) : ∀ x ∈ w, (!Blank.isInline x) = true :=
    fun x hx => by rw [hw.2 x hx]; rfl
  have hnone {cs : List Char} (hcs : IsBlanks cs) :
      cs ≠ [] ∧ ∀ x ∈ cs, (!Blank.isInline x) = false :=
    ⟨hcs.1, fun x hx => by rw [hcs.2 x hx]; rfl⟩
  exact run_inj hword (hall hw) (hnone hcs) (hall hw') (hnone hcs')

/-- The text ends with three words, of which the last character of the first one is given. -/
theorem endsInWords_append {word bs₀ bs₁ : List Char} (front : List Char)
    (hword : word.getLast? = some x) (hx : Blank.isInline x = false) (h₀ : IsBlanks bs₀)
    (hw : IsUnbroken w) (h₁ : IsBlanks bs₁) (hv : IsUnbroken v) :
    EndsInWords x w v (front ++ (word ++ bs₀ ++ (w ++ bs₁ ++ v))) := by
  obtain ⟨pre, rfl⟩ := List.getLast?_eq_some_iff.1 hword
  exact ⟨front ++ pre, bs₀, bs₁, by simp, hx, h₀, hw, h₁, hv⟩

theorem EndsInWords.append (front : List Char) (h : EndsInWords x w v text) :
    EndsInWords x w v (front ++ text) := by
  obtain ⟨front', bs₀, bs₁, rfl, h⟩ := h
  exact ⟨front ++ front', bs₀, bs₁, (List.append_assoc ..).symm, h⟩

theorem EndsInMark.append (front : List Char) (h : EndsInMark m text) :
    EndsInMark m (front ++ text) := by
  obtain ⟨front', bs, rfl, h⟩ := h
  exact ⟨front ++ front', bs, (List.append_assoc ..).symm, h⟩

/-- A text ends with one character and two words behind it only. -/
theorem EndsInWords.unique (h : EndsInWords x w v text) (h' : EndsInWords x' w' v' text')
    (hbs : IsBlanks bs) (hbs' : IsBlanks bs') (heq : text ++ bs = text' ++ bs') :
    x = x' ∧ w = w' := by
  obtain ⟨front, bs₀, bs₁, rfl, hx, h₀, hw, h₁, hv⟩ := h
  obtain ⟨front', bs₀', bs₁', rfl, hx', h₀', hw', h₁', hv'⟩ := h'
  have hback := congrArg List.reverse heq
  simp only [List.reverse_append, List.reverse_cons, List.append_assoc] at hback
  obtain ⟨-, hback⟩ := word_inj hback hbs.reverse hv.reverse h₁.reverse hbs'.reverse hv'.reverse
    h₁'.reverse
  obtain ⟨hword, hback⟩ := word_inj hback h₁.reverse hw.reverse h₀.reverse h₁'.reverse hw'.reverse
    h₀'.reverse
  have hone {x : Char} (hx : Blank.isInline x = false) :
      [x] ≠ [] ∧ ∀ y ∈ [x], Blank.isInline y = false :=
    ⟨List.cons_ne_nil x [], fun y hy => by rwa [List.mem_singleton.1 hy]⟩
  obtain ⟨-, hlast⟩ := run_inj hback h₀.reverse.2 (hone hx) h₀'.reverse.2 (hone hx')
  exact ⟨(List.cons.inj hlast).1, List.reverse_injective hword⟩

/-- Where a text ends with words and blanks, the last character in front of the blanks is one of the
last word. -/
theorem EndsInWords.mark_mem (h : EndsInWords x w v text) (hbs : IsBlanks bs)
    (hm : EndsInMark m (text ++ bs)) (hinline : Blank.isInline m = false) : m ∈ v := by
  obtain ⟨front, bs₀, bs₁, rfl, hx, h₀, hw, h₁, hv⟩ := h
  obtain ⟨front', bs', heq, hbs'⟩ := hm
  have hback := congrArg List.reverse heq
  simp only [List.reverse_append, List.reverse_cons, List.append_assoc] at hback
  obtain ⟨-, hlast⟩ := run_inj hback hbs.reverse.2 hv.reverse (by simpa using hbs')
    ⟨List.cons_ne_nil m [], by simpa using hinline⟩
  have hhead := congrArg List.head? hlast
  rw [List.head?_append_of_ne_nil _ hv.reverse.1] at hhead
  exact List.mem_reverse.1 (List.mem_of_head? hhead)

end

/-! ## In front of a clause -/

/-- A clause may stand behind the text, as far as its last line goes: behind a quote, a backtick or a
line end, or behind an action, which ends with two words behind `executing`, `variable` or
`calling`. -/
inductive Opens (text : List Char) : Prop where
  | mark {m : Char} (hm : m ∈ ['"', tick, '\n', '\r']) (h : EndsInMark m text)
  | action {x : Char} {w v front bs : List Char} (hx : x = 'e' ∨ x = 'g' ∧ w ≠ "variable".toList)
      (h : EndsInWords x w v front) (hbs : IsBlanks bs) (htext : text = front ++ bs)

theorem mark_spec : ∀ m ∈ ['"', tick, '\n', '\r'],
    Word.isWordChar m = false ∧ isIdentChar m = false ∧ Blank.isInline m = false :=
  List.all_iff_forall_prop.1 (by decide)

namespace Opens

variable {x : Char} {w v text bs : List Char}

/-- No word and no identifier goes on behind the text. -/
theorem last_spec (h : Opens text) :
    ∀ x ∈ text.getLast?, Word.isWordChar x = false ∧ isIdentChar x = false := by
  have hinline {x : Char} (hx : Blank.isInline x = true) :
      Word.isWordChar x = false ∧ isIdentChar x = false := by
    simp only [Blank.isInline, Bool.or_eq_true, beq_iff_eq] at hx
    rcases hx with rfl | rfl
    · decide
    · decide
  intro x hlast
  cases h with
  | @mark m hm h =>
    obtain ⟨front, bs, rfl, hbs⟩ := h
    rw [List.getLast?_append_of_ne_nil _ (List.cons_ne_nil m bs)] at hlast
    rcases List.mem_cons.1 (List.mem_of_getLast? hlast) with rfl | hx
    · exact ⟨(mark_spec x hm).1, (mark_spec x hm).2.1⟩
    · exact hinline (hbs x hx)
  | action hx h hbs htext =>
    rw [htext, List.getLast?_append_of_ne_nil _ hbs.1] at hlast
    exact hinline (hbs.2 x (List.mem_of_getLast? hlast))

/-- Behind the text no name of an action is expected. -/
theorem not_endsInWords (h : Opens (text ++ bs)) (hbs : IsBlanks bs)
    (hx : x = 'n' ∨ x = 'g' ∧ w = "variable".toList) (hv : IsWord v) :
    ¬ EndsInWords x w v text := by
  intro hwords
  cases h with
  | @mark m hm h =>
    obtain ⟨-, hident, hinline⟩ := mark_spec m hm
    rw [hv.2 m (hwords.mark_mem hbs h hinline)] at hident
    cases hident
  | action hx' h hbs' htext =>
    obtain ⟨rfl, rfl⟩ := hwords.unique h hbs hbs' htext
    rcases hx with rfl | ⟨rfl, rfl⟩
    · rcases hx' with h | ⟨h, -⟩
      · exact absurd h (by decide)
      · exact absurd h (by decide)
    · rcases hx' with h | ⟨-, h⟩
      · exact absurd h (by decide)
      · exact h rfl

end Opens

/-! ## Layout in front of a clause -/

namespace Cursor

variable {c d : Cursor}

theorem isInline_or_lineEnd {x : Char} (h : Blank.isLayout x = true) :
    Blank.isInline x = true ∨ x ∈ ['\n', '\r'] := by
  rcases isLayout_cases h with rfl | rfl | rfl | rfl
  · exact Or.inl rfl
  · exact Or.inl rfl
  · exact Or.inr (by decide)
  · exact Or.inr (by decide)

/-- The layout behind a cursor, in a comment or not, that is of blanks of one line, or ends with a
line end and blanks behind whatever comes first. -/
def LastLine (comment : Bool) (gap : List Char) : Prop :=
  comment = false ∧ (∀ x ∈ gap, Blank.isInline x = true) ∨ ∃ m ∈ ['\n', '\r'], EndsInMark m gap

namespace LastLine

variable {comment later : Bool} {x : Char} {gap : List Char}

theorem cons_inline (hcomment : comment = false) (hx : Blank.isInline x = true)
    (h : LastLine later gap) : LastLine comment (x :: gap) := by
  obtain ⟨-, hinline⟩ | ⟨m, hm, hends⟩ := h
  · exact Or.inl ⟨hcomment, List.forall_mem_cons.2 ⟨hx, hinline⟩⟩
  · exact Or.inr ⟨m, hm, hends.append [x]⟩

theorem cons_lineEnd (hx : x ∈ ['\n', '\r']) (h : LastLine later gap) :
    LastLine comment (x :: gap) := by
  obtain ⟨-, hinline⟩ | ⟨m, hm, hends⟩ := h
  · exact Or.inr ⟨x, hx, [], gap, rfl, hinline⟩
  · exact Or.inr ⟨m, hm, hends.append [x]⟩

/-- A comment ends with a line end. -/
theorem cons_comment (h : LastLine true gap) : LastLine comment (x :: gap) := by
  obtain ⟨hfalse, -⟩ | ⟨m, hm, hends⟩ := h
  · cases hfalse
  · exact Or.inr ⟨m, hm, hends.append [x]⟩

end LastLine

/-- What stands between a cursor and the end of the layout behind it, if something follows. -/
theorem layout_go_last {text : List Char} {comment : Bool} (hc : c.rest = text)
    (hne : (layout.go comment text c).rest ≠ []) :
    ∃ gap, Between c gap (layout.go comment text c) ∧ LastLine comment gap := by
  induction text generalizing comment c with
  | nil => exact absurd (by rw [layout.go, hc]) hne
  | cons x xs ih =>
    have hstep : Between c [x] (c.step x xs) := ⟨hc, step_eq_skip hc⟩
    rw [layout.go] at hne ⊢
    by_cases hopen : (comment && x != '\n') = true
    · rw [if_pos hopen] at hne ⊢
      obtain ⟨gap, hgap, hlast⟩ := ih (c := c.step x xs) rfl hne
      exact ⟨x :: gap, hstep.trans hgap, hlast.cons_comment⟩
    rw [if_neg hopen] at hne ⊢
    have hcomment (hx : x ≠ '\n') : comment = false := by
      simpa [hx] using hopen
    by_cases hlayout : Blank.isLayout x = true
    · rw [if_pos hlayout] at hne ⊢
      obtain ⟨gap, hgap, hlast⟩ := ih (c := c.step x xs) rfl hne
      refine ⟨x :: gap, hstep.trans hgap, ?_⟩
      rcases isInline_or_lineEnd hlayout with hinline | hx
      · exact hlast.cons_inline (hcomment fun hx => by rw [hx] at hinline; cases hinline) hinline
      · exact hlast.cons_lineEnd hx
    rw [if_neg hlayout] at hne ⊢
    by_cases hhash : x = '#'
    · rw [if_pos hhash] at hne ⊢
      obtain ⟨gap, hgap, hlast⟩ := ih (c := c.step x xs) rfl hne
      exact ⟨x :: gap, hstep.trans hgap, hlast.cons_comment⟩
    · rw [if_neg hhash] at hne ⊢
      -- in a comment the character would be a line end, and that is layout
      have hnewline : x ≠ '\n' := fun hx => hlayout (by rw [hx]; rfl)
      exact ⟨[], Between.refl c, Or.inl ⟨hcomment hnewline, List.forall_mem_nil _⟩⟩

end Cursor

/-! ## The end of what a block holds -/

namespace Grammar

variable {text : List Char} {b c d : Cursor}

/-- At the cursor ends the title of a block or a clause: with a quote or a backtick, with what its
line has but white characters, or as an action. -/
inductive Closes (text : List Char) (c : Cursor) : Prop where
  | mark {m : Char} (hm : m = '"' ∨ m = tick) (h : c.before = some m)
  | line (h : ∀ x ∈ c.line, Blank.isWhite x = true)
  | action {x : Char} {w v front : List Char} (hx : x = 'e' ∨ x = 'g' ∧ w ≠ "variable".toList)
      (h : EndsInWords x w v front) (hfront : Between (start 0 text) front c)
      (hnext : ∀ x ∈ c.peek, isIdentChar x = false)

theorem quotedText_closes {t : Token} (h : c.quotedText = some (t, d)) : Closes text d := by
  simp only [quotedText, bind, Option.bind_eq_some_iff] at h
  obtain ⟨inner, -, run, -, next, hclose, heq⟩ := h
  cases heq
  exact .mark (Or.inl rfl) (before_char hclose)

theorem backtickText_closes {t : Token} (h : c.backtickText = some (t, d)) : Closes text d := by
  simp only [backtickText, bind, Option.bind_eq_some_iff] at h
  obtain ⟨inner, -, next, hclose, heq⟩ := h
  cases heq
  exact .mark (Or.inr rfl) (before_char hclose)

theorem restOfLine_closes {t : Token} (h : c.restOfLine = some (t, d)) : Closes text d := by
  simp only [restOfLine] at h
  split at h
  · cases h
  · cases h
    obtain ⟨trail, hline, hwhite⟩ := Blank.exists_trimEnd_append c.line
    have hrun : '\n' ∉ Blank.trimEnd c.line := by
      intro hmem
      have : '\n' ∈ c.line := by
        rw [hline]
        exact List.mem_append_left trail hmem
      exact absurd (List.mem_takeWhile_imp this) (by decide)
    have htrail := ((trimmedLine_between c).line_eq hrun).symm.trans hline
    rw [List.append_cancel_left_eq] at htrail
    exact .line (htrail ▸ hwhite)

theorem clauseValue_closes {t : Token} (h : clauseValue c = some (t, d)) : Closes text d := by
  unfold clauseValue at h
  split at h
  · exact backtickText_closes h
  · split at h
    · exact quotedText_closes h
    · exact restOfLine_closes h

theorem spaced_of_spacedWord {word : List Char} (h : spacedWord word c = some d) :
    Reference.spaced word c = some d := by
  obtain ⟨next, hword, hblanks⟩ := Option.bind_eq_some_iff.1 h
  exact Option.bind_eq_some_iff.2 ⟨next, (chars_of_keyword hword).1, hblanks⟩

/-- A path is unbroken, and no character of an identifier follows. -/
theorem bareToken_spec {t : Token} (h : c.bareToken = some (t, d)) :
    Between c t.text.toList d ∧ IsUnbroken t.text.toList ∧
      ∀ x ∈ d.peek, isIdentChar x = false := by
  have hlt := bareToken_lt h
  simp only [bareToken] at h
  generalize hread : c.takeWhile (!Blank.isAscii ·) = r at h
  obtain ⟨token, next⟩ := r
  split at h
  · cases h
  · cases h
    obtain ⟨hbetween, -, hall, hnext⟩ := takeWhile_spec hread
    refine ⟨hbetween, ⟨fun hnil => ?_, fun x hx => ?_⟩, fun x hx => ?_⟩
    · rw [hnil] at hbetween
      exact lt_irrefl _ (hbetween.2 ▸ hlt)
    · by_contra hinline
      have hascii := hall x hx
      simp only [Blank.isInline, Bool.not_eq_false, Bool.or_eq_true, beq_iff_eq] at hinline
      rcases hinline with rfl | rfl
      · cases hascii
      · cases hascii
    · have hascii := hnext x hx
      simp only [Blank.isAscii, Bool.not_eq_false', Bool.or_eq_true, beq_iff_eq, or_assoc] at hascii
      rcases hascii with rfl | rfl | rfl | rfl | rfl <;> rfl

/-- The words that an action ends with. -/
theorem action_words {a : Action} (h : action c = some (a, d)) : ∃ x w v run,
    (x = 'e' ∨ x = 'g' ∧ w ≠ "variable".toList) ∧ EndsInWords x w v run ∧ Between c run d ∧
      ∀ x ∈ d.peek, isIdentChar x = false := by
  have hspaced {word : List Char} {c d : Cursor} (h : spacedWord word c = some d) :=
    Reference.spaced_spec (spaced_of_spacedWord h)
  cases a with
  | callRoute method path =>
    obtain ⟨next, start, word, behind, blank, token, hwhen, hcalling, hword, hmethod, hblank, htoken,
      -, -⟩ := action_read h
    obtain ⟨bs, hbs, -⟩ := hspaced hwhen
    obtain ⟨bs₀, h₀, hbs₀⟩ := hspaced hcalling
    obtain ⟨hw, -, hidentifier, -⟩ := identifier_spec hword
    obtain ⟨bs₁, h₁, hbs₁⟩ := Reference.someBlanks_spec hblank
    obtain ⟨hv, hunbroken, hnext⟩ := bareToken_spec htoken
    have hends := endsInWords_append ("when".toList ++ bs)
      (by decide : "calling".toList.getLast? = some 'g') (by decide) hbs₀
      hidentifier.isWord.isUnbroken hbs₁ hunbroken
    refine ⟨'g', _, _, _, Or.inr ⟨rfl, fun heq => ?_⟩, hends,
      hbs.trans (h₀.trans ((hw.trans h₁).trans hv)), hnext⟩
    rw [String.toList_injective heq] at hmethod
    revert hmethod
    decide
  | runPipeline name =>
    obtain ⟨next, behind, start, token, hwhen, hexecuting, hpipeline, htoken, -⟩ := action_read h
    obtain ⟨bs, hbs, -⟩ := hspaced hwhen
    obtain ⟨bs₀, h₀, hbs₀⟩ := hspaced hexecuting
    obtain ⟨bs₁, h₁, hbs₁⟩ := hspaced hpipeline
    obtain ⟨hv, -, hidentifier, hnext⟩ := identifier_spec htoken
    have hends := endsInWords_append ("when".toList ++ bs)
      (by decide : "executing".toList.getLast? = some 'g') (by decide) hbs₀
      (by decide : IsWord "pipeline".toList).isUnbroken hbs₁ hidentifier.isWord.isUnbroken
    exact ⟨'g', _, _, _, Or.inr ⟨rfl, by decide⟩, hends, hbs.trans (h₀.trans (h₁.trans hv)), hnext⟩
  | runVariable kind name =>
    obtain ⟨next, behind, first, word, blank, start, token, hwhen, hexecuting, hvariable, hword,
      hblank, htoken, -, -⟩ := action_read h
    obtain ⟨bs, hbs, -⟩ := hspaced hwhen
    obtain ⟨bs₀, h₀, -⟩ := hspaced hexecuting
    obtain ⟨bs₁, h₁, hbs₁⟩ := hspaced hvariable
    obtain ⟨hw, -, hidentifier, -⟩ := identifier_spec hword
    obtain ⟨bs₂, h₂, hbs₂⟩ := Reference.someBlanks_spec hblank
    obtain ⟨hv, -, hidentifier', hnext⟩ := identifier_spec htoken
    have hends := endsInWords_append ("when".toList ++ bs ++ ("executing".toList ++ bs₀))
      (by decide : "variable".toList.getLast? = some 'e') (by decide) hbs₁
      hidentifier.isWord.isUnbroken hbs₂ hidentifier'.isWord.isUnbroken
    exact ⟨'e', _, _, _, Or.inl rfl, hends,
      (hbs.trans h₀).trans (h₁.trans ((hw.trans h₂).trans hv)), hnext⟩

theorem mock_closes {m : Mock} (h : mock c = some (m, d)) : Closes text d := by
  obtain ⟨behind, returning, value, -, hvalue⟩ := mock_spec h
  exact clauseValue_closes hvalue

theorem testClause_closes {k : TestClause} (hc : start 0 text ≤ c)
    (h : testClause c = some (k, d)) : Closes text d := by
  rcases testClause_cases h with ⟨m, -, hm⟩ | ⟨a, -, ha⟩ | ⟨s, -, hs⟩ | ⟨k', -, hk⟩
  · exact mock_closes hm
  · obtain ⟨x, w, v, run, hx, hends, hrun, hnext⟩ := action_words ha
    obtain ⟨front, hfront⟩ := exists_run (hc.trans (le_layout c))
    exact .action hx (hends.append front) (hfront.trans hrun) hnext
  · simp only [input, bind, Option.bind_eq_some_iff] at hs
    obtain ⟨next, -, behind, -, hvalue⟩ := hs
    exact clauseValue_closes hvalue
  · simp only [condition, bind, Option.bind_eq_some_iff] at hk
    obtain ⟨⟨l, next⟩, -, blank, -, ⟨field, behind⟩, -, ⟨q, afterQuery⟩, -, ⟨word, afterWord⟩, -,
      ⟨value, last⟩, hvalue, heq⟩ := hk
    cases heq
    exact clauseValue_closes hvalue

theorem heading_closes {word : List Char} {t : Token} (h : heading word c = some (t, d)) :
    Closes text d := by
  obtain ⟨next, -, htitle⟩ := Option.bind_eq_some_iff.1 h
  exact quotedText_closes htitle

/-- Where a repetition comes by something closes, if it does at its start and each reading ends so. -/
theorem closes_of_comes {α : Type} {item : Cursor → Option (α × Cursor)}
    (hmoves : ∀ c a d, item c = some (a, d) → c < d)
    (hends : ∀ c a d, start 0 text ≤ c → item c = some (a, d) → Closes text d)
    (hc : start 0 text ≤ c ∧ Closes text c) (h : Comes item c d) :
    start 0 text ≤ d ∧ Closes text d := by
  induction h with
  | refl => exact hc
  | @tail d e _ hstep ih =>
    obtain ⟨a, ha⟩ := hstep
    exact ⟨ih.1.trans (hmoves d a e ha).le, hends d a e ih.1 ha⟩

theorem suiteItem_closes {i : SuiteItem} (hc : start 0 text ≤ c)
    (h : suiteItem c = some (i, d)) : Closes text d := by
  rcases suiteItem_cases h with ⟨m, -, hm⟩ | ⟨-, title, body, htitle, rfl, -⟩
  · exact mock_closes hm
  · have hbody := hc.trans ((le_layout c).trans (heading_lt (by decide) htitle).le)
    exact (closes_of_comes (fun _ _ _ => testClause_lt) (fun _ _ _ => testClause_closes)
      ⟨hbody, heading_closes htitle⟩ (comes_many (fun _ _ _ => testClause_lt) body)).2

theorem InSuite.closes (h : InSuite text c) : start 0 text ≤ c ∧ Closes text c := by
  cases h with
  | intro hs hsuite htitle hc =>
    have hbody := (hs.le fun _ _ _ => item_lt).trans
      ((le_layout _).trans (heading_lt (by decide) htitle).le)
    exact closes_of_comes (fun _ _ _ => suiteItem_lt) (fun _ _ _ => suiteItem_closes)
      ⟨hbody, heading_closes htitle⟩ hc

theorem InTest.closes (h : InTest text c) : start 0 text ≤ c ∧ Closes text c := by
  cases h with
  | intro ht hmock htitle hc =>
    have hbody := ht.closes.1.trans ((le_layout _).trans (heading_lt (by decide) htitle).le)
    exact closes_of_comes (fun _ _ _ => testClause_lt) (fun _ _ _ => testClause_closes)
      ⟨hbody, heading_closes htitle⟩ hc

/-- The first letters of a mock and of an action. -/
theorem lead_spec : ∀ x ∈ ['w', 'a'], x ≠ '\n' ∧ Blank.isWhite x = false ∧
    Blank.isInline x = false ∧ isIdentChar x = true ∧ Word.isWordChar x = true :=
  List.all_iff_forall_prop.1 (by decide)

/-- What stands in front of a clause on the line on which something ends. -/
theorem Closes.opens_inline {x : Char} {front gap : List Char} (h : Closes text c)
    (hfront : Between (start 0 text) front c) (hgap : Between c gap d)
    (hinline : ∀ x ∈ gap, Blank.isInline x = true) (hpeek : d.peek = some x) (hx : x ∈ ['w', 'a']) :
    Opens (front ++ gap) := by
  obtain ⟨hnewline, hwhite, -, hident, -⟩ := lead_spec x hx
  cases h with
  | @mark m hm hbefore =>
    rw [hfront.before_eq, start, Option.or_none] at hbefore
    obtain ⟨pre, rfl⟩ := List.getLast?_eq_some_iff.1 hbefore
    refine .mark (m := m) ?_ ⟨pre, gap, by simp, hinline⟩
    rcases hm with rfl | rfl
    · exact List.mem_cons_self
    · exact List.mem_cons_of_mem _ List.mem_cons_self
  | line hline =>
    -- the clause would be part of a line that is white
    obtain ⟨xs, hrest⟩ := List.head?_eq_some_iff.1 hpeek
    have hgap' : '\n' ∉ gap := fun hmem => Bool.noConfusion (hinline _ hmem)
    have hmem : x ∈ c.line := by
      rw [hgap.line_eq hgap', Cursor.line, hrest,
        List.takeWhile_cons_of_pos (by simpa using hnewline)]
      exact List.mem_append_right gap List.mem_cons_self
    rw [hline x hmem] at hwhite
    cases hwhite
  | action hwords hends hfront' hnext =>
    have hne : gap ≠ [] := by
      rintro rfl
      have heq : d = c := hgap.2
      rw [heq] at hpeek
      rw [hnext x hpeek] at hident
      cases hident
    rw [hfront.run_eq hfront']
    exact .action hwords hends ⟨hne, hinline⟩ rfl

/-- What stands in front of a clause that begins with `w` or `a`. -/
theorem Closes.opens {x : Char} (h : Closes text c) (hc : start 0 text ≤ c)
    (hpeek : c.layout.peek = some x) (hx : x ∈ ['w', 'a']) :
    ∃ front, Between (start 0 text) front c.layout ∧ Opens front := by
  obtain ⟨front, hfront⟩ := exists_run hc
  have hne : c.layout.rest ≠ [] := by
    obtain ⟨xs, hrest⟩ := List.head?_eq_some_iff.1 hpeek
    rw [hrest]
    exact List.cons_ne_nil x xs
  obtain ⟨gap, hgap, ⟨-, hinline⟩ | ⟨m, hm, hends⟩⟩ := layout_go_last rfl hne
  · exact ⟨_, hfront.trans hgap, h.opens_inline hfront hgap hinline hpeek hx⟩
  · refine ⟨front ++ gap, hfront.trans hgap, .mark ?_ (hends.append front)⟩
    exact List.mem_cons_of_mem _ (List.mem_cons_of_mem _ hm)

end Grammar
end PipelineLang
