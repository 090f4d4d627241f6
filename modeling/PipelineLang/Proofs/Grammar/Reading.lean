import PipelineLang.Proofs.Grammar.Cursor
import PipelineLang.Proofs.Grammar.Written

/-!
# Reading what is written

What a reader of tokens finds where a text is known to stand: the token that is written there, with
the rest of the text behind it. Offsets do not matter here; of the columns that of a line does.
-/

namespace PipelineLang
namespace Cursor

variable {c d : Cursor} {rest : List Char}

/-! ## Tokens -/

theorem char_cons {x : Char} (h : c.rest = x :: rest) : c.char x = some (c.step x rest) := by
  rw [char, h]
  exact if_pos rfl

theorem chars_append {word : List Char} (h : c.rest = word ++ rest) :
    ∃ d, c.chars word = some d ∧ d.rest = rest := by
  induction word generalizing c with
  | nil => exact ⟨c, rfl, h⟩
  | cons x xs ih =>
    rw [List.cons_append] at h
    obtain ⟨d, hd, hrest⟩ := ih (c := c.step x (xs ++ rest)) rfl
    exact ⟨d, by rw [chars, char_cons h, Option.bind_some, hd], hrest⟩

theorem char_spec {x : Char} (h : c.char x = some d) : c.rest = x :: d.rest := by
  unfold char at h
  split at h
  · cases h
  · next y ys hc =>
    split at h
    · next hy =>
      cases h
      rw [hc, hy]
      rfl
    · cases h

theorem chars_spec {word : List Char} (h : c.chars word = some d) : c.rest = word ++ d.rest := by
  induction word generalizing c with
  | nil => cases h; rfl
  | cons x xs ih =>
    obtain ⟨e, hx, hxs⟩ := Option.bind_eq_some_iff.1 h
    rw [char_spec hx, ih hxs, List.cons_append]

/-- The longest run of a class is the one that something else stands behind. -/
theorem takeWhile_of_head {p : Char → Bool} {run : List Char} (hrun : ∀ x ∈ run, p x = true)
    (hrest : ∀ x ∈ rest.head?, p x = false) : (run ++ rest).takeWhile p = run := by
  rw [List.takeWhile_append_of_pos hrun]
  cases rest with
  | nil => rw [List.takeWhile_nil, List.append_nil]
  | cons x xs =>
    rw [List.takeWhile_cons_of_neg (by rw [hrest x rfl]; exact Bool.false_ne_true), List.append_nil]

theorem run_append {p : Char → Bool} {run : List Char} (h : c.rest = run ++ rest)
    (hrun : ∀ x ∈ run, p x = true) (hrest : ∀ x ∈ rest.head?, p x = false) :
    (c.takeWhile p).1.text = String.ofList run ∧ (c.takeWhile p).2.rest = rest := by
  have htake : c.rest.takeWhile p = run := by rw [h, takeWhile_of_head hrun hrest]
  refine ⟨by rw [takeWhile, htake], ?_⟩
  rw [takeWhile, htake, rest_skip, h, List.drop_left]

theorem keyword_append {word : List Char} (h : c.rest = word ++ rest)
    (hrest : ∀ x ∈ rest.head?, isIdentChar x = false) :
    ∃ d, c.keyword word = some d ∧ d.rest = rest := by
  obtain ⟨d, hd, hend⟩ := chars_append h
  have hpeek : d.peek.any isIdentChar = false := by
    rw [peek, hend, Option.any_eq_false]
    exact hrest
  exact ⟨d, by simp only [keyword, hd, hpeek, Bool.false_eq_true, if_false], hend⟩

theorem chars_of_keyword {word : List Char} (h : c.keyword word = some d) :
    c.chars word = some d ∧ d.peek.any isIdentChar = false := by
  unfold keyword at h
  split at h
  · cases h
  · next next hchars =>
    split at h
    · cases h
    · next hpeek =>
      cases h
      exact ⟨hchars, eq_false_of_ne_true hpeek⟩

theorem keyword_spec {word : List Char} (h : c.keyword word = some d) :
    c.rest = word ++ d.rest ∧ ∀ x ∈ d.rest.head?, isIdentChar x = false := by
  obtain ⟨hchars, hpeek⟩ := chars_of_keyword h
  refine ⟨chars_spec hchars, fun x hx => ?_⟩
  rw [peek, Option.any_eq_false] at hpeek
  simpa using hpeek x hx

/-- Where one word stands no other is read. -/
theorem keyword_eq_none {run : List Char} {word : String} (hword : IsIdentifier word)
    (h : c.rest = run ++ rest) (hrun : ∀ x ∈ run, isIdentChar x = true)
    (hrest : ∀ x ∈ rest.head?, isIdentChar x = false) (hne : run ≠ word.toList) :
    c.keyword word.toList = none := by
  rw [Option.eq_none_iff_forall_ne_some]
  intro d hd
  obtain ⟨hread, hhead⟩ := keyword_spec hd
  refine hne ?_
  rw [← takeWhile_of_head hrun hrest, ← h, hread, takeWhile_of_head hword.2 hhead]

theorem blanks_append (run : List Char) (h : c.rest = run ++ rest)
    (hrun : ∀ x ∈ run, Blank.isInline x = true)
    (hrest : ∀ x ∈ rest.head?, Blank.isInline x = false) :
    c.blanks.rest = rest := (run_append h hrun hrest).2

/-- A reader passes over no blanks where none stand. -/
theorem blanks_cons {x : Char} (h : c.rest = x :: rest) (hx : Blank.isInline x = false) :
    c.blanks.rest = x :: rest :=
  blanks_append [] h nofun (by rintro y ⟨⟩; exact hx)

/-- A reader passes over the one blank that stands before a token. -/
theorem blanks_space {x : Char} (h : c.rest = ' ' :: x :: rest) (hx : Blank.isInline x = false) :
    c.blanks.rest = x :: rest := by
  have hspace : ∀ y ∈ [' '], Blank.isInline y = true := by
    rintro y (_ | ⟨_, ⟨⟩⟩)
    rfl
  exact blanks_append [' '] h hspace (by rintro y ⟨⟩; exact hx)

theorem blanks_char_cons {x : Char} (h : c.rest = x :: rest) (hx : Blank.isInline x = false) :
    ∃ d, c.blanks.char x = some d ∧ d.rest = rest := ⟨_, char_cons (blanks_cons h hx), rfl⟩

theorem span_takeWhile_cons {p : Char → Bool} {x : Char} (h : c.rest = x :: rest)
    (hx : p x = true) :
    (c.takeWhile p).1.span.isEmpty = false := by
  have hlt := offset_lt (lt_takeWhile h hx)
  rw [Span.isEmpty, beq_eq_false_iff_ne]
  exact Nat.ne_of_lt hlt

theorem someBlanks_append {run : List Char} (h : c.rest = run ++ rest) (hne : run ≠ [])
    (hrun : ∀ x ∈ run, Blank.isInline x = true) (hrest : ∀ x ∈ rest.head?, Blank.isInline x = false) :
    ∃ d, c.someBlanks = some d ∧ d.rest = rest := by
  refine ⟨c.blanks, ?_, blanks_append run h hrun hrest⟩
  obtain ⟨x, xs, rfl⟩ := List.exists_cons_of_ne_nil hne
  rw [someBlanks_eq, peek, h, List.cons_append, List.head?_cons, Option.any_some,
    hrun x List.mem_cons_self, if_pos rfl]

/-- One blank is passed over. -/
theorem someBlanks_space (h : c.rest = ' ' :: rest)
    (hrest : ∀ x ∈ rest.head?, Blank.isInline x = false) :
    ∃ d, c.someBlanks = some d ∧ d.rest = rest := by
  have hspace : ∀ x ∈ [' '], Blank.isInline x = true := by
    rintro x (_ | ⟨_, ⟨⟩⟩)
    rfl
  exact someBlanks_append h (List.cons_ne_nil _ _) hspace hrest

theorem identifier_append {name : String} (h : c.rest = name.toList ++ rest)
    (hname : IsIdentifier name) (hrest : ∀ x ∈ rest.head?, isIdentChar x = false) :
    ∃ t d, c.identifier = some (t, d) ∧ t.text = name ∧ d.rest = rest := by
  obtain ⟨htext, hend⟩ := run_append h hname.2 hrest
  refine ⟨_, _, ?_, htext.trans String.ofList_toList, hend⟩
  obtain ⟨x, xs, hcs, hx⟩ := hname.head
  rw [identifier_eq, peek, h, hcs]
  exact if_pos hx

theorem backtickText_append {text : List Char} (h : c.rest = tick :: (text ++ tick :: rest))
    (htext : tick ∉ text) :
    ∃ t d, c.backtickText = some (t, d) ∧ t.text = String.ofList text ∧ d.rest = rest := by
  obtain ⟨hrun, hend⟩ := run_append (c := c.step tick (text ++ tick :: rest)) (p := (· != tick)) rfl
    (fun x hx => bne_iff_ne.2 fun heq => htext (heq ▸ hx))
    (by rintro x ⟨⟩; exact bne_self_eq_false tick)
  rw [backtickText, char_cons h]
  simp only [bind, Option.bind_some, char_cons hend]
  exact ⟨_, _, rfl, hrun, rfl⟩

/-- A text in backticks is read if there is a backtick to close it. -/
theorem backtickText_ne_none_iff :
    c.backtickText ≠ none ↔ ∃ text, c.rest = tick :: text ∧ tick ∈ text := by
  constructor
  · intro hread
    obtain ⟨r, hr⟩ := Option.ne_none_iff_exists'.1 hread
    simp only [backtickText, bind, Option.bind_eq_some_iff] at hr
    obtain ⟨inner, hopen, next, hclose, -⟩ := hr
    refine ⟨inner.rest, char_spec hopen, (rest_suffix (le_takeWhile (· != tick) inner)).subset ?_⟩
    rw [char_spec hclose]
    exact List.mem_cons_self
  · rintro ⟨text, hc, htick⟩
    obtain ⟨run, rest, rfl, hrun⟩ := List.eq_append_cons_of_mem htick
    obtain ⟨t, d, hread, -, -⟩ := backtickText_append hc hrun
    rw [hread]
    exact Option.some_ne_none _

/-- A text in quotes is read if what stands behind the first quote closes it. -/
theorem quotedText_ne_none_iff :
    c.quotedText ≠ none ↔ ∃ text, c.rest = '"' :: text ∧ quotedRun text ≠ none := by
  constructor
  · intro hread
    obtain ⟨r, hr⟩ := Option.ne_none_iff_exists'.1 hread
    simp only [quotedText, bind, Option.bind_eq_some_iff] at hr
    obtain ⟨inner, hopen, run, hrun, -⟩ := hr
    exact ⟨inner.rest, char_spec hopen, by rw [hrun]; exact Option.some_ne_none run⟩
  · rintro ⟨text, hc, hread⟩
    obtain ⟨run, hrun⟩ := Option.ne_none_iff_exists'.1 hread
    obtain ⟨tail, rfl⟩ := quotedRun_spec hrun
    have hend : ((c.step '"' (run ++ '"' :: tail)).skip run.length).rest = '"' :: tail := by
      rw [rest_skip, Cursor.step, List.drop_left]
    have hinner : (c.step '"' (run ++ '"' :: tail)).rest = run ++ '"' :: tail := rfl
    rw [quotedText, char_cons hc]
    simp only [bind, Option.bind_some, hinner, hrun, char_cons hend]
    exact Option.some_ne_none _

theorem quotedRun_plain {text : List Char} (h : ∀ x ∈ text, x ≠ '"' ∧ x ≠ '\\' ∧ x ≠ '\n')
    (rest : List Char) : quotedRun (text ++ '"' :: rest) = some text := by
  induction text with
  | nil => rfl
  | cons x xs ih =>
    obtain ⟨hquote, hbackslash, hend⟩ := h x List.mem_cons_self
    rw [List.cons_append, quotedRun, if_neg hquote, if_neg (by simp [hend, hbackslash]),
      ih fun y hy => h y (List.mem_cons_of_mem x hy)]
    · rfl
    · exact fun y ys hx => absurd hx hbackslash

theorem unescapeQuotes_plain {text : List Char} (h : '\\' ∉ text) : unescapeQuotes text = text := by
  induction text with
  | nil => rfl
  | cons x xs ih =>
    rw [List.mem_cons, not_or] at h
    rw [unescapeQuotes, ih h.2]
    exact fun ys hx => absurd hx.symm h.1

theorem quotedText_append {text : List Char} (h : c.rest = '"' :: (text ++ '"' :: rest))
    (htext : ∀ x ∈ text, x ≠ '"' ∧ x ≠ '\\' ∧ x ≠ '\n') :
    ∃ t d, c.quotedText = some (t, d) ∧ t.text = String.ofList text ∧ d.rest = rest := by
  have hrun : quotedRun (c.step '"' (text ++ '"' :: rest)).rest = some text :=
    quotedRun_plain htext rest
  have hend : ((c.step '"' (text ++ '"' :: rest)).skip text.length).rest = '"' :: rest := by
    rw [rest_skip, Cursor.step, List.drop_left]
  have hplain : unescapeQuotes text = text :=
    unescapeQuotes_plain fun hmem => (htext _ hmem).2.1 rfl
  rw [quotedText, char_cons h]
  simp only [bind, Option.bind_some, hrun, char_cons hend, hplain]
  exact ⟨_, _, rfl, rfl, rfl⟩

/-- A text in quotes is read whatever signs it holds. -/
theorem quotedText_written {text : String} (htext : (Payload.quoted text).IsWritable)
    (h : c.rest = (Payload.quoted text).written ++ rest) :
    ∃ t d, c.quotedText = some (t, d) ∧ t.text = text ∧ d.rest = rest := by
  rw [Payload.written, List.cons_append, List.append_assoc] at h
  obtain ⟨t, d, hread, hspells, hend⟩ := quotedText_append h fun x hx =>
    ⟨(htext x hx).1, (htext x hx).2.1, (htext x hx).2.2.1⟩
  exact ⟨t, d, hread, hspells.trans String.ofList_toList, hend⟩

/-! ## Lines -/

theorem layout_cons {x : Char} (h : c.rest = x :: rest) (hx : Blank.isLayout x = true) :
    c.layout = (c.step x rest).layout := by
  rw [layout, h, layout.go, Bool.false_and, if_neg Bool.false_ne_true, if_pos hx]
  rfl

theorem layout_blank (h : ∀ x ∈ c.rest, Blank.isLayout x = true) : c.layout.rest = [] := by
  induction hc : c.rest generalizing c with
  | nil => rw [layout_of_head (by rw [hc]; nofun), hc]
  | cons x xs ih =>
    rw [hc] at h
    rw [layout_cons hc (h x List.mem_cons_self)]
    exact ih (fun y hy => h y (List.mem_cons_of_mem x hy)) rfl

theorem peek_layout_blank {p : Char → Bool} (h : ∀ x ∈ c.rest, Blank.isLayout x = true) :
    c.layout.peek.any p = false := by
  rw [peek, layout_blank h]
  rfl

theorem layout_spaces {x : Char} (hx : Blank.isLayout x = false ∧ x ≠ '#') (n : Nat) :
    ∀ {c : Cursor}, c.rest = List.replicate n ' ' ++ x :: rest →
      c.layout.rest = x :: rest ∧ c.layout.column = c.column + n := by
  induction n with
  | zero =>
    intro c h
    rw [layout_of_head (by rw [h]; rintro y ⟨⟩; exact hx)]
    exact ⟨h, rfl⟩
  | succ n ih =>
    intro c h
    rw [List.replicate_succ, List.cons_append] at h
    rw [layout_cons h rfl]
    obtain ⟨hrest, hcolumn⟩ := ih (c := c.step ' ' (List.replicate n ' ' ++ x :: rest)) rfl
    refine ⟨hrest, hcolumn.trans ?_⟩
    rw [Cursor.step, if_neg (by decide)]
    exact Nat.add_right_comm ..

/-- Behind the layout in front of a line stands its content, in the column of the line. -/
theorem layout_writtenLine {column : Nat} {x : Char} {content : List Char}
    (h : c.rest = writtenLine column (x :: content) ++ rest)
    (hx : Blank.isLayout x = false ∧ x ≠ '#') :
    c.layout.rest = x :: (content ++ rest) ∧ c.layout.column = column := by
  rw [writtenLine, List.cons_append, List.append_assoc] at h
  rw [layout_cons h rfl]
  obtain ⟨hrest, hcolumn⟩ := layout_spaces hx column
    (c := c.step '\n' (List.replicate column ' ' ++ (x :: content ++ rest))) rfl
  exact ⟨hrest, hcolumn.trans (Nat.zero_add column)⟩

end Cursor
end PipelineLang
