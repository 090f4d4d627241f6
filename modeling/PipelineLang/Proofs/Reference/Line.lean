import PipelineLang.Proofs.Reference.Names
import PipelineLang.Proofs.Source.Position

/-!
# Searching a line of a text

No shape reads over a line end: what it reads at a place is the same whether the line end and what
stands behind it are part of the text or not (`SeesLine`). A search of a text therefore finds in a
line what a search of the line alone finds (`searchAll_followed`), and the references whose names
touch a line are those of the line (`mem_scan_iff_of_line`).
-/

namespace PipelineLang

open Utf8 Cursor

namespace Cursor

/-- The same place where `post` stands behind the text, and where the character before the text is
`b`. -/
def followed (b : Option Char) (post : List Char) (c : Cursor) : Cursor :=
  { c with before := c.before.or b, rest := c.rest ++ post }

/-- A line ends before `post`, and one begins behind `b`. -/
structure LineBounds (b : Option Char) (post : List Char) : Prop where
  before : ∀ x ∈ b, x = '\n'
  behind : ∀ x ∈ post.head?, x = '\n'

variable {b : Option Char} {post : List Char} {c d : Cursor}

@[simp] theorem offset_followed (c : Cursor) : (c.followed b post).offset = c.offset := rfl

@[simp] theorem rest_followed (c : Cursor) : (c.followed b post).rest = c.rest ++ post := rfl

@[simp] theorem step_followed (c : Cursor) (x : Char) (xs : List Char) :
    (c.followed b post).step x (xs ++ post) = (c.step x xs).followed b post := rfl

/-- The cursor at the end of the text. -/
def textEnd (c : Cursor) : Cursor := c.skip c.rest.length

theorem textEnd_eq_of_le (h : c ≤ d) : d.textEnd = c.textEnd := by
  obtain ⟨run, hrest, hskip⟩ := exists_run h
  rw [textEnd, textEnd, hrest, List.length_append, ← skip_skip, ← hskip]

theorem le_textEnd (c : Cursor) : c ≤ c.textEnd := le_skip _ c

@[simp] theorem rest_textEnd (c : Cursor) : c.textEnd.rest = [] := by
  rw [textEnd, rest_skip, List.drop_length]

theorem between_textEnd (c : Cursor) : Between c c.rest c.textEnd :=
  ⟨by rw [rest_textEnd, List.append_nil], rfl⟩

/-! ## Readers -/

theorem skip_followed : ∀ (n : Nat) (c : Cursor), n ≤ c.rest.length →
    (c.followed b post).skip n = (c.skip n).followed b post
  | 0, _, _ => rfl
  | n + 1, c, hn => by
    cases hc : c.rest with
    | nil => rw [hc] at hn; cases hn
    | cons x xs =>
      have hrest : (c.followed b post).rest = x :: (xs ++ post) := by
        rw [rest_followed, hc, List.cons_append]
      have hlen : n ≤ (c.step x xs).rest.length := by
        rw [hc, List.length_cons] at hn
        exact Nat.le_of_succ_le_succ hn
      rw [skip_succ hc, skip_succ hrest, step_followed, skip_followed n (c.step x xs) hlen]

namespace LineBounds

theorem peek_any {p : Char → Bool} (h : LineBounds b post) (hp : p '\n' = false) (c : Cursor) :
    (c.followed b post).peek.any p = c.peek.any p := by
  cases hc : c.rest with
  | cons x xs => simp [peek, hc]
  | nil =>
    cases hpost : post with
    | nil => simp [peek, hc]
    | cons y ys =>
      have hy := h.behind y (by rw [hpost]; rfl)
      simp [peek, hc, hy, hp]

theorem before_any {p : Char → Bool} (h : LineBounds b post) (hp : p '\n' = false) (c : Cursor) :
    (c.followed b post).before.any p = c.before.any p := by
  cases hc : c.before with
  | some x => simp [followed, hc]
  | none =>
    cases hb : b with
    | none => simp [followed, hc]
    | some y =>
      have hy := h.before y hb
      simp [followed, hc, hy, hp]

theorem takeWhile {p : Char → Bool} (h : LineBounds b post) (hp : p '\n' = false) (c : Cursor) :
    (c.followed b post).takeWhile p = (c.takeWhile p).map id (followed b post) := by
  have hrun : (c.rest ++ post).takeWhile p = c.rest.takeWhile p := by
    have hpost : post.takeWhile p = [] := by
      cases hpost : post with
      | nil => rfl
      | cons y ys =>
        have hy := h.behind y (by rw [hpost]; rfl)
        exact List.takeWhile_cons_of_neg (by simp [hy, hp])
    rw [List.takeWhile_append, hpost, List.append_nil]
    split
    · next hall => exact ((List.takeWhile_prefix p).eq_of_length hall).symm
    · rfl
  have hskip : (c.followed b post).skip _ = (c.skip _).followed b post :=
    skip_followed _ c (List.takeWhile_prefix p).length_le
  simp only [Cursor.takeWhile, rest_followed, hrun, hskip, Prod.map, offset_followed, id]

theorem blanks (h : LineBounds b post) (c : Cursor) :
    (c.followed b post).blanks = c.blanks.followed b post :=
  congrArg Prod.snd (h.takeWhile (p := Blank.isInline) rfl c)

theorem char {x : Char} (h : LineBounds b post) (hx : x ≠ '\n') (c : Cursor) :
    (c.followed b post).char x = (c.char x).map (followed b post) := by
  cases hc : c.rest with
  | nil =>
    have hnone : c.char x = none := char_eq_none (by simp [hc])
    rw [hnone, Option.map_none]
    refine char_eq_none fun hhead => hx (h.behind x ?_)
    simpa [hc] using hhead
  | cons y ys =>
    simp only [Cursor.char, rest_followed, hc, List.cons_append]
    split
    · rfl
    · rfl

theorem chars (h : LineBounds b post) : ∀ {word : List Char}, '\n' ∉ word → ∀ c : Cursor,
    (c.followed b post).chars word = (c.chars word).map (followed b post)
  | [], _, _ => rfl
  | x :: xs, hword, c => by
    simp only [List.mem_cons, not_or] at hword
    simp only [Cursor.chars, h.char (Ne.symm hword.1), Option.bind_map, Option.map_bind,
      Function.comp_def, h.chars hword.2]

theorem someBlanks (h : LineBounds b post) (c : Cursor) :
    (c.followed b post).someBlanks = c.someBlanks.map (followed b post) := by
  rw [someBlanks_eq, someBlanks_eq, h.peek_any rfl, h.blanks]
  split
  · rfl
  · rfl

theorem identifier (h : LineBounds b post) (c : Cursor) :
    (c.followed b post).identifier = c.identifier.map (Prod.map id (followed b post)) := by
  rw [identifier_eq, identifier_eq, h.peek_any (by decide), h.takeWhile (by decide)]
  split
  · rfl
  · rfl

theorem declaredName (h : LineBounds b post) (c : Cursor) :
    Grammar.declaredName (c.followed b post)
      = (Grammar.declaredName c).map (Prod.map id (followed b post)) := by
  simp only [Grammar.declaredName, bind, pure, h.someBlanks, h.identifier, h.blanks,
    h.char (by decide : '=' ≠ '\n'), Option.bind_map, Option.map_bind, Function.comp_def,
    Option.map_some, Prod.map]

theorem spaced {word : List Char} (h : LineBounds b post) (hword : '\n' ∉ word) (c : Cursor) :
    Reference.spaced word (c.followed b post)
      = (Reference.spaced word c).map (followed b post) := by
  simp only [Reference.spaced, h.chars hword, h.someBlanks, Option.bind_map, Option.map_bind,
    Function.comp_def]

theorem atBoundary (h : LineBounds b post) (c : Cursor) :
    Reference.atBoundary (c.followed b post) = Reference.atBoundary c := by
  have hword : Word.isWordChar '\n' = false := by decide
  rw [Reference.atBoundary, Word.isBoundary, h.peek_any hword, h.before_any hword]
  rfl

theorem isBare (h : LineBounds b post) (c : Cursor) :
    Reference.isBare (c.followed b post) = Reference.isBare c := by
  have hany (o : Option Char) : o.all Blank.isWhite = !o.any (!Blank.isWhite ·) := by
    cases o <;> simp
  rw [Reference.isBare, hany, h.peek_any (by decide), ← hany]
  rfl

end LineBounds

end Cursor

namespace Reference

/-! ## Shapes -/

/-- What the shape reads does not depend on what stands beyond the bounds of the line. -/
def SeesLine (shape : Cursor → Option (Reference × Cursor)) : Prop :=
  ∀ {b post}, LineBounds b post → ∀ c : Cursor,
    shape (c.followed b post) = (shape c).map (Prod.map id (followed b post))

variable {b : Option Char} {post : List Char} {c d : Cursor}

theorem seesLine_step : SeesLine stepShape := by
  intro b post h c
  simp only [stepShape, bind, pure, h.chars (by decide : '\n' ∉ ['|', '>']), h.blanks, h.identifier,
    h.char (by decide : ':' ≠ '\n'), Option.bind_map, Option.map_bind, Function.comp_def,
    Option.map_some, Prod.map, id]

theorem whenExecuting_followed {word : List Char} (h : LineBounds b post) (hword : '\n' ∉ word)
    (c : Cursor) :
    whenExecuting word (c.followed b post) = (whenExecuting word c).map (followed b post) := by
  simp only [whenExecuting, bind, h.atBoundary, h.spaced (by decide : '\n' ∉ "when".toList),
    h.spaced (by decide : '\n' ∉ "executing".toList), h.spaced hword, Option.bind_map,
    Function.comp_def]
  split
  · simp only [Option.map_bind, Function.comp_def]
  · rfl

theorem seesLine_whenPipeline : SeesLine whenPipelineShape := by
  intro b post h c
  simp only [whenPipelineShape, bind, pure,
    whenExecuting_followed h (by decide : '\n' ∉ "pipeline".toList), h.identifier, Option.bind_map,
    Option.map_bind, Function.comp_def, Option.map_some, Prod.map, id]

theorem seesLine_whenVariable : SeesLine whenVariableShape := by
  intro b post h c
  simp only [whenVariableShape, bind, pure,
    whenExecuting_followed h (by decide : '\n' ∉ "variable".toList), h.identifier, h.someBlanks,
    Option.bind_map, Option.map_bind, Function.comp_def, Option.map_some, Prod.map, id]

theorem withMock_followed (h : LineBounds b post) (c : Cursor) :
    withMock (c.followed b post) = (withMock c).map (followed b post) := by
  simp only [withMock, bind, h.atBoundary, h.chars (by decide : '\n' ∉ "with".toList),
    h.chars (by decide : '\n' ∉ "and".toList), ← Option.map_or, h.someBlanks,
    h.spaced (by decide : '\n' ∉ "mock".toList), Option.bind_map, Function.comp_def]
  split
  · simp only [Option.map_bind, Function.comp_def]
  · rfl

theorem thenReturning_followed (h : LineBounds b post) (c : Cursor) :
    thenReturning (c.followed b post) = (thenReturning c).map (followed b post) := by
  simp only [thenReturning, bind, h.someBlanks, h.chars (by decide : '\n' ∉ "returning".toList),
    h.atBoundary, Option.bind_map, Option.map_bind, Function.comp_def, Option.map_if]

theorem seesLine_mockPipeline : SeesLine mockPipelineShape := by
  intro b post h c
  simp only [mockPipelineShape, bind, pure, withMock_followed h,
    h.spaced (by decide : '\n' ∉ "pipeline".toList), h.identifier, thenReturning_followed h,
    Option.bind_map, Option.map_bind, Function.comp_def, Option.map_some, Prod.map, id]

theorem seesLine_mockVariable : SeesLine mockVariableShape := by
  intro b post h c
  simp only [mockVariableShape, bind, pure, withMock_followed h, h.identifier,
    h.char (by decide : '.' ≠ '\n'), thenReturning_followed h, Option.bind_map, Option.map_bind,
    Function.comp_def, Option.map_some, Prod.map, id]

/-! ## Searching -/

section
variable {shape : Cursor → Option (Reference × Cursor)} {mark : List Char}

/-- A search of a text comes by the end of each of its lines, and has found by then what a search of
the text up to there finds. -/
theorem searchAll_followed (hmoves : Moves shape) (hsees : SeesLine shape) (h : LineBounds b post)
    (c : Cursor) : searchAll shape (c.followed b post)
      = (searchAll shape c).map (Prod.map id (followed b post))
        ++ searchAll shape (c.textEnd.followed b post) := by
  refine searchAll_induction (motive := fun c ms => searchAll shape (c.followed b post)
    = ms.map (Prod.map id (followed b post)) ++ searchAll shape (c.textEnd.followed b post))
    hmoves ?_ ?_ ?_ c
  · intro c _ hrest
    rw [textEnd, hrest, List.length_nil, skip_zero, List.map_nil, List.nil_append]
  · intro c x xs hnone hrest ih
    have hnone' : shape (c.followed b post) = none := by rw [hsees h, hnone, Option.map_none]
    have hrest' : (c.followed b post).rest = x :: (xs ++ post) := by
      rw [rest_followed, hrest, List.cons_append]
    rw [searchAll_of_step hnone' hrest', step_followed, ih, textEnd_eq_of_le (le_step hrest)]
  · intro c r d hmatch hlt ih
    have hmatch' : shape (c.followed b post) = some (r, d.followed b post) := by
      rw [hsees h, hmatch, Option.map_some, Prod.map, id]
    rw [searchAll_of_match hmoves hmatch', ih, textEnd_eq_of_le hlt.le, List.map_cons,
      List.cons_append, Prod.map, id]

/-- No shape matches where nothing is left. -/
theorem shape_textEnd (hmoves : Moves shape) (c : Cursor) : shape c.textEnd = none := by
  cases hmatch : shape c.textEnd with
  | none => rfl
  | some m =>
    have hlt := (lt_iff.1 (hmoves _ m.1 m.2 hmatch)).2
    rw [rest_textEnd] at hlt
    exact absurd hlt (Nat.not_lt_zero _)

theorem rest_textEnd_followed (c : Cursor) (b : Option Char) (post : List Char) :
    (c.textEnd.followed b post).rest = post := by
  rw [rest_followed, rest_textEnd, List.nil_append]

/-- What a search finds behind a line does not start at the end of the line. -/
theorem exists_of_mem_behind (hmoves : Moves shape) (hsees : SeesLine shape) (h : LineBounds b post)
    {m : Reference × Cursor} (hm : m ∈ searchAll shape (c.textEnd.followed b post)) :
    ∃ e, c.textEnd.offset < e.offset ∧ shape e = some m := by
  obtain ⟨e, he, hmatch⟩ := mem_searchAll hmoves _ m hm
  refine ⟨e, ?_, hmatch⟩
  rcases eq_or_lt_of_le he with rfl | hlt
  · rw [hsees h, shape_textEnd hmoves] at hmatch
    cases hmatch
  · have hoffset := offset_lt hlt
    rwa [offset_followed] at hoffset

theorem match_le_textEnd (hmoves : Moves shape) {m : Reference × Cursor}
    (hm : m ∈ searchAll shape c) : m.2 ≤ c.textEnd := by
  obtain ⟨b, hb, hmatch⟩ := mem_searchAll hmoves c m hm
  rw [← textEnd_eq_of_le (hb.trans (hmoves b m.1 m.2 hmatch).le)]
  exact le_textEnd m.2

/-- The cursor of a text at the start of a line, with `pre` before the line and `post` behind it. -/
def lineCursor (pre line post : List Char) : Cursor :=
  (start (byteLength pre) line).followed pre.getLast? post

/-- In the text, `line` is a line with `pre` before it and `post` behind it. -/
structure IsLine (text pre line post : List Char) : Prop where
  eq : text = pre ++ line ++ post
  opens : ∀ x ∈ pre.getLast?, x = '\n'
  closes : ∀ x ∈ post.head?, x = '\n'
  single : '\n' ∉ line

/-- The line around a place in a text: what stands before the place since the last line feed, and
what stands behind it up to the next one. -/
theorem isLine_around (front back : List Char) : ∃ pre post,
    IsLine (front ++ back) pre (Lines.last front ++ back.takeWhile (· != '\n')) post ∧
      front = pre ++ Lines.last front := by
  obtain ⟨pre, hfront, hopens, hsingle⟩ := Lines.exists_append_last front
  have hback : back = back.takeWhile (· != '\n') ++ back.dropWhile (· != '\n') :=
    List.takeWhile_append_dropWhile.symm
  refine ⟨pre, back.dropWhile (· != '\n'), ⟨?_, hopens, fun x hx => ?_, ?_⟩, hfront⟩
  · calc front ++ back
      _ = (pre ++ Lines.last front)
          ++ (back.takeWhile (· != '\n') ++ back.dropWhile (· != '\n')) :=
        congrArg₂ (· ++ ·) hfront hback
      _ = _ := by simp only [List.append_assoc]
  · have hhead := List.head?_dropWhile_not (· != '\n') back
    rw [hx] at hhead
    simpa using hhead
  · have htail : '\n' ∉ back.takeWhile (· != '\n') := fun hmem => by
      have := List.all_eq_true.1 List.all_takeWhile _ hmem
      simp at this
    exact fun hmem => (List.mem_append.1 hmem).elim hsingle htail

namespace IsLine

variable {text pre line post : List Char}

theorem bounds (h : IsLine text pre line post) : LineBounds pre.getLast? post := ⟨h.opens, h.closes⟩

/-- The text before a line, up to the line end. -/
theorem start_eq {pre : List Char} (h : IsLine text (pre ++ ['\n']) line post) :
    start 0 text = (start 0 pre).followed none ('\n' :: (line ++ post)) := by
  rw [h.eq, start, start, followed, List.append_assoc, List.append_assoc, List.singleton_append]
  rfl

/-- The cursor behind a line end, with the text before it. -/
theorem step_eq (pre line post : List Char) :
    ((start 0 pre).textEnd.followed none ('\n' :: (line ++ post))).step '\n' (line ++ post)
      = (start (byteLength (pre ++ ['\n'])) line).followed (some '\n') post := by
  have hoffset := (between_textEnd (start 0 pre)).offset_eq
  rw [step, offset_followed, hoffset, byteLength_append, start, start, Nat.zero_add]
  rfl

/-- The cursor is at the start of the line. -/
theorem between_lineCursor (h : IsLine text pre line post) :
    Between (start 0 text) pre (lineCursor pre line post) := by
  have hle : start 0 text ≤ lineCursor pre line post := by
    rcases List.eq_nil_or_concat' pre with rfl | ⟨pre, x, rfl⟩
    · rw [h.eq]
      exact le_rfl
    · obtain rfl : x = '\n' := h.opens x (by rw [List.getLast?_concat]; rfl)
      rw [lineCursor, List.getLast?_concat, ← step_eq, h.start_eq]
      refine le_trans ?_ (le_step (rest_textEnd_followed ..))
      rw [textEnd, ← skip_followed _ _ le_rfl]
      exact le_skip _ _
  obtain ⟨run, hrun⟩ := exists_run hle
  have htext : text = run ++ (line ++ post) := hrun.rest_eq
  rw [h.eq, List.append_assoc] at htext
  rwa [← List.append_cancel_right htext] at hrun

/-- A search of a text finds in a line what a search of the line finds; what it finds besides ends
before the line or starts behind it. -/
theorem searchAll_eq (hmoves : Moves shape) (hsees : SeesLine shape)
    (h : IsLine text pre line post) : ∃ earlier later, searchAll shape (start 0 text) = earlier
      ++ (searchAll shape (start (byteLength pre) line)).map
        (Prod.map id (followed pre.getLast? post)) ++ later ∧
      (∀ m ∈ earlier, m.2.offset < byteLength pre) ∧
      ∀ m ∈ later, ∃ b, byteLength (pre ++ line) < b.offset ∧ shape b = some m := by
  have hhere := searchAll_followed hmoves hsees h.bounds (start (byteLength pre) line)
  have hlater : ∀ m ∈ searchAll shape ((start (byteLength pre) line).textEnd.followed
      pre.getLast? post), ∃ b, byteLength (pre ++ line) < b.offset ∧ shape b = some m := by
    intro m hm
    obtain ⟨e, hlt, hmatch⟩ := exists_of_mem_behind hmoves hsees h.bounds hm
    rw [(between_textEnd _).offset_eq] at hlt
    exact ⟨e, byteLength_append .. ▸ hlt, hmatch⟩
  rcases List.eq_nil_or_concat' pre with rfl | ⟨pre, x, rfl⟩
  · refine ⟨[], _, ?_, nofun, hlater⟩
    rw [List.nil_append, ← hhere, h.eq, List.nil_append]
    rfl
  · obtain rfl : x = '\n' := h.opens x (by rw [List.getLast?_concat]; rfl)
    rw [List.getLast?_concat] at hhere hlater
    have hbounds : LineBounds none ('\n' :: (line ++ post)) :=
      ⟨nofun, fun x hx => (Option.some.inj hx).symm⟩
    have hnone : shape ((start 0 pre).textEnd.followed none ('\n' :: (line ++ post))) = none := by
      rw [hsees hbounds, shape_textEnd hmoves, Option.map_none]
    refine ⟨(searchAll shape (start 0 pre)).map (Prod.map id (followed none ('\n' :: (line ++ post)))),
      _, ?_, ?_, hlater⟩
    · rw [List.getLast?_concat, List.append_assoc, ← hhere, h.start_eq,
        searchAll_followed hmoves hsees hbounds, searchAll_of_step hnone (rest_textEnd_followed ..),
        step_eq]
    · intro m hm
      obtain ⟨m', hm', rfl⟩ := List.mem_map.1 hm
      have hle := offset_le (match_le_textEnd hmoves hm')
      rw [(between_textEnd _).offset_eq, start, Nat.zero_add] at hle
      rw [byteLength_append]
      exact Nat.lt_of_le_of_lt hle (Nat.lt_add_of_pos_right (byteLength_pos (List.cons_ne_nil _ _)))

/-- The matches of a text whose names touch a line are those of the line. -/
theorem mem_searchAll_iff (hbehind : NamesBehind mark shape) (hsees : SeesLine shape)
    (h : IsLine text pre line post) {r : Reference}
    (hstart : r.span.start ≤ byteLength (pre ++ line)) (hstop : byteLength pre ≤ r.span.stop) :
    (r, d) ∈ searchAll shape (start 0 text) ↔ ∃ d', d = d'.followed pre.getLast? post ∧
      (r, d') ∈ searchAll shape (start (byteLength pre) line) := by
  obtain ⟨earlier, later, heq, hearlier, hlater⟩ := h.searchAll_eq hbehind.moves hsees
  constructor
  · intro hmem
    obtain ⟨b, -, hmatch⟩ := mem_searchAll hbehind.moves _ _ hmem
    obtain ⟨-, -, hbound⟩ := hbehind.bounds hmatch
    rw [heq, List.mem_append, List.mem_append] at hmem
    rcases hmem with (hmem | hmem) | hmem
    · have : d.offset < byteLength pre := hearlier _ hmem
      omega
    · obtain ⟨m, hm, heq'⟩ := List.mem_map.1 hmem
      cases heq'
      exact ⟨m.2, rfl, hm⟩
    · obtain ⟨b', hlt, hmatch'⟩ := hlater _ hmem
      have := (hbehind.bounds hmatch').1
      omega
  · rintro ⟨d', rfl, hmem⟩
    rw [heq]
    exact List.mem_append_left _ (List.mem_append_right _ (List.mem_map.2 ⟨_, hmem, rfl⟩))

/-- **The references of a text whose names touch a line are those of the line.** -/
theorem mem_scan_iff (h : IsLine text pre line post) {r : Reference}
    (hstart : r.span.start ≤ byteLength (pre ++ line)) (hstop : byteLength pre ≤ r.span.stop) :
    r ∈ scan text ↔ r ∈ foundFrom (start (byteLength pre) line) := by
  have hall {shape : Cursor → Option (Reference × Cursor)} {mark : List Char}
      (hbehind : NamesBehind mark shape) (hsees : SeesLine shape) :
      r ∈ matching shape (start 0 text) ↔ r ∈ matching shape (start (byteLength pre) line) := by
    simp only [matching, List.mem_map, Prod.exists, exists_and_right, exists_eq_right,
      h.mem_searchAll_iff hbehind hsees hstart hstop]
    exact ⟨fun ⟨_, d', _, hd'⟩ => ⟨d', hd'⟩, fun ⟨d', hd'⟩ => ⟨_, d', rfl, hd'⟩⟩
  have hbare {shape : Cursor → Option (Reference × Cursor)} {mark : List Char}
      (hbehind : NamesBehind mark shape) (hsees : SeesLine shape) :
      r ∈ matchingBare shape (start 0 text)
        ↔ r ∈ matchingBare shape (start (byteLength pre) line) := by
    simp only [matchingBare, List.mem_map, List.mem_filter, Prod.exists, exists_and_right,
      exists_eq_right, h.mem_searchAll_iff hbehind hsees hstart hstop]
    constructor
    · rintro ⟨_, ⟨d', rfl, hd'⟩, hend⟩
      exact ⟨d', hd', (h.bounds.isBare d').symm.trans hend⟩
    · rintro ⟨d', hd', hend⟩
      exact ⟨_, ⟨d', rfl, hd'⟩, (h.bounds.isBare d').trans hend⟩
  rw [mem_scan, mem_foundFrom, mem_foundFrom, hbare namesBehind_step seesLine_step,
    hbare namesBehind_whenPipeline seesLine_whenPipeline,
    hbare namesBehind_whenVariable seesLine_whenVariable,
    hall namesBehind_mockPipeline seesLine_mockPipeline,
    hall namesBehind_mockVariable seesLine_mockVariable]

end IsLine

end

end Reference
end PipelineLang
