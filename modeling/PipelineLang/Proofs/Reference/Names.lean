import PipelineLang.Proofs.Reference.Steps

/-!
# Names in a text

A name that is declared or referred to stands in the text as a whole identifier: it goes on to the
last character that one can have, and the character before it is none of an identifier
(`IdentifierAt`). Two such names are the same or a character stands between them
(`IdentifierAt.eq_of_touch`), so a cursor is on one of them at most.
-/

namespace PipelineLang

open Utf8 Cursor

namespace Cursor

variable {c d : Cursor}

/-! ## The character before a cursor -/

theorem before_char {x : Char} (h : c.char x = some d) : d.before = some x := by
  rw [(char_between h).before_eq]
  rfl

/-- Blanks are no characters of an identifier. -/
theorem before_blanks (h : c.before.any isIdentChar = false) :
    c.blanks.before.any isIdentChar = false := by
  rw [(blanks_between c).before_eq]
  cases hlast : (c.rest.takeWhile Blank.isInline).getLast? with
  | none => exact h
  | some x =>
    have hx := List.all_eq_true.1 List.all_takeWhile x (List.mem_of_getLast? hlast)
    exact not_isIdentChar_of_isInline hx

theorem before_someBlanks (h : c.someBlanks = some d) : d.before.any isIdentChar = false := by
  obtain ⟨bs, hbs, hne, hall⟩ := Reference.someBlanks_spec h
  rw [hbs.before_eq, List.getLast?_eq_some_getLast hne, Option.some_or, Option.any_some]
  exact not_isIdentChar_of_isInline (hall _ (List.getLast_mem hne))

theorem peek_of_someBlanks (h : c.someBlanks = some d) : ∀ x ∈ c.peek, isIdentChar x = false := by
  obtain ⟨bs, hbs, hne, hall⟩ := Reference.someBlanks_spec h
  obtain ⟨y, bs, rfl⟩ := List.exists_cons_of_ne_nil hne
  intro x hx
  rw [peek, hbs.rest_eq] at hx
  obtain rfl : y = x := Option.some.inj hx
  exact not_isIdentChar_of_isInline (hall y List.mem_cons_self)

end Cursor

/-! ## Whole identifiers -/

/-- Behind the cursor, the name stands at the span as a whole identifier. -/
def IdentifierAt (c : Cursor) (name : String) (s : Span) : Prop :=
  ∃ x n y, c ≤ x ∧ x.identifier = some (n, y) ∧ x.before.any isIdentChar = false ∧ n.text = name ∧
    n.span = s

namespace IdentifierAt

variable {c c' : Cursor} {text : List Char} {a b : String} {s t : Span}

theorem of_le (hle : c' ≤ c) (h : IdentifierAt c a s) : IdentifierAt c' a s := by
  obtain ⟨x, n, y, hx, h⟩ := h
  exact ⟨x, n, y, hle.trans hx, h⟩

theorem start_lt_stop (h : IdentifierAt c a s) : s.start < s.stop := by
  obtain ⟨x, n, y, hx, hn, -, -, rfl⟩ := h
  rw [(identifier_spec hn).2.1]
  exact offset_lt (identifier_lt hn)

/-- The name stands between the cursor and the end of the text. -/
theorem within (h : IdentifierAt c a s) :
    c.offset ≤ s.start ∧ s.stop ≤ c.offset + byteLength c.rest := by
  obtain ⟨x, n, y, hx, hn, -, -, rfl⟩ := h
  obtain ⟨hbetween, hspan, -, -⟩ := identifier_spec hn
  obtain ⟨front, hfront⟩ := exists_run hx
  have hrun := hfront.trans hbetween
  rw [hspan, hrun.offset_eq, hrun.rest_eq, byteLength_append _ y.rest]
  exact ⟨offset_le hx, Nat.add_le_add_left (Nat.le_add_right ..) _⟩

theorem isIdentifier (h : IdentifierAt c a s) : IsIdentifier a := by
  obtain ⟨x, n, y, hx, hn, -, rfl, -⟩ := h
  exact (identifier_spec hn).2.2.1

theorem spells (h : IdentifierAt (start 0 text) a s) : s.Spells text a.toList := by
  obtain ⟨x, n, y, hx, hn, -, rfl, rfl⟩ := h
  obtain ⟨hbetween, hspan, -, -⟩ := identifier_spec hn
  rw [hspan]
  exact hbetween.spells hx

/-- A name that starts behind the start of an identifier starts behind its end as well. -/
theorem lt_of_lt {x x' y : Cursor} {n : Token} (hn : x.identifier = some (n, y)) (hlt : x < x')
    (hx' : x'.before.any isIdentChar = false) : y < x' := by
  obtain ⟨hbetween, -, hidentifier, -⟩ := identifier_spec hn
  -- else the character before the second name would be one of the first
  have hnot : ¬ x' ≤ y := by
    intro hle
    rw [hbetween.before_any hidentifier.2 hlt hle] at hx'
    cases hx'
  rcases lt_or_le_of_le hbetween.le hlt.le with hlt' | hle
  · exact hlt'
  · exact absurd hle hnot

/-- Two names that meet or overlap are the same. -/
theorem eq_of_touch (h : IdentifierAt c a s) (h' : IdentifierAt c b t) (hst : s.start ≤ t.stop)
    (hts : t.start ≤ s.stop) : a = b ∧ s = t := by
  obtain ⟨x, n, y, hx, hn, hbefore, rfl, rfl⟩ := h
  obtain ⟨x', n', y', hx', hn', hbefore', rfl, rfl⟩ := h'
  rw [(identifier_spec hn).2.1, (identifier_spec hn').2.1] at hst hts
  simp only at hst hts
  rcases lt_trichotomy_of_le hx hx' with hlt | rfl | hlt
  · have := offset_lt (lt_of_lt hn hlt hbefore')
    omega
  · rw [hn] at hn'
    cases hn'
    exact ⟨rfl, rfl⟩
  · have := offset_lt (lt_of_lt hn' hlt hbefore)
    omega

/-- A cursor is on one name at most. -/
theorem eq_of_contains {o : Nat} (h : IdentifierAt c a s) (h' : IdentifierAt c b t)
    (hs : s.contains o = true) (ht : t.contains o = true) : a = b ∧ s = t := by
  simp only [Span.contains, Bool.and_eq_true, decide_eq_true_eq] at hs ht
  exact h.eq_of_touch h' (hs.1.trans ht.2) (ht.1.trans hs.2)

end IdentifierAt

/-- The name of a declaration, up to the equals sign behind it. -/
theorem Grammar.declaredName_identifierAt {c equals : Cursor} {n : Token}
    (h : declaredName c = some (n, equals)) : IdentifierAt c n.text n.span := by
  simp only [declaredName, bind, Option.bind_eq_some_iff] at h
  obtain ⟨x, hx, ⟨n, y⟩, hn, equals, -, heq⟩ := h
  cases heq
  exact ⟨x, n, y, (someBlanks_lt hx).le, hn, before_someBlanks hx, rfl, rfl⟩

namespace Reference

variable {c d : Cursor} {r : Reference} {text : List Char}

/-! ## Names of references -/

/-- What the shape matches is named by a whole identifier, which the reference spans. -/
def NamesWhole (shape : Cursor → Option (Reference × Cursor)) : Prop :=
  ∀ c r d, shape c = some (r, d) → IdentifierAt c r.key.name r.span

theorem namesWhole_step : NamesWhole stepShape := by
  intro c r d h
  simp only [stepShape, bind, Option.bind_eq_some_iff] at h
  obtain ⟨arrow, harrow, ⟨kind, next⟩, hkind, colon, hcolon, ⟨n, last⟩, hn, heq⟩ := h
  cases heq
  have hle : c ≤ colon.blanks := (chars_le harrow).trans <| (le_blanks arrow).trans <|
    (identifier_lt hkind).le.trans <| (le_blanks next).trans <| (char_lt hcolon).le.trans
      (le_blanks colon)
  have hbefore : colon.before.any isIdentChar = false := by rw [before_char hcolon]; decide
  refine ⟨_, n, last, hle, hn, before_blanks hbefore, ?_, ?_⟩
  · unfold ofStep
    split
    · rfl
    · rfl
  · unfold ofStep
    split
    · rfl
    · rfl

theorem spaced_le {word : List Char} (h : spaced word c = some d) : c ≤ d := by
  obtain ⟨bs, hbs, -⟩ := spaced_spec h
  exact hbs.le

theorem before_spaced {word : List Char} (h : spaced word c = some d) :
    d.before.any isIdentChar = false := by
  obtain ⟨next, -, hblanks⟩ := Option.bind_eq_some_iff.1 h
  exact before_someBlanks hblanks

theorem whenExecuting_before {word : List Char} (h : whenExecuting word c = some d) :
    c ≤ d ∧ d.before.any isIdentChar = false := by
  obtain ⟨bs₀, bs₁, bs₂, -, -, -, hrun⟩ := whenExecuting_spec h
  simp only [whenExecuting, bind] at h
  split at h
  · simp only [Option.bind_eq_some_iff] at h
    obtain ⟨first, -, second, -, hword⟩ := h
    exact ⟨hrun.le, before_spaced hword⟩
  · cases h

theorem withMock_le (h : withMock c = some d) : c ≤ d := by
  obtain ⟨pre, bs₀, bs₁, -, -, -, hrun⟩ := withMock_spec h
  exact hrun.le

theorem namesWhole_whenPipeline : NamesWhole whenPipelineShape := by
  intro c r d h
  simp only [whenPipelineShape, bind, Option.bind_eq_some_iff] at h
  obtain ⟨x, hx, ⟨n, last⟩, hn, heq⟩ := h
  cases heq
  obtain ⟨hle, hbefore⟩ := whenExecuting_before hx
  exact ⟨x, n, _, hle, hn, hbefore, rfl, rfl⟩

theorem namesWhole_whenVariable : NamesWhole whenVariableShape := by
  intro c r d h
  simp only [whenVariableShape, bind, Option.bind_eq_some_iff] at h
  obtain ⟨first, hfirst, ⟨kind, next⟩, hkind, x, hx, ⟨n, last⟩, hn, heq⟩ := h
  cases heq
  obtain ⟨hle, -⟩ := whenExecuting_before hfirst
  exact ⟨x, n, _, hle.trans ((identifier_lt hkind).le.trans (someBlanks_lt hx).le), hn,
    before_someBlanks hx, rfl, rfl⟩

theorem namesWhole_mockPipeline : NamesWhole mockPipelineShape := by
  intro c r d h
  simp only [mockPipelineShape, bind, Option.bind_eq_some_iff] at h
  obtain ⟨first, hfirst, x, hx, ⟨n, next⟩, hn, last, -, heq⟩ := h
  cases heq
  exact ⟨x, n, next, (withMock_le hfirst).trans (spaced_le hx), hn, before_spaced hx, rfl, rfl⟩

theorem namesWhole_mockVariable : NamesWhole mockVariableShape := by
  intro c r d h
  simp only [mockVariableShape, bind, Option.bind_eq_some_iff] at h
  obtain ⟨first, hfirst, ⟨kind, next⟩, hkind, x, hx, ⟨n, behind⟩, hn, last, -, heq⟩ := h
  cases heq
  have hbefore : x.before.any isIdentChar = false := by rw [before_char hx]; decide
  exact ⟨x, n, behind, (withMock_le hfirst).trans ((identifier_lt hkind).le.trans (char_lt hx).le),
    hn, hbefore, rfl, rfl⟩

/-! ## All references -/

/-- The references that a search from the cursor finds. -/
def foundFrom (c : Cursor) : List Reference := inSteps c ++ inTests c

theorem mem_scan : r ∈ scan text ↔ r ∈ foundFrom (start 0 text) := List.mem_mergeSort

theorem mem_foundFrom : r ∈ foundFrom c ↔
    r ∈ matchingBare stepShape c ∨ r ∈ matchingBare whenPipelineShape c ∨
      r ∈ matchingBare whenVariableShape c ∨ r ∈ matching mockPipelineShape c ∨
      r ∈ matching mockVariableShape c := by
  simp only [foundFrom, inSteps, inTests, List.mem_append, or_assoc]

/-- What is found is matched by one of the shapes. -/
theorem exists_match (h : r ∈ foundFrom c) : ∃ mark ∈ marks, ∃ shape, NamesBehind mark shape ∧
    NamesWhole shape ∧ ∃ b d, c ≤ b ∧ shape b = some (r, d) := by
  have hmatch {mark : List Char} {shape : Cursor → Option (Reference × Cursor)}
      (hmark : mark ∈ marks) (hbehind : NamesBehind mark shape) (hwhole : NamesWhole shape)
      (hr : r ∈ matching shape c) : ∃ mark ∈ marks, ∃ shape, NamesBehind mark shape ∧
        NamesWhole shape ∧ ∃ b d, c ≤ b ∧ shape b = some (r, d) := by
    obtain ⟨m, hm, rfl⟩ := List.mem_map.1 hr
    obtain ⟨b, hb, hmatch⟩ := mem_searchAll hbehind.moves c m hm
    exact ⟨mark, hmark, shape, hbehind, hwhole, b, m.2, hb, hmatch⟩
  rcases mem_foundFrom.1 h with h | h | h | h | h
  · exact hmatch (by decide) namesBehind_step namesWhole_step ((matchingBare_sublist _ c).subset h)
  · exact hmatch (by decide) namesBehind_whenPipeline namesWhole_whenPipeline
      ((matchingBare_sublist _ c).subset h)
  · exact hmatch (by decide) namesBehind_whenVariable namesWhole_whenVariable
      ((matchingBare_sublist _ c).subset h)
  · exact hmatch (by decide) namesBehind_mockPipeline namesWhole_mockPipeline h
  · exact hmatch (by decide) namesBehind_mockVariable namesWhole_mockVariable h

/-- **The name of a reference stands in the text as a whole identifier.** -/
theorem identifierAt_of_mem (h : r ∈ foundFrom c) : IdentifierAt c r.key.name r.span := by
  obtain ⟨mark, -, shape, -, hwhole, b, d, hb, hmatch⟩ := exists_match h
  exact (hwhole b r d hmatch).of_le hb

/-- The text from the cursor up to the name of a reference has the clue of a shape. -/
theorem clue_of_mem (h : r ∈ foundFrom c) :
    ∃ front x, Between c front x ∧ r.span.start = x.offset ∧ clue front ∈ marks := by
  obtain ⟨mark, hmark, shape, hbehind, -, b, d, hb, hmatch⟩ := exists_match h
  obtain ⟨run, x, n, y, hrun, hname, -, hspan, -, hclue⟩ := hbehind b r d hmatch
  obtain ⟨front, hfront⟩ := exists_run hb
  obtain ⟨-, hn, -, -⟩ := identifier_spec hname
  exact ⟨front ++ run, x, hfront.trans hrun, by rw [hspan, hn], (hclue front).symm ▸ hmark⟩

/-- A place of a text is that of one reference at most. -/
theorem eq_of_span_eq {r' : Reference} (h : r ∈ scan text) (h' : r' ∈ scan text)
    (hspan : r.span = r'.span) : r = r' :=
  List.inj_on_of_nodup_map (scan_nodup text) h h' hspan

end Reference
end PipelineLang
