import PipelineLang.Proofs.Grammar.Spelling

/-!
# What a quoted text is made of

Between the quotes stand units: a character that is no quote, backslash or line feed, or a backslash
with the character behind it, whatever that is. Looking for the closing quote passes one unit after
another (`quotedRun_append_close`, `exists_units_of_quotedRun`). Taking the backslash away before
each quote looks at the characters and not at the units, but of the characters of units a quote only
ever stands behind the backslash of its own unit, so it comes to the same (`unescapeQuotes_written`).
-/

namespace PipelineLang

open Utf8

/-- A unit of a quoted text. -/
inductive QuotedUnit where
  | plain (x : Char) (not_quote : x ≠ '"') (not_backslash : x ≠ '\\') (not_lineFeed : x ≠ '\n')
  | escaped (x : Char)

namespace QuotedUnit

/-- The unit as it stands between the quotes. -/
def written : QuotedUnit → List Char
  | plain x _ _ _ => [x]
  | escaped x => ['\\', x]

/-- What the unit stands for: an escaped quote for the quote, any other unit for itself. -/
def value : QuotedUnit → List Char
  | plain x _ _ _ => [x]
  | escaped x => if x = '"' then ['"'] else ['\\', x]

/-- Whether the unit is no backslash before a line feed. -/
def StaysOnLine : QuotedUnit → Prop
  | plain .. => True
  | escaped x => x ≠ '\n'

theorem lineFeed_mem_written {u : QuotedUnit} : '\n' ∈ u.written ↔ ¬u.StaysOnLine := by
  cases u with
  | plain x hquote hbackslash hlineFeed => simp [written, StaysOnLine, Ne.symm hlineFeed]
  | escaped x => simp [written, StaysOnLine, eq_comm]

/-- A text of units does not begin with a quote. -/
theorem head?_written_ne (units : List QuotedUnit) :
    (units.flatMap written).head? ≠ some '"' := by
  cases units with
  | nil => exact nofun
  | cons u units =>
    cases u with
    | plain x hquote hbackslash hlineFeed => simpa [written] using hquote
    | escaped x => simp [written]

end QuotedUnit

namespace Cursor

open QuotedUnit

variable {c d : Cursor}

/-! ## The closing quote -/

/-- The closing quote is the one behind the units. -/
theorem quotedRun_append_close (units : List QuotedUnit) (rest : List Char) :
    quotedRun (units.flatMap written ++ '"' :: rest) = some (units.flatMap written) := by
  induction units with
  | nil => rfl
  | cons u units ih =>
    cases u with
    | plain x hquote hbackslash hlineFeed =>
      rw [List.flatMap_cons, written, List.singleton_append, List.cons_append, quotedRun,
        if_neg hquote, if_neg (by simp [hlineFeed, hbackslash]), ih]
      · rfl
      · exact fun y ys hx => absurd hx hbackslash
    | escaped x =>
      have hunit : (.escaped x :: units).flatMap written ++ '"' :: rest
          = '\\' :: x :: (units.flatMap written ++ '"' :: rest) := rfl
      rw [hunit, quotedRun, ih]
      rfl

/-- What stands before the closing quote is made of units. -/
theorem exists_units_of_quotedRun {text run : List Char} (h : quotedRun text = some run) :
    ∃ units : List QuotedUnit, run = units.flatMap written := by
  fun_induction quotedRun text generalizing run with
  | case1 => cases h
  | case2 x xs ih =>
    obtain ⟨run', hrun, rfl⟩ := Option.map_eq_some_iff.1 h
    obtain ⟨units, rfl⟩ := ih hrun
    exact ⟨.escaped x :: units, rfl⟩
  | case3 xs => cases h; exact ⟨[], rfl⟩
  | case4 => cases h
  | case5 x xs hbackslash hquote hend ih =>
    obtain ⟨run', hrun, rfl⟩ := Option.map_eq_some_iff.1 h
    obtain ⟨units, rfl⟩ := ih hrun
    simp only [Bool.or_eq_true, decide_eq_true_eq, not_or] at hend
    exact ⟨.plain x hquote hend.2 hend.1 :: units, rfl⟩

/-! ## The value -/

theorem unescapeQuotes_cons {x : Char} {xs : List Char} (h : x = '\\' → xs.head? ≠ some '"') :
    unescapeQuotes (x :: xs) = x :: unescapeQuotes xs := by
  rw [unescapeQuotes]
  rintro ys rfl rfl
  exact h rfl rfl

/-- The backslashes that are taken away are those of the escaped quotes. -/
theorem unescapeQuotes_written (units : List QuotedUnit) :
    unescapeQuotes (units.flatMap written) = units.flatMap value := by
  induction units with
  | nil => rfl
  | cons u units ih =>
    rw [List.flatMap_cons, List.flatMap_cons, ← ih]
    cases u with
    | plain x hquote hbackslash hlineFeed =>
      exact unescapeQuotes_cons fun hx => absurd hx hbackslash
    | escaped x =>
      by_cases hx : x = '"'
      · subst hx
        rfl
      · rw [value, if_neg hx]
        -- a backslash behind the first one does not meet a quote either
        have hsecond : unescapeQuotes (x :: units.flatMap written)
            = x :: unescapeQuotes (units.flatMap written) :=
          unescapeQuotes_cons fun _ => head?_written_ne units
        calc unescapeQuotes ('\\' :: x :: units.flatMap written)
          _ = '\\' :: unescapeQuotes (x :: units.flatMap written) :=
            unescapeQuotes_cons fun _ hhead => hx (Option.some.inj hhead)
          _ = ['\\', x] ++ unescapeQuotes (units.flatMap written) := by rw [hsecond]; rfl

/-! ## The text in quotes -/

/-- What is read of units in quotes. -/
theorem quotedText_of_units {units : List QuotedUnit} {rest : List Char}
    (h : c.rest = '"' :: (units.flatMap written ++ '"' :: rest)) :
    c.quotedText = some (⟨String.ofList (units.flatMap value),
        ⟨c.offset + 1, c.offset + 1 + byteLength (units.flatMap written)⟩⟩,
      c.skip ((units.flatMap written).length + 2)) := by
  have hopen : c.char '"' = some (c.skip 1) := by rw [char_cons h, step_eq_skip h]
  have hinner : (c.skip 1).rest = units.flatMap written ++ '"' :: rest := by rw [rest_skip, h]; rfl
  have hstart : (c.skip 1).offset = c.offset + 1 := by rw [offset_skip, h]; rfl
  have hrun : quotedRun (c.skip 1).rest = some (units.flatMap written) :=
    hinner ▸ quotedRun_append_close units rest
  have hend : ((c.skip 1).skip (units.flatMap written).length).rest = '"' :: rest := by
    rw [rest_skip, hinner, List.drop_left]
  have hstop : ((c.skip 1).skip (units.flatMap written).length).offset
      = c.offset + 1 + byteLength (units.flatMap written) := by
    rw [offset_skip, hinner, List.take_left, hstart]
  have hclose : ((c.skip 1).skip (units.flatMap written).length).char '"'
      = some (c.skip ((units.flatMap written).length + 2)) := by
    rw [char_cons hend, step_eq_skip hend, skip_skip, skip_skip, Nat.add_comm 1, Nat.add_assoc]
  rw [quotedText]
  simp only [bind, Option.bind_some, hopen, hrun, hclose, hstart, hstop, unescapeQuotes_written]
  rfl

/-- A text in quotes that is read holds units. -/
theorem exists_units_of_quotedText {t : Token} (h : c.quotedText = some (t, d)) :
    ∃ (units : List QuotedUnit) (rest : List Char),
      c.rest = '"' :: (units.flatMap written ++ '"' :: rest) := by
  obtain ⟨text, hrest, hread⟩ := quotedText_ne_none_iff.1 (h ▸ Option.some_ne_none _)
  obtain ⟨run, hrun⟩ := Option.ne_none_iff_exists'.1 hread
  obtain ⟨tail, rfl⟩ := quotedRun_spec hrun
  obtain ⟨units, rfl⟩ := exists_units_of_quotedRun hrun
  exact ⟨units, tail, hrest⟩

/-- A text in quotes spans the units that stand between them, and its value is theirs. -/
theorem quotedText_spec {t : Token} (h : c.quotedText = some (t, d)) :
    ∃ (inner : Cursor) (units : List QuotedUnit) (close : Cursor), c ≤ inner ∧
      Between inner (units.flatMap written) close ∧ close ≤ d ∧
      t.span = ⟨inner.offset, close.offset⟩ ∧ t.text = String.ofList (units.flatMap value) := by
  simp only [quotedText, bind, Option.bind_eq_some_iff] at h
  obtain ⟨inner, hopen, run, hrun, next, hclose, heq⟩ := h
  cases heq
  obtain ⟨tail, htail⟩ := quotedRun_spec hrun
  have hrest : inner.rest = run ++ (inner.skip run.length).rest := by
    rw [rest_skip, htail, List.drop_left]
  obtain ⟨units, rfl⟩ := exists_units_of_quotedRun hrun
  refine ⟨inner, units, _, (char_lt hopen).le, ⟨hrest, rfl⟩, (char_lt hclose).le, rfl, ?_⟩
  rw [unescapeQuotes_written]

/-- **A quoted text is a quote, units and a quote**, and nothing else is read as one. The cursor is
left right behind the closing quote, the span is that of the units, and the value is the units with
the backslash taken away before each quote. The text stays on its line but for the units that are a
backslash before a line feed. -/
theorem quotedText_reads (c : Cursor) :
    (c.quotedText ≠ none ↔ ∃ (units : List QuotedUnit) (rest : List Char),
      c.rest = '"' :: (units.flatMap written ++ '"' :: rest)) ∧
    (∀ (units : List QuotedUnit) (rest : List Char),
      c.rest = '"' :: (units.flatMap written ++ '"' :: rest) →
      c.quotedText = some (⟨String.ofList (units.flatMap value),
          ⟨c.offset + 1, c.offset + 1 + byteLength (units.flatMap written)⟩⟩,
        c.skip ((units.flatMap written).length + 2)) ∧
      (c.skip ((units.flatMap written).length + 2)).rest = rest) ∧
    ∀ units : List QuotedUnit, '\n' ∈ units.flatMap written ↔ ∃ u ∈ units, ¬u.StaysOnLine := by
  refine ⟨⟨fun hread => ?_, ?_⟩, fun units rest h => ⟨quotedText_of_units h, ?_⟩, fun units => ?_⟩
  · obtain ⟨⟨t, d⟩, h⟩ := Option.ne_none_iff_exists'.1 hread
    exact exists_units_of_quotedText h
  · rintro ⟨units, rest, h⟩
    rw [quotedText_of_units h]
    exact Option.some_ne_none _
  · have hlength : (units.flatMap written).length + 2
        = ('"' :: (units.flatMap written ++ ['"'])).length := by simp
    have hrest : c.rest = '"' :: (units.flatMap written ++ ['"']) ++ rest := by simp [h]
    rw [rest_skip, hlength, hrest, List.drop_left]
  · simp only [List.mem_flatMap, lineFeed_mem_written]

/-- Of three backslashes before a quote the last one escapes it. -/
example : ((start 0 "\"\\\\\\\"\"".toList).quotedText.map fun r => r.1.text)
    = some "\\\\\"" := by
  decide +kernel

/-- A title that goes over a line end, with a backslash before it. -/
def brokenTitle : List Char := "describe \"a\\\nb\"\n".toList

/-- A text in quotes need not end on its line: a backslash takes the line end along. -/
theorem quotedText_crosses_line :
    ((start 0 brokenTitle).skip 9).quotedText
        = some (⟨"a\\\nb", ⟨10, 14⟩⟩, (start 0 brokenTitle).skip 15) ∧
      ¬∃ (units : List QuotedUnit) (rest : List Char), (∀ u ∈ units, u.StaysOnLine) ∧
        ((start 0 brokenTitle).skip 9).rest = '"' :: (units.flatMap written ++ '"' :: rest) := by
  refine ⟨by decide +kernel, ?_⟩
  rintro ⟨units, rest, hline, h⟩
  have hread : quotedRun ((start 0 brokenTitle).skip 9).rest.tail = some ['a', '\\', '\n', 'b'] := by
    decide +kernel
  rw [h, List.tail_cons, quotedRun_append_close, Option.some.injEq] at hread
  have hmem : '\n' ∈ units.flatMap written := hread ▸ by decide
  obtain ⟨u, hu, hcrosses⟩ := List.mem_flatMap.1 hmem
  exact lineFeed_mem_written.1 hcrosses (hline u hu)

end Cursor
end PipelineLang
