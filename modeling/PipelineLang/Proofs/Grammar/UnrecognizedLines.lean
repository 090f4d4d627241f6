import Mathlib.Data.List.TakeWhile
import PipelineLang.Proofs.Grammar.Backticks
import PipelineLang.Proofs.Grammar.Clauses

/-!
# Lines that start no declaration

What is passed over between declarations is layout: spaces, tabs, line ends and comments. What a
report leaves away at the end of a line is all of Unicode's white space. So the report of a line
begins behind the layout and ends with the last character of the line that is not white
(`exists_reportedLine`), and it points at something unless the character it begins with is white
without being layout, such as a form feed or a no-break space. A blank text is reported just if it
has such a character (`unrecognized_points_iff`).
-/

namespace PipelineLang

open Cursor Utf8

/-! ## Lines without the white at their end -/

/-- The last character that trimming leaves is not white. -/
theorem Blank.getLast?_trimEnd (cs : List Char) : ∀ x ∈ (trimEnd cs).getLast?, isWhite x = false := by
  intro x hx
  induction cs with
  | nil => cases hx
  | cons c cs ih =>
    rw [trimEnd] at hx
    split at hx
    · split at hx
      · cases hx
      · next hc =>
        cases hx
        exact eq_false_of_ne_true hc
    · next d ds hcs =>
      rw [hcs] at ih
      exact ih hx

/-- `body` is the line up to the last character that is not white. -/
def Blank.Trims (line body : List Char) : Prop :=
  ∃ trail, line = body ++ trail ∧ (∀ x ∈ trail, isWhite x = true) ∧
    ∀ x ∈ body.getLast?, isWhite x = false

theorem Blank.trims_trimEnd (line : List Char) : Trims line (trimEnd line) := by
  obtain ⟨trail, hline, hwhite⟩ := exists_trimEnd_append line
  exact ⟨trail, hline, hwhite, getLast?_trimEnd line⟩

/-- A line that begins with a character that is not white is not trimmed to nothing. -/
theorem Blank.Trims.ne_nil {x : Char} {line body : List Char} (h : Trims (x :: line) body)
    (hx : isWhite x = false) : body ≠ [] := by
  rintro rfl
  obtain ⟨trail, hline, hwhite, -⟩ := h
  rw [List.nil_append] at hline
  rw [hwhite x (hline ▸ List.mem_cons_self)] at hx
  cases hx

/-! ## Lines of a document -/

/-- What the document has from the offset on, up to the end of the line. -/
def IsLineAt (document : List Char) (offset : Nat) (line : List Char) : Prop :=
  ∃ front back, document = front ++ line ++ back ∧ offset = byteLength front ∧ '\n' ∉ line ∧
    ∀ x ∈ back.head?, x = '\n'

theorem IsLineAt.head_eq {document line line' : List Char} {offset : Nat} {x y : Char}
    (h : IsLineAt document offset (x :: line)) (h' : IsLineAt document offset (y :: line')) :
    x = y := by
  obtain ⟨front, back, hdocument, hoffset, -⟩ := h
  obtain ⟨front', back', hdocument', hoffset', -⟩ := h'
  rw [List.append_assoc] at hdocument hdocument'
  have htext := hdocument.symm.trans hdocument'
  obtain rfl := append_inj_of_byteLength htext (hoffset.symm.trans hoffset')
  exact (List.cons.inj (List.append_cancel_left htext)).1

theorem isLineAt_of_le {document : List Char} {c : Cursor} (h : start 0 document ≤ c) :
    IsLineAt document c.offset c.line := by
  obtain ⟨front, hfront⟩ := exists_run h
  have hoffset := hfront.offset_eq
  rw [start, Nat.zero_add] at hoffset
  refine ⟨front, c.lineEnd.rest, ?_, hoffset, fun hmem => ?_, fun x hx => ?_⟩
  · rw [List.append_assoc, ← rest_lineEnd]
    exact hfront.rest_eq
  · exact absurd (List.mem_takeWhile_imp hmem) (by decide)
  · have hhead := List.head?_dropWhile_not (· != '\n') c.rest
    rw [← rest_skipWhile, show c.skipWhile (· != '\n') = c.lineEnd from rfl, hx] at hhead
    simpa using hhead

/-- The report is of the line: it spans the line up to the last character that is not white, and
quotes what it begins with. -/
structure SyntaxReport.OfLine (document : List Char) (r : SyntaxReport) (line body : List Char) :
    Prop where
  stands : IsLineAt document r.span.start line
  trims : Blank.Trims line body
  spells : r.span.Spells document body
  quotes : r.fault = .unrecognized (String.ofList (body.take Grammar.snippetLength))

/-- The report points at something: it is of a line that begins with a character that is not white,
and neither what it spans nor what it quotes is empty. -/
def SyntaxReport.Points (document : List Char) (r : SyntaxReport) : Prop :=
  ∃ x line body, r.OfLine document (x :: line) body ∧ Blank.isWhite x = false ∧
    r.span.start < r.span.stop ∧ body.take Grammar.snippetLength ≠ []

/-- The report of a line points at something just if the line does not begin with a white
character. -/
theorem SyntaxReport.OfLine.points_iff {document line body : List Char} {r : SyntaxReport} {x : Char}
    (h : r.OfLine document (x :: line) body) : r.Points document ↔ Blank.isWhite x = false := by
  constructor
  · rintro ⟨y, line', body', h', hy, -⟩
    rwa [h.stands.head_eq h'.stands]
  · intro hx
    have hbody := h.trims.ne_nil hx
    refine ⟨x, line, body, h, hx, ?_, ?_⟩
    · have hlength := h.spells.toFits.byteLength_text
      have hpos := byteLength_pos hbody
      rw [h.spells.text_eq] at hlength
      omega
    · rw [Ne, List.take_eq_nil_iff]
      exact not_or.2 ⟨by decide, hbody⟩

namespace Grammar

variable {text : List Char} {r : SyntaxReport}

/-- Each report of such a line is made at a cursor behind layout. -/
theorem exists_unrecognizedLine (hr : r ∈ (parse text).reports) (h : r.isUnrecognized = true) :
    ∃ c, start 0 text ≤ c ∧ c.layout.atEnd = false ∧
      (unrecognizedLine c.layout).1 = .unrecognized r := by
  rcases List.mem_append.1 hr with hr | hr
  · obtain ⟨i, hi, hr⟩ := List.mem_flatMap.1 hr
    obtain ⟨c, d, hc, hread⟩ := mem_items hi
    obtain ⟨hend, hread | ⟨-, hline⟩⟩ := item_cases hread
    · rw [declaration_reports hread r hr] at h
      cases h
    · refine ⟨c, hc, hend, ?_⟩
      rw [← hline]
      cases hline
      rw [List.mem_singleton.1 hr]
  · have hmem := List.mem_filter.2 ⟨hr, h⟩
    rw [filter_unclosedTick] at hmem
    cases hmem

/-- Behind layout a line does not begin with layout. -/
theorem exists_line_of_layout {c : Cursor} (hend : c.layout.atEnd = false) :
    ∃ x line, c.layout.line = x :: line ∧ Blank.isLayout x = false ∧ x ≠ '#' := by
  obtain ⟨-, -, -, -, hstop⟩ := layout_spec c
  cases hrest : c.layout.rest with
  | nil => simp [atEnd, hrest] at hend
  | cons x xs =>
    obtain ⟨hlayout, hhash⟩ := hstop x (by rw [hrest]; rfl)
    refine ⟨x, xs.takeWhile (· != '\n'), ?_, hlayout, hhash⟩
    rw [line, hrest, List.takeWhile_cons_of_pos]
    refine bne_iff_ne.2 ?_
    rintro rfl
    cases hlayout

/-- A report of a line that starts no declaration begins behind the layout. -/
theorem exists_reportedLine (hr : r ∈ (parse text).reports) (h : r.isUnrecognized = true) :
    ∃ x line body, r.OfLine text (x :: line) body ∧ Blank.isLayout x = false ∧ x ≠ '#' := by
  obtain ⟨c, hc, hend, hline⟩ := exists_unrecognizedLine hr h
  obtain ⟨x, line, hx, hlayout, hhash⟩ := exists_line_of_layout hend
  have hle := hc.trans (le_layout c)
  have hspells := (trimmedLine_between c.layout).spells hle
  rw [(trimmedLine_between c.layout).offset_eq] at hspells
  cases hline
  refine ⟨x, line, Blank.trimEnd c.layout.line, ⟨?_, ?_, hspells, rfl⟩, hlayout, hhash⟩
  · exact hx ▸ isLineAt_of_le hle
  · exact hx ▸ Blank.trims_trimEnd _

/-! ## Blank texts -/

/-- A text without comments that is passed over is layout throughout. -/
theorem isLayout_of_layout_go {cs : List Char} (hcs : '#' ∉ cs) : ∀ {c : Cursor}, c.rest = cs →
    (layout.go false cs c).rest = [] → ∀ x ∈ cs, Blank.isLayout x = true := by
  induction cs with
  | nil => exact fun _ _ => nofun
  | cons y ys ih =>
    intro c hc hend x hx
    rw [List.mem_cons, not_or] at hcs
    rw [layout.go, Bool.false_and, if_neg Bool.false_ne_true] at hend
    split at hend
    · next hy =>
      rcases List.mem_cons.1 hx with rfl | hx
      · exact hy
      · exact ih hcs.2 rfl hend x hx
    · rw [if_neg (Ne.symm hcs.1), hc] at hend
      cases hend

/-- Nothing is reported of layout. -/
theorem reports_of_isLayout (h : ∀ x ∈ text, Blank.isLayout x = true) : (parse text).reports = [] := by
  have hnone : item (start 0 text) = none := by
    rw [item, atEnd, layout_blank (c := start 0 text) h]
    rfl
  have hticks : text.count tick = 0 := List.count_eq_zero.2 fun hmem =>
    absurd (h tick hmem) (by decide)
  have hitems : items text = [] := by rw [items, many_of_none hnone]
  simp only [parse, hitems, List.flatMap_nil, List.nil_append]
  exact unclosedTick_eq_nil_iff.2 (by rw [hticks])

/-- Nothing else that is blank goes unreported. -/
theorem isLayout_of_reports (hblank : ∀ x ∈ text, Blank.isWhite x = true)
    (h : (parse text).reports = []) : ∀ x ∈ text, Blank.isLayout x = true := by
  have hhash : '#' ∉ text := fun hmem => absurd (hblank '#' hmem) (by decide)
  refine isLayout_of_layout_go hhash (c := start 0 text) rfl ?_
  change (start 0 text).layout.rest = []
  by_contra hrest
  cases hread : declaration (start 0 text).layout with
  | none =>
    -- then the line there is reported
    have hmem : (unrecognizedLine (start 0 text).layout).1 ∈ items text :=
      Comes.mem_many (fun _ _ _ => item_lt) .refl (item_of_line hrest hread)
    have hreports := List.flatMap_eq_nil_iff.1 (List.append_eq_nil_iff.1 h).1 _ hmem
    cases hreports
  | some r =>
    -- a declaration begins with a character that is not white
    obtain ⟨x, hx, hident⟩ := (Option.any_eq_true _ _).1 (peek_of_declaration (d := r.2) hread)
    have hsuffix : (start 0 text).layout.rest <:+ text := rest_suffix (le_layout (start 0 text))
    have hwhite := hblank x (hsuffix.mem (List.mem_of_head? hx))
    rw [not_isWhite_of_isIdentChar hident] at hwhite
    cases hwhite

/-- **Reports of lines point at something unless white space is taken for a line.** The report of a
line that starts no declaration begins with a character that is no layout and opens no comment, ends
with the last character of the line that is not white, and quotes the first characters of what is
between. It points at something if and only if the character it begins with is not white. So layout
yields no report, and of a blank text something is reported if and only if it is not all layout. -/
theorem unrecognized_points_iff (text : List Char) :
    (∀ r ∈ (parse text).reports, r.isUnrecognized = true →
      ∃ x line body, r.OfLine text (x :: line) body ∧ Blank.isLayout x = false ∧ x ≠ '#' ∧
        (r.Points text ↔ Blank.isWhite x = false)) ∧
    ((∀ x ∈ text, Blank.isWhite x = true) →
      ((parse text).reports = [] ↔ ∀ x ∈ text, Blank.isLayout x = true)) := by
  refine ⟨fun r hr h => ?_, fun hblank => ⟨isLayout_of_reports hblank, reports_of_isLayout⟩⟩
  obtain ⟨x, line, body, hline, hlayout, hhash⟩ := exists_reportedLine hr h
  exact ⟨x, line, body, hline, hlayout, hhash, hline.points_iff⟩

/-- A line that starts no declaration, with a no-break space at its end. -/
def strayWord : List Char := "  junk\u00a0\n".toList

/-- The report of a stray word points at the word. -/
theorem unrecognized_points_iff_strayWord :
    (parse strayWord).reports = [⟨.unrecognized "junk", ⟨2, 6⟩⟩] ∧
      SyntaxReport.Points strayWord ⟨.unrecognized "junk", ⟨2, 6⟩⟩ := by
  have hreports : (parse strayWord).reports = [⟨.unrecognized "junk", ⟨2, 6⟩⟩] := by decide +kernel
  refine ⟨hreports, ?_⟩
  obtain ⟨x, line, body, hline, -, -, hpoints⟩ :=
    (unrecognized_points_iff strayWord).1 ⟨.unrecognized "junk", ⟨2, 6⟩⟩ (by rw [hreports]; simp) rfl
  have hword : IsLineAt strayWord 2 "junk\u00a0".toList :=
    ⟨"  ".toList, ['\n'], by decide, by decide, by decide, by rintro x ⟨⟩; rfl⟩
  obtain rfl : x = 'j' := hline.stands.head_eq hword
  exact hpoints.2 (by decide)

/-- A line with nothing but a no-break space, and one with a no-break space behind a variable. -/
def noBreakSpaces : List Char := "\u00a0\npg a = \x60x\x60\u00a0\n".toList

/-- White space that is no layout is reported, on a blank line as behind a declaration, and the report
points at nothing. -/
theorem noBreakSpaces_reported :
    (parse noBreakSpaces).reports = [⟨.unrecognized "", ⟨0, 0⟩⟩, ⟨.unrecognized "", ⟨13, 13⟩⟩] ∧
      ∀ r ∈ (parse noBreakSpaces).reports, r.isUnrecognized = true ∧ ¬r.Points noBreakSpaces := by
  have hreports : (parse noBreakSpaces).reports
      = [⟨.unrecognized "", ⟨0, 0⟩⟩, ⟨.unrecognized "", ⟨13, 13⟩⟩] := by decide +kernel
  refine ⟨hreports, fun r hr => ?_⟩
  have hempty : r.isUnrecognized = true ∧ ¬r.span.start < r.span.stop := by
    rw [hreports] at hr
    revert r
    decide
  exact ⟨hempty.1, fun ⟨_, _, _, _, _, hlt, _⟩ => hempty.2 hlt⟩

end Grammar
end PipelineLang
