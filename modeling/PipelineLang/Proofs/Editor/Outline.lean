import PipelineLang.Editor.Outline
import PipelineLang.Proofs.Grammar.Coverage
import PipelineLang.Proofs.Grammar.Placement
import PipelineLang.Proofs.Source.Position

/-!
# Outlines

An outline lists the declarations of all kinds by where they start. The parser gives no byte to two
declarations (`declarationSpans_apart`), so in that order each ends before the next one starts
(`declaredIn_pairwise`). Spans of declarations begin and end between characters, where a later
offset has a later position, so the ranges of the entries are in the same order
(`outline_complete`).
-/

namespace PipelineLang

namespace Editor

open Grammar

variable {text : List Char}

/-! ## The declarations of a program -/

/-- The declarations of a program, kind by kind. -/
def declaredByKind (p : Program) : List Declared :=
  p.configs.map ofConfig ++ p.pipelines.map ofPipeline ++ p.typedVariables.map ofVariable
    ++ p.routes.map ofRoute ++ p.suites.map ofSuite

theorem length_declaredByKind (p : Program) : (declaredByKind p).length = p.size := by
  simp only [declaredByKind, Program.size, List.length_append, List.length_map]

theorem map_span_declaredByKind (text : List Char) :
    (declaredByKind (parse text).program).map Declared.span = (parse text).declarationSpans := by
  simp only [declaredByKind, Parse.declarationSpans, List.map_append, List.map_map]
  rfl

theorem declaredIn_perm (p : Program) : (declaredIn p).Perm (declaredByKind p) :=
  List.mergeSort_perm _ _

theorem declaredIn_eq_nil {p : Program} : declaredIn p = [] ↔ p.size = 0 := by
  rw [← List.length_eq_zero_iff, (declaredIn_perm p).length_eq, length_declaredByKind]

/-- The spans of a declaration fit the document, the selection inside the whole. -/
structure Declared.Placed (document : List Char) (e : Declared) : Prop where
  span_fits : e.span.Fits document
  selection_fits : e.selection.Fits document
  encloses : e.span.encloses e.selection = true

theorem Declared.placed_of_fits {e : Declared} (h : e.span.Fits text) (hs : e.selection = e.span) :
    e.Placed text :=
  ⟨h, hs ▸ h, Span.encloses_iff.2 (hs ▸ ⟨le_rfl, le_rfl⟩)⟩

theorem declaredByKind_placed (text : List Char) :
    ∀ e ∈ declaredByKind (parse text).program, e.Placed text := by
  have hprogram := program_faithful text
  intro e he
  simp only [declaredByKind, List.mem_append, List.mem_map] at he
  rcases he with (((⟨v, hv, rfl⟩ | ⟨v, hv, rfl⟩) | ⟨v, hv, rfl⟩) | ⟨v, hv, rfl⟩) | ⟨v, hv, rfl⟩
  · exact Declared.placed_of_fits (hprogram.configs v hv) rfl
  · obtain ⟨hfits, hname, hinside, -⟩ := hprogram.pipelines v hv
    exact ⟨hfits, hname.toFits, hinside⟩
  · obtain ⟨hfits, hname, -, hinside, -⟩ := hprogram.typedVariables v hv
    exact ⟨hfits, hname.toFits, hinside⟩
  · exact Declared.placed_of_fits (hprogram.routes v hv).1 rfl
  · exact Declared.placed_of_fits (hprogram.suites v hv) rfl

/-- By their start, each declaration ends before the next one starts. -/
theorem declaredIn_pairwise (text : List Char) :
    (declaredIn (parse text).program).Pairwise fun a b =>
      a.span.start < b.span.start ∧ a.span.stop ≤ b.span.start := by
  have hsorted : (declaredIn (parse text).program).Pairwise fun a b => a.span.start ≤ b.span.start :=
    List.pairwise_mergeSort' (Order.Preimage (fun a : Declared => a.span.start) (· ≤ ·)) _
  have hspans := declarationSpans_apart text
  rw [← map_span_declaredByKind, List.pairwise_map] at hspans
  have hapart := (declaredIn_perm (parse text).program).symm.pairwise hspans Or.symm
  have hlong : ∀ a ∈ declaredIn (parse text).program, a.span.start < a.span.stop := by
    intro a ha
    refine declarationSpans_nonempty text a.span ?_
    rw [← map_span_declaredByKind]
    exact List.mem_map_of_mem ((declaredIn_perm _).mem_iff.1 ha)
  refine (hsorted.and hapart).imp_of_mem fun ha hb hab => ?_
  -- the later one cannot end before the earlier one starts, since it is not empty
  have hfirst := hlong _ ha
  have hsecond := hlong _ hb
  omega

/-! ## The entries of an outline -/

/-- The entry of a declaration in the outline of the document. -/
def Document.entry (d : Document) (e : Declared) : Entry :=
  ⟨e.name, e.detail, e.kind, d.range e.span, d.range e.selection⟩

theorem nonempty_eq_none {α : Type} {as : List α} : nonempty as = none ↔ as = [] := by
  cases as <;> simp [nonempty]

theorem eq_of_mem_nonempty {α : Type} {as bs : List α} (h : bs ∈ nonempty as) : bs = as := by
  cases as with
  | nil => cases h
  | cons a as => exact (Option.mem_some.1 h).symm

/-- **An outline is complete and well formed.** The outline of an analyzed text is missing if and only
if the program declares nothing. Otherwise it has one entry for each declaration of whatever kind.
Each entry starts behind the start of the one before it, and not before its end; and where an editor
puts the cursor for an entry lies inside the range of the entry. -/
theorem outline_complete (uri engine : String) (text : List Char) :
    let d : Document := ⟨uri, engine, text, analyze engine text⟩
    (d.outline = none ↔ d.analysis.program.size = 0) ∧
    ∀ entries ∈ d.outline,
      entries.Perm ((declaredByKind d.analysis.program).map d.entry) ∧
      entries.Pairwise (fun a b =>
        a.range.start.lt b.range.start ∧ a.range.stop.le b.range.start) ∧
      ∀ e ∈ entries, e.range.start.le e.selection.start ∧
        e.selection.start.le e.selection.stop ∧ e.selection.stop.le e.range.stop := by
  intro d
  have hplaced : ∀ e ∈ declaredIn d.analysis.program, e.Placed text := fun e he =>
    declaredByKind_placed text e ((declaredIn_perm _).mem_iff.1 he)
  refine ⟨?_, fun entries hentries => ?_⟩
  · exact nonempty_eq_none.trans (List.map_eq_nil_iff.trans declaredIn_eq_nil)
  obtain rfl : entries = (declaredIn d.analysis.program).map d.entry := eq_of_mem_nonempty hentries
  refine ⟨(declaredIn_perm _).map _, ?_, ?_⟩
  · refine List.pairwise_map.2 ((declaredIn_pairwise text).imp_of_mem fun ha hb hab => ?_)
    exact ⟨Position.ofOffset_lt (hplaced _ ha).span_fits.start_boundary
      (hplaced _ hb).span_fits.start_boundary hab.1, Position.ofOffset_le hab.2 text⟩
  · refine List.forall_mem_map.2 fun e he => ?_
    obtain ⟨-, hselection, hinside⟩ := hplaced e he
    obtain ⟨hstart, hstop⟩ := Span.encloses_iff.1 hinside
    exact ⟨Position.ofOffset_le hstart text, Position.ofOffset_le hselection.start_le_stop text,
      Position.ofOffset_le hstop text⟩

end Editor
end PipelineLang
