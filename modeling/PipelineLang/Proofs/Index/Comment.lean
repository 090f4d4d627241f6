import PipelineLang.Proofs.Grammar.Comment
import PipelineLang.Proofs.Index.Reports
import PipelineLang.Proofs.Reference.Append

/-!
# What a comment changes

A comment behind a document is nothing to the grammar, but references and backticks are looked for in
the text of a document, comments included. So an analysis changes by the references that are written
in the comment, by the reports on those, and by the report of a backtick that the comment leaves
unclosed (`analyze_comment`).
-/

namespace PipelineLang

open Utf8 Cursor Grammar Template

/-! ## Text behind a document -/

theorem Span.Fits.text_append {document : List Char} {s : Span} (h : s.Fits document)
    (behind : List Char) : s.text (document ++ behind) = s.text document := by
  obtain ⟨front, run, back, rfl, rfl⟩ := h.exists_run
  rw [(Span.spells_append front run back).text_eq, List.append_assoc,
    (Span.spells_append front run (back ++ behind)).text_eq]

/-- Partials are looked for in the regions only. -/
theorem collect_append (engine : String) (text behind : List Char) :
    collect (parse text).program (text ++ behind) engine
      = collect (parse text).program text engine := by
  have hcursor : ∀ r ∈ regionsOf (parse text).program engine,
      regionCursor (text ++ behind) r = regionCursor text r := by
    intro r hr
    rw [regionCursor, (regionsOf_fit engine text r hr).text_append, regionCursor]
  have husages : (regionsOf (parse text).program engine).flatMap (usagesIn (text ++ behind))
      = (regionsOf (parse text).program engine).flatMap (usagesIn text) :=
    List.flatMap_congr fun r hr => by rw [usagesIn, hcursor r hr, usagesIn]
  have hscopes : (regionsOf (parse text).program engine).filterMap (scopeOf (text ++ behind))
      = (regionsOf (parse text).program engine).filterMap (scopeOf text) := by
    refine List.filterMap_congr fun r hr => ?_
    simp only [scopeOf, definitionsIn, hcursor r hr]
  simp only [collect, husages, hscopes]

/-! ## Comments -/

section
variable (engine : String) {a back cs : List Char}

/-- Reports on references behind a document stand behind its own. -/
theorem referenceReports_append (ha : a = [] ∨ EndsInLineFeed a)
    (hperm : (analyze engine (a ++ back)).referenceReports.Perm
      ((analyze engine a).referenceReports
        ++ (analyze engine a).program.unknownReports (Reference.scanAt (byteLength a) back))) :
    (analyze engine (a ++ back)).referenceReports = (analyze engine a).referenceReports
      ++ (analyze engine a).program.unknownReports (Reference.scanAt (byteLength a) back) := by
  have hsorted : ((analyze engine a).referenceReports
      ++ (analyze engine a).program.unknownReports
        (Reference.scanAt (byteLength a) back)).Pairwise fun r s => r.le s = true := by
    refine List.pairwise_append.2 ⟨sorted_referenceReports engine a, ?_, fun r hr s hs => ?_⟩
    · refine List.pairwise_map.2 (((Reference.strict_scanAt ha back).filter _).imp fun hlt => ?_)
      exact ReferenceReport.le_iff.2 (Or.inl hlt)
    · obtain ⟨t, ht, rfl⟩ := List.mem_map.1 hs
      have hr := bounds_of_mem_reports hr
      have ht := Reference.bounds_of_mem_scanAt (List.mem_filter.1 ht).1
      exact ReferenceReport.le_iff.2 (Or.inl (by simp only; omega))
  refine hperm.eq_of_pairwise (fun r s hr hs => ?_) (sorted_referenceReports engine _) hsorted
  exact eq_of_le_of_le hr (hperm.mem_iff.2 hs)

/-- **Layout behind a document adds references, and the reports of references and backticks.** -/
theorem analyze_append_void (hback : IsVoid back) (ha : a = [] ∨ EndsInLineFeed a)
    (hclean : (analyze engine a).syntaxReports = [])
    (hopen : ∀ x ∈ back, ¬(analyze engine a).program.MayOpen x) :
    analyze engine (a ++ back) =
      { program := (analyze engine a).program
        symbols := { (analyze engine a).symbols with
          references := .ofList (Reference.scan a ++ Reference.scanAt (byteLength a) back) }
        syntaxReports := (unclosedTick back).map (SyntaxReport.shift (byteLength a))
        referenceReports := (analyze engine a).referenceReports
          ++ (analyze engine a).program.unknownReports (Reference.scanAt (byteLength a) back) } := by
  have hparse := parse_append_void hback ha hclean hopen
  have hscan := Reference.scan_append ha back
  have hsymbols : (analyze engine (a ++ back)).symbols = { (analyze engine a).symbols with
      references := .ofList (Reference.scan a ++ Reference.scanAt (byteLength a) back) } := by
    simp only [analyze, SymbolTable.build, hparse, hscan, collect_append]
  have hprogram : (analyze engine (a ++ back)).program = (analyze engine a).program := by
    simp only [analyze, hparse]
  have hother : (analyze engine (a ++ back)).otherReports = (analyze engine a).otherReports := by
    rw [Analysis.otherReports, hprogram, hsymbols]
    rfl
  have hsyntax : (analyze engine (a ++ back)).syntaxReports
      = (unclosedTick back).map (SyntaxReport.shift (byteLength a)) := by
    simp only [analyze, hparse]
  have hreports : (analyze engine (a ++ back)).referenceReports
      = (analyze engine a).referenceReports
        ++ (analyze engine a).program.unknownReports (Reference.scanAt (byteLength a) back) := by
    refine referenceReports_append engine ha ?_
    refine (perm_referenceReports engine (a ++ back)).trans ?_
    rw [hprogram, hother, hscan, Program.unknownReports_append, List.append_assoc]
    refine (List.perm_append_comm.append_left _).trans ?_
    rw [← List.append_assoc]
    exact (perm_referenceReports engine a).symm.append_right _
  have heta (x : Analysis) :
      x = ⟨x.program, x.symbols, x.syntaxReports, x.referenceReports⟩ := rfl
  rw [heta (analyze engine (a ++ back)), hprogram, hsymbols, hsyntax, hreports]

theorem not_mayOpen_commentLine {p : Program} (hopen : ∀ x ∈ cs, ¬p.MayOpen x) :
    ∀ x ∈ commentLine cs, ¬p.MayOpen x := by
  intro x hx hmay
  rw [commentLine, List.mem_cons, List.mem_append, List.mem_singleton] at hx
  rcases hx with rfl | hx | rfl
  · exact absurd hmay.isMark (by decide)
  · exact hopen x hx hmay
  · exact absurd hmay.isMark (by decide)

/-- Tables of references tell apart lists of different lengths. -/
theorem eq_nil_of_ofList_append {rs rs' : List Reference}
    (h : ReferenceTable.ofList (rs ++ rs') = .ofList rs) : rs' = [] := by
  have hlength := (ReferenceTable.allSpans_perm (rs ++ rs')).length_eq
  rw [h, (ReferenceTable.allSpans_perm rs).length_eq, List.length_map, List.length_map,
    List.length_append] at hlength
  exact List.length_eq_zero_iff.1 (by omega)

/-- **What a comment behind a document changes.** Let the document be empty or end with a line feed,
and let no fault of syntax be found in it. A comment behind it, unless it holds the mark that a mock
of the document is left open with, leaves program and declarations as they are. It adds the references
that are written in it, the reports on those of them that the program does not declare, and the
report of a backtick that it leaves unclosed. So it changes nothing if it holds an even number of
backticks and no reference, and something if not. -/
theorem analyze_comment (ha : a = [] ∨ EndsInLineFeed a) (hcs : '\n' ∉ cs)
    (hclean : (analyze engine a).syntaxReports = [])
    (hopen : ∀ x ∈ cs, ¬(analyze engine a).program.MayOpen x) :
    analyze engine (a ++ commentLine cs) =
      { program := (analyze engine a).program
        symbols := { (analyze engine a).symbols with
          references :=
            .ofList (Reference.scan a ++ Reference.scanAt (byteLength a) (commentLine cs)) }
        syntaxReports := (unclosedTick (commentLine cs)).map (SyntaxReport.shift (byteLength a))
        referenceReports := (analyze engine a).referenceReports
          ++ (analyze engine a).program.unknownReports
            (Reference.scanAt (byteLength a) (commentLine cs)) } ∧
    (analyze engine (a ++ commentLine cs) = analyze engine a ↔
      Reference.scanAt (byteLength a) (commentLine cs) = [] ∧ cs.count tick % 2 = 0) := by
  have heq := analyze_append_void engine (isVoid_comment hcs) ha hclean
    (not_mayOpen_commentLine hopen)
  refine ⟨heq, ?_⟩
  rw [← count_commentLine, ← unclosedTick_eq_nil_iff]
  constructor
  · intro hsame
    rw [hsame] at heq
    refine ⟨?_, ?_⟩
    · exact eq_nil_of_ofList_append (congrArg (·.symbols.references) heq).symm
    · exact List.map_eq_nil_iff.1 ((congrArg (·.syntaxReports) heq).symm.trans hclean)
  · rintro ⟨hreferences, hticks⟩
    rw [heq, hreferences, hticks, List.append_nil, Program.unknownReports, List.filter_nil,
      List.map_nil, List.map_nil, List.append_nil, ← hclean]
    rfl

end

/-- A comment may follow a suite, although that goes on to the end of its text. -/
theorem analyze_comment_suite :
    analyze "handlebars" ("describe \"d\"\n  it \"t\"\n    when executing pipeline p\n".toList
        ++ commentLine " then output equals 1".toList)
      = analyze "handlebars"
        "describe \"d\"\n  it \"t\"\n    when executing pipeline p\n".toList := by
  have hmarks : (" then output equals 1".toList.all fun x => x != tick && x != '"') = true := by
    decide +kernel
  refine ((analyze_comment "handlebars" (Or.inr (by decide +kernel)) (by decide)
    (List.isEmpty_iff.1 (by decide +kernel)) fun x hx hmay => ?_).2).2 ⟨?_, by decide +kernel⟩
  · have hx := List.all_eq_true.1 hmarks x hx
    simp only [Bool.and_eq_true, bne_iff_ne] at hx
    exact hmay.isMark.elim hx.1 hx.2
  · exact List.isEmpty_iff.1 (by decide +kernel)

/-- The view of an analysis is the same with a comment behind the document, if that is empty or ends
with a line feed and no fault of syntax is found in it. -/
def IgnoresComments {α : Type} (view : Analysis → α) : Prop :=
  ∀ (engine : String) (a cs : List Char), (a = [] ∨ EndsInLineFeed a) → '\n' ∉ cs →
    (analyze engine a).syntaxReports = [] →
    view (analyze engine (a ++ commentLine cs)) = view (analyze engine a)

/-- A comment may close the value of a mock, hold a reference, and hold a backtick. -/
theorem not_ignoresComments : ¬IgnoresComments Analysis.program ∧
    ¬IgnoresComments (·.symbols.references) ∧ ¬IgnoresComments Analysis.diagnostics := by
  refine ⟨fun h => ?_, fun h => ?_, fun h => ?_⟩
  · have hprogram := h "handlebars" ("# \x60\ndescribe \"d\"\n  it \"t\"\n"
      ++ "    when executing pipeline p\n    and mock x returning \x60abc\n").toList "\x60".toList
      (Or.inr (by decide +kernel)) (by decide) (List.isEmpty_iff.1 (by decide +kernel))
    have hconditions := congrArg (fun p : Program =>
      (p.suites.flatMap (·.value.tests)).flatMap (·.conditions)) hprogram
    revert hconditions
    decide +kernel
  · have hreferences := h "handlebars" [] " |> pipeline: x".toList (Or.inl rfl) (by decide)
      (List.isEmpty_iff.1 (by decide +kernel))
    have hpipelines := congrArg (fun t : ReferenceTable => t.pipelines.entries) hreferences
    revert hpipelines
    decide +kernel
  · have hdiagnostics := h "handlebars" [] "\x60".toList (Or.inl rfl) (by decide)
      (List.isEmpty_iff.1 (by decide +kernel))
    revert hdiagnostics
    decide +kernel

end PipelineLang
