import PipelineLang.Check.Report
import PipelineLang.Proofs.Index.Faults
import PipelineLang.Proofs.Reference.Names
import PipelineLang.Proofs.Source.LineColumn
import PipelineLang.Proofs.Template.Names

/-!
# A check reports what the analyses find

What an entry has to say of a diagnostic is stated field by field (`EntryDescribes`). Every
diagnostic has a span of its text (`diagnostics_fit`) and is an error or a warning
(`severity_cases`). So the entry that is printed for it says just that (`entryDescribes_entry`) and
tells a first place that is not behind the last one (`LineColumn.ofOffset_le`), the tallies of errors
and warnings add up to the number of entries, and the exit code is that of `hasErrors`
(`check_reports`). A file that cannot be read ends the check before anything is written.
-/

namespace PipelineLang

open Utf8

/-! ## Lines and columns -/

namespace Utf8

/-- More of a text covers a larger offset. -/
theorem splitCeil_prefix {m n : Nat} (h : m ≤ n) (cs : List Char) :
    (splitCeil m cs).1 <+: (splitCeil n cs).1 := by
  induction cs generalizing m n with
  | nil => cases m <;> cases n <;> exact List.nil_prefix
  | cons c cs ih =>
    cases m with
    | zero => exact List.nil_prefix
    | succ m =>
      cases n with
      | zero => omega
      | succ n => exact List.cons_prefix_cons.2 ⟨rfl, ih (by omega)⟩

end Utf8

namespace LineColumn

/-- The order of places in a document. -/
def le (a b : LineColumn) : Prop := a.line < b.line ∨ a.line = b.line ∧ a.column ≤ b.column

/-- A larger offset is not at an earlier place. -/
theorem ofOffset_le {m n : Nat} (h : m ≤ n) (text : List Char) :
    (ofOffset text m).le (ofOffset text n) := by
  obtain ⟨run, hrun⟩ := splitCeil_prefix h text
  simp only [ofOffset, ← hrun, LineColumn.le]
  rcases Lines.count_lt_or_last_append (splitCeil m text).1 run with hline | ⟨hline, hlast⟩
  · exact Or.inl (Nat.add_lt_add_right hline 1)
  · rw [hlast, List.length_append]
    exact Or.inr ⟨congrArg (· + 1) hline, by omega⟩

end LineColumn

/-! ## Diagnostics -/

open Grammar in
/-- The spans of all faults of references fit the document. -/
theorem faults_fit (engine : String) (text : List Char) :
    ∀ f ∈ Faults.all engine text, f.2.Fits text := by
  have hscan {r : Reference} (h : r ∈ Reference.scan text) : r.span.Fits text :=
    (Reference.identifierAt_of_mem (Reference.mem_scan.1 h)).spells.toFits
  have hprogram := program_faithful text
  simp only [Faults.all, List.mem_append, List.mem_map]
  rintro f ((((⟨s, hs, rfl⟩ | ⟨s, hs, rfl⟩) | ⟨s, hs, rfl⟩) | ⟨s, hs, rfl⟩) | ⟨s, hs, rfl⟩)
  · obtain ⟨r, hr, rfl⟩ := List.mem_map.1 hs
    exact hscan (List.mem_filter.1 hr).1
  · obtain ⟨r, hr, rfl⟩ := List.mem_map.1 hs
    exact hscan (List.mem_filter.1 hr).1
  · obtain ⟨region, hregion, hs⟩ := List.mem_flatMap.1 hs
    obtain ⟨u, hu, rfl⟩ := List.mem_map.1 hs
    have hregion := (Template.regionsOf_perm engine text).mem_iff.2 hregion
    exact (Template.usagesIn_spells (Template.regionsOf_fit engine text region hregion)
      (List.mem_filter.1 hu).1).toFits
  · obtain ⟨v, hv, rfl⟩ := List.mem_map.1 hs
    exact (hprogram.pipelines v ((repeats_sublist _ _).subset hv)).2.1.toFits
  · obtain ⟨v, hv, rfl⟩ := List.mem_map.1 hs
    exact (hprogram.typedVariables v ((repeats_sublist _ _).subset hv)).2.1.toFits

theorem diagnostics_fit (engine : String) (text : List Char) :
    ∀ d ∈ (analyze engine text).diagnostics, d.span.Fits text := by
  intro d hd
  rcases List.mem_append.1 hd with hd | hd
  · obtain ⟨r, hr, rfl⟩ := List.mem_map.1 hd
    exact Grammar.reports_fit text r hr
  · obtain ⟨r, hr, rfl⟩ := List.mem_map.1 hd
    exact faults_fit engine text _ ((perm_faults engine text).mem_iff.1 (List.mem_map_of_mem hr))

/-- No diagnostic is merely a piece of information. -/
theorem severity_cases (a : Analysis) :
    ∀ d ∈ a.diagnostics, d.severity = .error ∨ d.severity = .warning := by
  intro d hd
  rcases List.mem_append.1 hd with hd | hd
  · obtain ⟨⟨fault, span⟩, -, rfl⟩ := List.mem_map.1 hd
    cases fault <;> simp [SyntaxReport.diagnostic, SyntaxFault.severity]
  · obtain ⟨⟨fault, span⟩, -, rfl⟩ := List.mem_map.1 hd
    cases fault <;> simp [ReferenceReport.diagnostic, ReferenceFault.severity]

namespace Check

variable {engine : String} {read : String → Except ReadFault (List Char)}

/-! ## Reading files -/

theorem ofFiles_eq_ok {files : List String} {textOf : String → List Char}
    (h : ∀ file ∈ files, read file = .ok (textOf file)) :
    FileReport.ofFiles engine read files
      = .ok (files.map fun file => .ofText engine file (textOf file)) := by
  induction files with
  | nil => rfl
  | cons file files ih =>
    have hrest := ih fun f hf => h f (List.mem_cons_of_mem file hf)
    simp only [FileReport.ofFiles, h file List.mem_cons_self, hrest]
    rfl

theorem ofFiles_eq_error {files : List String}
    (h : ∃ file ∈ files, ∃ fault, read file = .error fault) :
    ∃ failure, FileReport.ofFiles engine read files = .error failure ∧ failure.file ∈ files ∧
      read failure.file = .error failure.fault := by
  induction files with
  | nil => simp at h
  | cons file files ih =>
    cases hread : read file with
    | error fault => exact ⟨⟨file, fault⟩, by simp only [FileReport.ofFiles, hread],
        List.mem_cons_self, hread⟩
    | ok text =>
      have hrest : ∃ f ∈ files, ∃ fault, read f = .error fault := by
        obtain ⟨f, hf, fault, hfault⟩ := h
        rcases List.mem_cons.1 hf with rfl | hf
        · rw [hread] at hfault
          cases hfault
        · exact ⟨f, hf, fault, hfault⟩
      obtain ⟨failure, hfailure, hmem, hfault⟩ := ih hrest
      refine ⟨failure, ?_, List.mem_cons_of_mem file hmem, hfault⟩
      simp only [FileReport.ofFiles, hread, hfailure]
      rfl

/-! ## What is listed -/

/-- The diagnostics of a file: what is wrong with reading it, then what is wrong with its
references, each as its fault says and at its place. -/
def diagnosticsOf (engine : String) (text : List Char) : List Diagnostic :=
  (Grammar.parse text).reports.map (fun r =>
    ⟨r.fault.code, r.fault.severity, r.span, r.fault.message⟩) ++
  (analyze engine text).referenceReports.map fun r =>
    ⟨r.fault.code, r.fault.severity, r.span, r.fault.message⟩

/-- The diagnostics of the files, one file after another, each with the file it is about. -/
def listed (engine : String) (textOf : String → List Char) (files : List String) :
    List (String × Diagnostic) :=
  files.flatMap fun file => (diagnosticsOf engine (textOf file)).map (file, ·)

/-- The first and the last place that an entry tells. -/
structure EntryTells (first last : LineColumn) (entry : JsonValue) : Prop where
  line : entry.field? "line" = some (.int first.line)
  column : entry.field? "column" = some (.int first.column)
  endLine : entry.field? "end_line" = some (.int last.line)
  endColumn : entry.field? "end_column" = some (.int last.column)

/-- The entry says of a diagnostic of a file what there is to say, and nothing else. The places it
tells are those of the two ends of the span: what counting off the characters before them comes
to. -/
structure EntryDescribes (file : String) (text : List Char) (d : Diagnostic) (entry : JsonValue) :
    Prop where
  names : ∃ fields, entry = .obj fields ∧ fields.map (·.1) =
    ["file", "line", "column", "end_line", "end_column", "severity", "code", "message"]
  file : entry.field? "file" = some (.str file)
  severity : d.severity = .error ∧ entry.field? "severity" = some (.str "error") ∨
    d.severity = .warning ∧ entry.field? "severity" = some (.str "warning")
  code : entry.field? "code" = some (.str d.code)
  message : entry.field? "message" = some (.str d.message)
  places : EntryTells (.ofOffset text d.span.start) (.ofOffset text d.span.stop) entry
  counted : ∃ front run back, text = front ++ run ++ back ∧
    d.span = ⟨byteLength front, byteLength (front ++ run)⟩ ∧
    EntryTells (front.foldl LineColumn.past ⟨1, 1⟩) ((front ++ run).foldl LineColumn.past ⟨1, 1⟩)
      entry

/-- The entry tells a first and a last place, counted from one and not in reverse. -/
def EntryPlaced (entry : JsonValue) : Prop :=
  ∃ first last, EntryTells first last entry ∧
    1 ≤ first.line ∧ 1 ≤ first.column ∧ 1 ≤ last.line ∧ 1 ≤ last.column ∧ first.le last

/-- Whether an entry is about a diagnostic whose severity has the name. -/
def entryHasSeverity (name : String) (entry : JsonValue) : Bool :=
  match entry.field? "severity" with
  | some (.str severity) => severity == name
  | _ => false

/-! ## Entries -/

section
variable {file : String} {text : List Char} {d : Diagnostic}

theorem entryTells_entry (r : FileReport) (d : Diagnostic) :
    EntryTells (.ofOffset r.text d.span.start) (.ofOffset r.text d.span.stop) (r.entry d) := by
  constructor <;> simp [FileReport.entry, JsonValue.field?, JsonValue.nat]

theorem entryDescribes_entry (h : d ∈ diagnosticsOf engine text) :
    EntryDescribes file text d ((FileReport.ofText engine file text).entry d) where
  names := ⟨_, rfl, rfl⟩
  file := by simp [FileReport.entry, FileReport.ofText, JsonValue.field?]
  severity := by
    rcases severity_cases (analyze engine text) d h with hseverity | hseverity
    · exact Or.inl ⟨hseverity, by simp [FileReport.entry, JsonValue.field?, hseverity,
        Severity.render]⟩
    · exact Or.inr ⟨hseverity, by simp [FileReport.entry, JsonValue.field?, hseverity,
        Severity.render]⟩
  code := by simp [FileReport.entry, JsonValue.field?]
  message := by simp [FileReport.entry, JsonValue.field?]
  places := entryTells_entry (.ofText engine file text) d
  counted := by
    obtain ⟨front, run, back, htext, hspan⟩ := (diagnostics_fit engine text d h).exists_run
    have hfirst : LineColumn.ofOffset text d.span.start = front.foldl LineColumn.past ⟨1, 1⟩ := by
      rw [hspan, htext, List.append_assoc, LineColumn.ofOffset_front]
    have hlast : LineColumn.ofOffset text d.span.stop
        = (front ++ run).foldl LineColumn.past ⟨1, 1⟩ := by
      rw [hspan, htext, LineColumn.ofOffset_front]
    refine ⟨front, run, back, htext, hspan, ?_⟩
    rw [← hfirst, ← hlast]
    exact entryTells_entry (.ofText engine file text) d

theorem entryPlaced_entry (h : d ∈ diagnosticsOf engine text) :
    EntryPlaced ((FileReport.ofText engine file text).entry d) := by
  refine ⟨_, _, entryTells_entry (.ofText engine file text) d, Nat.succ_pos _, Nat.succ_pos _,
    Nat.succ_pos _, Nat.succ_pos _, LineColumn.ofOffset_le ?_ text⟩
  exact (diagnostics_fit engine text d h).start_le_stop

theorem entryHasSeverity_entry (severity : Severity) (r : FileReport) (d : Diagnostic) :
    entryHasSeverity severity.render (r.entry d) = (d.severity == severity) := by
  have hfield : (r.entry d).field? "severity" = some (.str d.severity.render) := by
    simp [FileReport.entry, JsonValue.field?]
  rw [entryHasSeverity, hfield]
  cases d.severity <;> cases severity <;> decide

end

/-! ## All entries -/

section
variable (engine : String) (textOf : String → List Char) (files : List String)

/-- The reports of the files, in the order of the command line. -/
def reportsOf : List FileReport := files.map fun file => .ofText engine file (textOf file)

/-- The entries of the files. -/
def entriesOf : List JsonValue :=
  (listed engine textOf files).map fun (file, d) =>
    (FileReport.ofText engine file (textOf file)).entry d

theorem flatMap_entries :
    (reportsOf engine textOf files).flatMap (fun r => r.diagnostics.map r.entry)
      = entriesOf engine textOf files := by
  simp only [reportsOf, entriesOf, listed, List.flatMap_map, List.map_flatMap, List.map_map]
  rfl

theorem flatMap_diagnostics : (reportsOf engine textOf files).flatMap (·.diagnostics)
    = (listed engine textOf files).map (·.2) := by
  simp only [reportsOf, listed, List.flatMap_map, List.map_flatMap, List.map_map,
    Function.comp_def, List.map_id']
  rfl

variable {engine textOf files}

theorem mem_listed {e : String × Diagnostic} (h : e ∈ listed engine textOf files) :
    e.2 ∈ diagnosticsOf engine (textOf e.1) := by
  obtain ⟨file, -, he⟩ := List.mem_flatMap.1 h
  obtain ⟨d, hd, rfl⟩ := List.mem_map.1 he
  exact hd

/-- Each diagnostic has its entry, in the same order. -/
theorem forall₂_entriesOf : List.Forall₂ (fun e entry => EntryDescribes e.1 (textOf e.1) e.2 entry)
    (listed engine textOf files) (entriesOf engine textOf files) := by
  rw [entriesOf, List.forall₂_map_right_iff, List.forall₂_same]
  exact fun e he => entryDescribes_entry (mem_listed he)

theorem entryPlaced_of_mem {entry : JsonValue} (h : entry ∈ entriesOf engine textOf files) :
    EntryPlaced entry := by
  obtain ⟨e, he, rfl⟩ := List.mem_map.1 h
  exact entryPlaced_entry (mem_listed he)

/-- The diagnostics of a severity are as many as the entries with its name. -/
theorem countP_diagnostics (severity : Severity) (name : String) (h : severity.render = name) :
    ((reportsOf engine textOf files).flatMap (·.diagnostics)).countP (·.severity == severity)
      = (entriesOf engine textOf files).countP (entryHasSeverity name) := by
  rw [flatMap_diagnostics, entriesOf, List.countP_map, List.countP_map]
  refine List.countP_congr fun e _ => ?_
  rw [Function.comp_apply, Function.comp_apply, ← h, entryHasSeverity_entry]

/-- Errors and warnings are all that there is. -/
theorem countP_errors_add_warnings :
    (entriesOf engine textOf files).countP (entryHasSeverity "error") +
      (entriesOf engine textOf files).countP (entryHasSeverity "warning")
      = (entriesOf engine textOf files).length := by
  rw [← countP_diagnostics .error "error" rfl, ← countP_diagnostics .warning "warning" rfl,
    flatMap_diagnostics, entriesOf, List.length_map, List.countP_map, List.countP_map,
    List.length_eq_countP_add_countP (·.2.severity == .error)]
  congr 1
  refine List.countP_congr fun e he => ?_
  rcases severity_cases (analyze engine (textOf e.1)) e.2 (mem_listed he) with heq | heq
  · simp [heq]
  · simp [heq]

end

/-! ## Checks -/

theorem exitCode_eq_one_iff (options : Options) (reports : List FileReport) :
    (Outcome.ofReports options reports).exitCode = 1 ↔
      ∃ r ∈ reports, r.diagnostics.any (·.severity == .error) = true := by
  have herrors : (Tally.ofReports reports).errors = 0 ↔
      ¬ ∃ r ∈ reports, r.diagnostics.any (·.severity == .error) = true := by
    simp only [Tally.ofReports, List.countP_eq_zero, List.mem_flatMap, List.any_eq_true]
    grind
  simp only [Outcome.ofReports]
  split
  · next h => exact iff_of_false nofun (herrors.1 h)
  · next h => exact iff_of_true rfl (not_not.1 fun hnone => h (herrors.2 hnone))

/-- **A check reports what the analyses find.** If a file cannot be read, the check fails with such
a file and writes nothing. Otherwise it exits with 1 if the analysis of some file has errors, and
with 0 if none has. As JSON it lists the diagnostics file by file in the order of the command line,
those of reading a file before those on its references; each entry says what its diagnostic is, of
which file, and the lines and columns of both ends of its span, and no entry ends before it starts.
Beside the list stand the number of files and the numbers of listed errors and warnings, which add
up to the length of the list. -/
theorem check_reports (options : Options) (read : String → Except ReadFault (List Char)) :
    ((∃ file ∈ options.files, ∃ fault, read file = .error fault) →
      (∃ failure, check options read = .error failure ∧ failure.file ∈ options.files ∧
        read failure.file = .error failure.fault) ∧
      written (check options read) = .nothing) ∧
    ∀ textOf : String → List Char, (∀ file ∈ options.files, read file = .ok (textOf file)) →
      ∃ outcome, check options read = .ok outcome ∧
        (outcome.exitCode = 0 ∨ outcome.exitCode = 1) ∧
        (outcome.exitCode = 1 ↔ ∃ file ∈ options.files,
          (analyze (options.engine.getD defaultEngine) (textOf file)).hasErrors = true) ∧
        (options.format = .json → ∃ entries,
          written (check options read) = .json (.obj [("diagnostics", .arr entries),
            ("file_count", .int options.files.length),
            ("error_count", .int (entries.countP (entryHasSeverity "error"))),
            ("warning_count", .int (entries.countP (entryHasSeverity "warning")))]) ∧
          List.Forall₂ (fun e entry => EntryDescribes e.1 (textOf e.1) e.2 entry)
            (listed (options.engine.getD defaultEngine) textOf options.files) entries ∧
          entries.countP (entryHasSeverity "error") + entries.countP (entryHasSeverity "warning")
            = entries.length ∧
          ∀ entry ∈ entries, EntryPlaced entry) := by
  constructor
  · intro h
    obtain ⟨failure, hfailure, hmem, hfault⟩ : ∃ failure,
        FileReport.ofFiles (options.engine.getD defaultEngine) read options.files
          = .error failure ∧ _ := ofFiles_eq_error h
    have hcheck : check options read = .error failure := by
      rw [check, hfailure]
      rfl
    exact ⟨⟨failure, hcheck, hmem, hfault⟩, by rw [hcheck, written]⟩
  · intro textOf hread
    generalize hengine : options.engine.getD defaultEngine = engine
    have hcheck : check options read
        = .ok (.ofReports options (reportsOf engine textOf options.files)) := by
      rw [check, hengine, ofFiles_eq_ok hread]
      rfl
    refine ⟨_, hcheck, ?_, ?_, fun hjson => ?_⟩
    · unfold Outcome.ofReports
      split <;> simp
    · rw [exitCode_eq_one_iff]
      simp [reportsOf, FileReport.ofText, Analysis.hasErrors]
    · refine ⟨entriesOf engine textOf options.files, ?_, forall₂_entriesOf,
        countP_errors_add_warnings, fun entry => entryPlaced_of_mem⟩
      rw [hcheck, written, ← countP_diagnostics .error "error" rfl,
        ← countP_diagnostics .warning "warning" rfl, ← flatMap_entries]
      simp only [Outcome.ofReports, hjson, Outcome.document, reportsOf, List.length_map]
      rfl

/-- Two files, of which the second one refers to a pipeline that there is not, and no others. -/
def twoFiles (file : String) : Except ReadFault (List Char) :=
  if file = "a.wp" then .ok "é %\n".toList
  else if file = "b.wp" then .ok "%\nGET /é\n  |> pipeline: x\n".toList
  else .error .notFound

/-- The text of a file that can be read. -/
def textOfTwo (file : String) : List Char := (twoFiles file).toOption.getD []

/-- As JSON both warnings are listed, and the error last; with a third file nothing is written. -/
theorem check_reports_twoFiles :
    (∃ outcome first second third,
      check ⟨["a.wp", "b.wp"], false, false, .json, none⟩ twoFiles = .ok outcome ∧
      outcome.exitCode = 1 ∧
      outcome.output = .json (.obj [("diagnostics", .arr [first, second, third]),
        ("file_count", .int 2), ("error_count", .int 1), ("warning_count", .int 2)]) ∧
      EntryTells ⟨1, 1⟩ ⟨1, 4⟩ first ∧ second.field? "file" = some (.str "b.wp") ∧
      EntryTells ⟨3, 16⟩ ⟨3, 17⟩ third ∧ third.field? "code" = some (.str "W1001")) ∧
    written (check ⟨["a.wp", "c.wp"], false, false, .json, none⟩ twoFiles) = .nothing := by
  constructor
  · obtain ⟨outcome, hcheck, -, hexit, hjson⟩ :=
      (check_reports ⟨["a.wp", "b.wp"], false, false, .json, none⟩ twoFiles).2 textOfTwo
        (by decide +kernel)
    obtain ⟨entries, hwritten, hentries, -, -⟩ := hjson rfl
    have hlisted : listed "handlebars" textOfTwo ["a.wp", "b.wp"]
        = [("a.wp", ⟨"P0001", .warning, ⟨0, 4⟩, "unrecognized syntax: é %"⟩),
          ("b.wp", ⟨"P0001", .warning, ⟨0, 1⟩, "unrecognized syntax: %"⟩),
          ("b.wp", ⟨"W1001", .error, ⟨25, 26⟩, "Unknown pipeline 'x'"⟩)] := by decide +kernel
    simp only [Option.getD_none, defaultEngine, hlisted, List.forall₂_cons_left_iff,
      List.forall₂_nil_left_iff] at hentries
    obtain ⟨first, _, hfirst, ⟨second, _, hsecond, ⟨third, _, hthird, rfl, rfl⟩, rfl⟩, rfl⟩ := hentries
    have h1 := hfirst.severity
    have h2 := hsecond.severity
    have h3 := hthird.severity
    simp only [reduceCtorEq, false_and, false_or, or_false, true_and] at h1 h2 h3
    have herrors : [first, second, third].countP (entryHasSeverity "error") = 1 := by
      simp [entryHasSeverity, h1, h2, h3]
    have hwarnings : [first, second, third].countP (entryHasSeverity "warning") = 2 := by
      simp [entryHasSeverity, h1, h2, h3]
    rw [hcheck, written, herrors, hwarnings] at hwritten
    exact ⟨outcome, first, second, third, hcheck,
      hexit.2 ⟨"b.wp", by decide, by decide +kernel⟩, hwritten, hfirst.places, hsecond.file,
      hthird.places, hthird.code⟩
  · exact ((check_reports _ twoFiles).1 ⟨"c.wp", by decide, .notFound, rfl⟩).2

end Check
end PipelineLang
