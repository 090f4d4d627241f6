import PipelineLang.Index.Analysis
import PipelineLang.Proofs.Grammar.Placement
import PipelineLang.Proofs.Grammar.Recording
import PipelineLang.Proofs.Key
import PipelineLang.Proofs.Reference.Names
import PipelineLang.Proofs.Table

/-!
# What is declared

The declared names of a document are kept three times: in the lists of its program, in the tables of
sites that are filled while it is read, and in the sets of names and the tables of places of its
symbol table. All of them say the same (`declarations_agree`).
-/

namespace PipelineLang

open Grammar

/-! ## Declarations of a program -/

namespace Program

/-- Whether the program declares the symbol. -/
def Declares (p : Program) : SymbolKey → Prop
  | .pipeline name => ∃ v ∈ p.pipelines, v.value.name = name
  | .typed kind name => ∃ v ∈ p.typedVariables, v.value.kind = kind ∧ v.value.name = name

/-- The pipelines of the name, in order. -/
def pipelinesOf (p : Program) (name : String) : List (Spanned NamedPipeline) :=
  p.pipelines.filter (·.value.name == name)

/-- The variables of the type and name, in order. -/
def variablesOf (p : Program) (kind name : String) : List (Spanned Variable) :=
  p.typedVariables.filter fun v => v.value.kind == kind && v.value.name == name

/-- The name in each declaration of the symbol, in order. -/
def nameSpansOf (p : Program) : SymbolKey → List Span
  | .pipeline name => (p.pipelinesOf name).map (·.value.nameSpan)
  | .typed kind name => (p.variablesOf kind name).map (·.value.nameSpan)

theorem nameSpansOf_ne_nil {p : Program} {k : SymbolKey} : p.nameSpansOf k ≠ [] ↔ p.Declares k := by
  cases k with
  | pipeline name => simp [nameSpansOf, pipelinesOf, Declares]
  | typed kind name => simp [nameSpansOf, variablesOf, Declares]

end Program

/-! ## Sites -/

/-- The site of a declared pipeline. -/
def NamedPipeline.site (v : Spanned NamedPipeline) : Site := ⟨v.span, v.value.nameSpan⟩

/-- The site of a declared variable. -/
def Variable.site (v : Spanned Variable) : Site := ⟨v.span, v.value.nameSpan⟩

theorem pipelineSites_eq (text : List Char) :
    (parse text).pipelineSites = .ofList ((parse text).program.pipelines.map fun v =>
      (v.value.name, NamedPipeline.site v)) := by
  rw [show (parse text).program.pipelines = (items text).filterMap Item.asPipeline? from rfl,
    List.map_filterMap]
  rfl

theorem variableSites_eq (text : List Char) :
    (parse text).variableSites = .ofList ((parse text).program.typedVariables.map fun v =>
      (SymbolKey.joinVariable v.value.kind v.value.name, Variable.site v)) := by
  rw [show (parse text).program.typedVariables = (items text).filterMap Item.asVariable? from rfl,
    List.map_filterMap]
  rfl

/-- The table of sites has the last pipeline of each name. -/
theorem find?_pipelineSites (text : List Char) (name : String) :
    (parse text).pipelineSites.find? name
      = (((parse text).program.pipelinesOf name).map NamedPipeline.site).getLast? := by
  rw [pipelineSites_eq, Table.find?_ofList_map]
  rfl

theorem IsIdentifier.not_colon {name : String} (h : IsIdentifier name) : ':' ∉ name.toList := by
  intro hmem
  have := h.2 ':' hmem
  revert this
  decide

/-- The type and the name of a declared variable are identifiers. -/
theorem isIdentifier_of_mem_typedVariables {text : List Char} {v : Spanned Variable}
    (h : v ∈ (parse text).program.typedVariables) :
    IsIdentifier v.value.kind ∧ IsIdentifier v.value.name := by
  obtain ⟨c, d, -, hread, -⟩ := mem_typedVariables h
  obtain ⟨kind, next, name, equals, value, hkind, hname, -, hv⟩ := typedVariable_spec hread
  obtain ⟨a, b, -, -, -, -, hidentifier⟩ := declaredName_spec hname
  obtain ⟨-, -, hkind, -⟩ := Cursor.identifier_spec hkind
  rw [hv]
  exact ⟨hkind, hidentifier⟩

/-- Of all types and names, only those of a declared variable are its key when written with two
colons. -/
theorem joinVariable_eq_iff {text : List Char} {v : Spanned Variable}
    (h : v ∈ (parse text).program.typedVariables) (kind name : String) :
    SymbolKey.joinVariable v.value.kind v.value.name = SymbolKey.joinVariable kind name ↔
      v.value.kind = kind ∧ v.value.name = name := by
  obtain ⟨hkind, hname⟩ := isIdentifier_of_mem_typedVariables h
  constructor
  · intro heq
    obtain ⟨hk, hn⟩ := SymbolKey.joinVariable_inj hkind.not_colon hname.not_colon heq.symm
    exact ⟨hk.symm, hn.symm⟩
  · rintro ⟨rfl, rfl⟩
    rfl

theorem find?_variableSites (text : List Char) (key : String) :
    (parse text).variableSites.find? key = (((parse text).program.typedVariables.filter fun v =>
      SymbolKey.joinVariable v.value.kind v.value.name == key).map Variable.site).getLast? := by
  rw [variableSites_eq, Table.find?_ofList_map]

theorem find?_variableSites_joinVariable (text : List Char) (kind name : String) :
    (parse text).variableSites.find? (SymbolKey.joinVariable kind name)
      = (((parse text).program.variablesOf kind name).map Variable.site).getLast? := by
  rw [find?_variableSites, Program.variablesOf]
  congr 2
  refine List.filter_congr fun v hv => ?_
  have := joinVariable_eq_iff hv kind name
  rw [Bool.eq_iff_iff]
  simpa using this

/-! ## Symbol tables -/

theorem NameSet.contains_ofNames (names : List String) (name : String) :
    (NameSet.ofNames names).contains name = true ↔ name ∈ names := by
  rw [NameSet.ofNames, Table.contains, Table.find?_ofList_map (fun n => n)]
  simp

/-- The names of a type are those of the variables of the type. -/
theorem contains_namesByType (vs : List Variable) (kind name : String) :
    (((SymbolTable.namesByType vs).find? kind).getD .empty).contains name = true ↔
      ∃ v ∈ vs, v.kind = kind ∧ v.name = name := by
  have hfold (t : Table NameSet) :
      (((vs.foldl (fun t v =>
          t.insert v.kind (((t.find? v.kind).getD .empty).insert v.name ())) t).find? kind).getD
        .empty).contains name = true ↔
      ((t.find? kind).getD .empty).contains name = true ∨
        ∃ v ∈ vs, v.kind = kind ∧ v.name = name := by
    induction vs generalizing t with
    | nil => simp
    | cons v vs ih =>
      rw [List.foldl_cons, ih, Table.find?_insert]
      by_cases hkind : v.kind = kind
      · subst hkind
        by_cases hname : v.name = name
        · simp [Table.contains, Table.find?_insert, hname]
        · simp [Table.contains, Table.find?_insert, hname]
      · simp [hkind]
  rw [SymbolTable.namesByType, hfold]
  simp [Table.find?_empty, Table.contains]

/-- A symbol is in the sets of names if the program declares it. -/
theorem isDeclared_iff (engine : String) (text : List Char) (k : SymbolKey) :
    (analyze engine text).symbols.isDeclared k = true ↔ (parse text).program.Declares k := by
  cases k with
  | pipeline name =>
    refine (NameSet.contains_ofNames _ name).trans ?_
    simp only [List.mem_map, Program.Declares]
  | typed kind name =>
    refine (contains_namesByType _ kind name).trans ?_
    constructor
    · rintro ⟨v, hv, hkind, hname⟩
      obtain ⟨w, hw, rfl⟩ := List.mem_map.1 hv
      exact ⟨w, hw, hkind, hname⟩
    · rintro ⟨w, hw, hkind, hname⟩
      exact ⟨w.value, List.mem_map_of_mem hw, hkind, hname⟩

/-- The place of a symbol is the name in the last of its declarations. -/
theorem declarationOf_eq (engine : String) (text : List Char) (k : SymbolKey) :
    (analyze engine text).symbols.declarationOf k
      = ((parse text).program.nameSpansOf k).getLast? := by
  cases k with
  | pipeline name =>
    change ((parse text).pipelineSites.map (·.nameSpan)).find? name = _
    rw [Table.find?_map, find?_pipelineSites, ← List.getLast?_map, List.map_map]
    rfl
  | typed kind name =>
    change ((parse text).variableSites.map (·.nameSpan)).find? _ = _
    rw [Table.find?_map, find?_variableSites_joinVariable, ← List.getLast?_map, List.map_map]
    rfl

/-- A declared name stands in the document as a whole identifier. -/
theorem identifierAt_of_mem_nameSpansOf {text : List Char} {k : SymbolKey} {s : Span}
    (h : s ∈ (parse text).program.nameSpansOf k) : IdentifierAt (Cursor.start 0 text) k.name s := by
  cases k with
  | pipeline name =>
    obtain ⟨v, hv, rfl⟩ := List.mem_map.1 h
    obtain ⟨hv, hname⟩ := List.mem_filter.1 hv
    obtain ⟨c, rs, d, hc, hread, -⟩ := mem_pipelines hv
    obtain ⟨word, n, equals, hword, hn, hvname, hspan, -⟩ := namedPipeline_spec hread
    rw [hspan, SymbolKey.name, ← beq_iff_eq.1 hname, hvname]
    exact (declaredName_identifierAt hn).of_le (hc.trans hword.le)
  | typed kind name =>
    obtain ⟨v, hv, rfl⟩ := List.mem_map.1 h
    obtain ⟨hv, hname⟩ := List.mem_filter.1 hv
    rw [Bool.and_eq_true, beq_iff_eq, beq_iff_eq] at hname
    obtain ⟨c, d, hc, hread, -⟩ := mem_typedVariables hv
    obtain ⟨kindName, next, n, equals, value, hk, hn, -, hvalue⟩ := typedVariable_spec hread
    rw [hvalue] at hname ⊢
    rw [SymbolKey.name, ← hname.2]
    exact (declaredName_identifierAt hn).of_le (hc.trans (Cursor.identifier_lt hk).le)

/-- **Tables, sets of names and program agree.** For every document, a table of sites has a name if
the program has a declaration of it, and then the site of the last one. A type and a name find the
last variable of both, also where they hold colons themselves. The tables are those that recording
fills, whatever attempts fail on the way. For every symbol, that it is declared, that it has a place
and that the program declares it are the same, and its place is that of the name in its last
declaration, with its name standing there. -/
theorem declarations_agree (engine : String) (text : List Char) :
    (∀ name, ((parse text).pipelineSites.contains name = true ↔
        ∃ v ∈ (parse text).program.pipelines, v.value.name = name) ∧
      (parse text).pipelineSites.find? name
        = (((parse text).program.pipelinesOf name).map NamedPipeline.site).getLast?) ∧
    (∀ key, (parse text).variableSites.contains key = true ↔
        ∃ v ∈ (parse text).program.typedVariables,
          SymbolKey.joinVariable v.value.kind v.value.name = key) ∧
    (∀ kind name, (parse text).variableSites.find? (SymbolKey.joinVariable kind name)
        = (((parse text).program.variablesOf kind name).map Variable.site).getLast?) ∧
    record text = (items text, ⟨(parse text).pipelineSites, (parse text).variableSites⟩) ∧
    ∀ k : SymbolKey,
      ((analyze engine text).symbols.isDeclared k = true ↔ (parse text).program.Declares k) ∧
      (((analyze engine text).symbols.declarationOf k).isSome = true ↔
        (parse text).program.Declares k) ∧
      (analyze engine text).symbols.declarationOf k
        = ((parse text).program.nameSpansOf k).getLast? ∧
      ∀ s ∈ (analyze engine text).symbols.declarationOf k, s.Spells text k.name.toList := by
  refine ⟨fun name => ⟨?_, find?_pipelineSites text name⟩, fun key => ?_,
    find?_variableSites_joinVariable text, record_eq text, fun k => ?_⟩
  · rw [Table.contains, find?_pipelineSites]
    simp [Program.pipelinesOf]
  · rw [Table.contains, find?_variableSites]
    simp
  · have hplace := declarationOf_eq engine text k
    refine ⟨isDeclared_iff engine text k, ?_, hplace, fun s hs => ?_⟩
    · rw [hplace, List.getLast?_isSome, Program.nameSpansOf_ne_nil]
    · rw [hplace] at hs
      exact (identifierAt_of_mem_nameSpansOf (List.mem_of_getLast? hs)).spells

end PipelineLang
