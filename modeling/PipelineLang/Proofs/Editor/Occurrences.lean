import PipelineLang.Editor.Navigation
import PipelineLang.Proofs.Index.Context
import PipelineLang.Proofs.Template.Names

/-!
# Occurrences as places to edit

The occurrences of a symbol are brought together from its last declaration, the references that were
scanned and the uses of partials. Each of them is a place where the name is written
(`NamePlace.spells`), and places of one name are the same or share no character
(`NamePlace.sameOrApart`). So sorting them and leaving out the repeated ones gives places one behind
the other, with the declaration marked once (`occurrences_apart`), and the edits of a renaming do not
overlap.
-/

namespace PipelineLang

open Cursor Grammar Reference Template

/-- The name of what a context is about. -/
def Context.name : Context → String
  | .symbol key _ => key.name
  | .template name _ _ => name

namespace Editor

/-! ## Sorting and sifting -/

namespace Occurrence

variable {a b : Occurrence} {os : List Occurrence}

theorem le_trans (a b c : Occurrence) (hab : a.le b = true) (hbc : b.le c = true) :
    a.le c = true := by
  simp only [le, Bool.or_eq_true, Bool.and_eq_true, decide_eq_true_eq, beq_iff_eq,
    Bool.not_eq_true'] at hab hbc ⊢
  grind

theorem le_total (a b : Occurrence) : (a.le b || b.le a) = true := by
  simp only [le, Bool.or_eq_true, Bool.and_eq_true, decide_eq_true_eq, beq_iff_eq,
    Bool.not_eq_true']
  grind

theorem dedup_sublist (os : List Occurrence) : (dedup os).Sublist os := by
  induction os with
  | nil => exact .slnil
  | cons a os ih =>
    rw [dedup]
    split
    · exact List.singleton_sublist.2 List.mem_cons_self
    · next b bs heq =>
      rw [heq] at ih
      split
      · exact (List.sublist_of_cons_sublist ih).cons_cons a
      · exact ih.cons_cons a

/-- Sifting loses no place. -/
theorem exists_mem_dedup {o : Occurrence} (h : o ∈ os) : ∃ o' ∈ dedup os, o'.span = o.span := by
  induction os with
  | nil => cases h
  | cons a os ih =>
    have hrest (ho : o ∈ os) : ∃ o' ∈ dedup os, o'.span = o.span := ih ho
    rw [dedup]
    split
    · next heq =>
      rcases List.mem_cons.1 h with rfl | ho
      · exact ⟨o, List.mem_cons_self, rfl⟩
      · obtain ⟨o', ho', -⟩ := hrest ho
        rw [heq] at ho'
        cases ho'
    · next b bs heq =>
      rw [heq] at hrest
      split
      · next hspan =>
        rcases List.mem_cons.1 h with rfl | ho
        · exact ⟨o, List.mem_cons_self, rfl⟩
        · obtain ⟨o', ho', hspan'⟩ := hrest ho
          rcases List.mem_cons.1 ho' with rfl | ho'
          · exact ⟨a, List.mem_cons_self, hspan.trans hspan'⟩
          · exact ⟨o', List.mem_cons_of_mem a ho', hspan'⟩
      · rcases List.mem_cons.1 h with rfl | ho
        · exact ⟨o, List.mem_cons_self, rfl⟩
        · obtain ⟨o', ho', hspan'⟩ := hrest ho
          exact ⟨o', List.mem_cons_of_mem a ho', hspan'⟩

/-- Of places in order, sifting leaves places one behind the other. -/
theorem dedup_pairwise (hsorted : os.Pairwise (le · · = true))
    (hapart : ∀ a ∈ os, ∀ b ∈ os, a.span.SameOrApart b.span)
    (hne : ∀ a ∈ os, a.span.start < a.span.stop) :
    (dedup os).Pairwise fun a b => a.span.stop ≤ b.span.start := by
  induction os with
  | nil => exact .nil
  | cons a os ih =>
    obtain ⟨ha, hos⟩ := List.pairwise_cons.1 hsorted
    have ih := ih hos
      (fun x hx y hy => hapart x (List.mem_cons_of_mem a hx) y (List.mem_cons_of_mem a hy))
      (fun x hx => hne x (List.mem_cons_of_mem a hx))
    rw [dedup]
    split
    · exact List.pairwise_singleton _ _
    · next b bs heq =>
      have hb : b ∈ os := (dedup_sublist os).subset (heq ▸ List.mem_cons_self)
      rw [heq] at ih
      obtain ⟨hbs, hrest⟩ := List.pairwise_cons.1 ih
      split
      · next hspan => exact List.pairwise_cons.2 ⟨fun x hx => hspan ▸ hbs x hx, hrest⟩
      · next hspan =>
        have hle := ha b hb
        have hab := hapart a List.mem_cons_self b (List.mem_cons_of_mem a hb)
        have hlt := hne b (List.mem_cons_of_mem a hb)
        have hfirst : a.span.stop ≤ b.span.start := by
          simp only [le, Bool.or_eq_true, Bool.and_eq_true, decide_eq_true_eq, beq_iff_eq] at hle
          rcases hab with hab | hab | hab
          · exact absurd hab hspan
          · exact hab
          · omega
        refine List.pairwise_cons.2 ⟨fun x hx => ?_, ih⟩
        rcases List.mem_cons.1 hx with rfl | hx
        · exact hfirst
        · have := hbs x hx
          omega

/-- Of places in order with one declaration at most, sifting leaves the declaration. -/
theorem filter_dedup (hsorted : os.Pairwise (le · · = true))
    (hone : (os.filter (·.isDeclaration)).length ≤ 1) :
    (dedup os).filter (·.isDeclaration) = os.filter (·.isDeclaration) := by
  induction os with
  | nil => rfl
  | cons a os ih =>
    obtain ⟨ha, hos⟩ := List.pairwise_cons.1 hsorted
    have hlen := (List.sublist_cons_self a os).filter (·.isDeclaration) |>.length_le
    have ih := ih hos (hlen.trans hone)
    rw [dedup]
    split
    · next heq =>
      rw [heq] at ih
      rw [List.filter_cons, List.filter_cons, ← ih]
    · next b bs heq =>
      rw [heq] at ih
      split
      · next hspan =>
        -- the one that is left out is no declaration: else it would be the second one
        have hb : b ∈ os := (dedup_sublist os).subset (heq ▸ List.mem_cons_self)
        have hnot : b.isDeclaration = false := by
          by_contra hdeclared
          have hle := ha b hb
          simp only [le, hspan, Nat.lt_irrefl, decide_false, beq_self_eq_true, Bool.true_and,
            Bool.false_or, eq_true_of_ne_false hdeclared, Bool.not_true, Bool.or_false] at hle
          have hmem : b ∈ os.filter (·.isDeclaration) :=
            List.mem_filter.2 ⟨hb, eq_true_of_ne_false hdeclared⟩
          have hpos := List.length_pos_of_mem hmem
          have hcons : ((a :: os).filter (·.isDeclaration)).length
              = (os.filter (·.isDeclaration)).length + 1 :=
            congrArg List.length (List.filter_cons_of_pos hle)
          omega
        rw [List.filter_cons_of_neg (by rw [hnot]; exact Bool.false_ne_true)] at ih
        rw [List.filter_cons, List.filter_cons, ih]
      · rw [List.filter_cons, ih, ← List.filter_cons]

/-- Places of one name with one declaration at most, sorted and sifted. -/
theorem sort_dedup_spec (hapart : ∀ a ∈ os, ∀ b ∈ os, a.span.SameOrApart b.span)
    (hne : ∀ a ∈ os, a.span.start < a.span.stop)
    (hone : (os.filter (·.isDeclaration)).length ≤ 1) :
    ((dedup (os.mergeSort le)).Pairwise fun a b => a.span.stop ≤ b.span.start) ∧
      (∀ o ∈ dedup (os.mergeSort le), o ∈ os) ∧
      (dedup (os.mergeSort le)).filter (·.isDeclaration) = os.filter (·.isDeclaration) := by
  have hsorted := List.pairwise_mergeSort le_trans le_total os
  have hperm := List.mergeSort_perm os le
  have hmem : ∀ o ∈ dedup (os.mergeSort le), o ∈ os :=
    fun o ho => hperm.mem_iff.1 ((dedup_sublist _).subset ho)
  have hfilter := hperm.filter (·.isDeclaration)
  refine ⟨dedup_pairwise hsorted ?_ ?_, hmem, ?_⟩
  · exact fun a ha b hb => hapart a (hperm.mem_iff.1 ha) b (hperm.mem_iff.1 hb)
  · exact fun a ha => hne a (hperm.mem_iff.1 ha)
  · rw [filter_dedup hsorted (hfilter.length_eq ▸ hone)]
    cases hos : os.filter (·.isDeclaration) with
    | nil => exact List.perm_nil.1 (hos ▸ hfilter)
    | cons o rest =>
      rw [hos, List.length_cons] at hone
      obtain rfl : rest = [] := List.length_eq_zero_iff.1 (by omega)
      exact List.perm_singleton.1 (hos ▸ hfilter)

end Occurrence

end Editor

/-! ## Places of a name -/

variable {text : List Char} {engine name : String} {s t : Span} {key : SymbolKey}

theorem IdentifierAt.fenced (h : IdentifierAt (start 0 text) name s) :
    s.Fenced isIdentChar text := by
  obtain ⟨x, n, y, hx, hn, hbefore, rfl, rfl⟩ := h
  obtain ⟨hbetween, hspan, -, hnext⟩ := identifier_spec hn
  obtain ⟨front, hfront⟩ := exists_run hx
  have hrun := hfront.trans hbetween
  have hoffset := hfront.offset_eq
  have hoffset' := hrun.offset_eq
  rw [start, Nat.zero_add] at hoffset hoffset'
  refine ⟨front, n.text.toList, y.rest, hrun.rest_eq, by rw [hspan, hoffset, hoffset'], ?_, ?_⟩
  · rwa [hfront.before_eq, start, Option.or_none] at hbefore
  · rw [← peek, Option.any_eq_false]
    exact fun z hz => by simpa using hnext z hz

/-- Where a name is written as that of a symbol, of a used partial or of an inline one. -/
inductive NamePlace (text : List Char) (engine name : String) : Span → Prop
  | identifier {s : Span} (h : IdentifierAt (start 0 text) name s) : NamePlace text engine name s
  | usage {s : Span} (h : (name, s) ∈ usagesOfDocument text engine) : NamePlace text engine name s
  | inline {region : Span} {definition : InlineDefinition}
      (hregion : region ∈ regionsOf (parse text).program engine)
      (h : (name, definition) ∈ definitionsIn text region) :
      NamePlace text engine name definition.nameSpan

namespace NamePlace

/-- At each of its places the name is written out. -/
theorem spells (h : NamePlace text engine name s) : s.Spells text name.toList := by
  cases h with
  | identifier h => exact h.spells
  | usage h =>
    obtain ⟨region, -, hfits, hu⟩ := mem_usagesOfDocument text engine h
    exact usagesIn_spells hfits hu
  | inline hregion h => exact (definitionsIn_spells (regionsOf_fit engine text _ hregion) h).1

theorem start_lt_stop (h : NamePlace text engine name s) : s.start < s.stop := by
  cases h with
  | identifier h => exact h.start_lt_stop
  | usage h =>
    obtain ⟨region, -, hfits, hu⟩ := mem_usagesOfDocument text engine h
    exact (usagesIn_inside hfits _ hu).2.1
  | inline hregion h => exact (definitionsIn_spells (regionsOf_fit engine text _ hregion) h).2.1

/-- The name is fenced in, if it is not that of a usage. -/
theorem fenced_or_usage (h : NamePlace text engine name s) :
    (∃ p : Char → Bool, s.Fenced p text ∧ ∀ x ∈ name.toList, p x = true) ∨
      (name, s) ∈ usagesOfDocument text engine := by
  cases h with
  | identifier h => exact Or.inl ⟨isIdentChar, h.fenced, h.isIdentifier.2⟩
  | usage h => exact Or.inr h
  | inline hregion h =>
    obtain ⟨-, -, hfenced, hall⟩ := definitionsIn_spells (regionsOf_fit engine text _ hregion) h
    exact Or.inl ⟨_, hfenced, hall⟩

/-- **Places of one name are the same or share no character.** -/
theorem sameOrApart (h : NamePlace text engine name s) (h' : NamePlace text engine name t) :
    s.SameOrApart t := by
  rcases h.fenced_or_usage with ⟨p, hfenced, hall⟩ | hu
  · exact hfenced.sameOrApart h.spells h'.spells hall
  · rcases h'.fenced_or_usage with ⟨p, hfenced, hall⟩ | hv
    · exact (hfenced.sameOrApart h'.spells h.spells hall).symm
    · by_cases heq : s = t
      · exact Or.inl heq
      · have hapart : ((usagesOfDocument text engine).map (·.2)).Pairwise Span.Apart :=
          List.pairwise_map.2 (usages_pairwise text engine)
        refine Or.inr ((hapart.forall ?_ ?_ heq).imp Nat.le_of_lt Nat.le_of_lt)
        · exact List.mem_map.2 ⟨_, hu, rfl⟩
        · exact List.mem_map.2 ⟨_, hv, rfl⟩

end NamePlace

namespace Editor

variable {o : Occurrence}

/-! ## Occurrences -/

theorem mem_declarations {spans : Option Span} :
    o ∈ declarations spans ↔ spans = some o.span ∧ o.isDeclaration = true := by
  obtain ⟨span, isDeclaration⟩ := o
  cases spans with
  | none => simp [declarations]
  | some s => simp [declarations, eq_comm]

theorem mem_references {spans : List Span} :
    o ∈ references spans ↔ o.span ∈ spans ∧ o.isDeclaration = false := by
  obtain ⟨span, isDeclaration⟩ := o
  simp [references, eq_comm]

theorem filter_declarations (spans : Option Span) :
    (declarations spans).filter (·.isDeclaration) = declarations spans := by
  cases spans with
  | none => rfl
  | some s => rfl

theorem filter_references (spans : List Span) :
    (references spans).filter (·.isDeclaration) = [] := by
  refine List.filter_eq_nil_iff.2 fun o ho => ?_
  rw [(mem_references.1 ho).2]
  exact Bool.false_ne_true

/-- The occurrences of a symbol are places of its name. -/
theorem namePlace_of_mem_ofKey (h : o ∈ ofKey (analyze engine text).symbols engine key) :
    NamePlace text engine key.name o.span := by
  rcases List.mem_append.1 h with h | h
  · obtain ⟨hplace, -⟩ := mem_declarations.1 h
    rw [declarationOf_eq] at hplace
    exact .identifier (identifierAt_of_mem_nameSpansOf (List.mem_of_getLast? hplace))
  · obtain ⟨hspan, -⟩ := mem_references.1 h
    rcases List.mem_append.1 hspan with hspan | hspan
    · have hr : ⟨key, o.span⟩ ∈ scan text := by
        refine Context.mem_recorded.1 ?_
        cases key with
        | pipeline name => exact hspan
        | typed kind name => exact hspan
      exact .identifier (identifierAt_of_mem (mem_scan.1 hr))
    · cases key with
      | pipeline name => cases hspan
      | typed kind name =>
        rw [partialUses] at hspan
        split at hspan
        · exact .usage (mem_usagesOf.1 (List.mem_filter.1 hspan).1)
        · cases hspan

/-- The occurrences of what a context is about are places of its name. -/
theorem namePlace_of_mem_ofContext {c : Context}
    (h : o ∈ ofContext (analyze engine text).symbols engine c) :
    NamePlace text engine c.name o.span := by
  cases c with
  | symbol key span => exact namePlace_of_mem_ofKey h
  | template name span region =>
    rw [ofContext] at h
    split at h
    · next definition home hresolve =>
      obtain ⟨hhome, hdefinition⟩ := mem_of_inlineAt (inlineAt_of_resolve hresolve)
      rcases List.mem_append.1 h with h | h
      · obtain ⟨heq, -⟩ := mem_declarations.1 h
        rw [← Option.some.inj heq]
        exact .inline hhome hdefinition
      · obtain ⟨hspan, -⟩ := mem_references.1 h
        exact .usage (mem_usagesOf.1 (List.mem_filter.1 hspan).1)
    · exact namePlace_of_mem_ofKey h
    · obtain ⟨hspan, -⟩ := mem_references.1 h
      exact .usage (mem_usagesOf.1 (List.mem_filter.1 hspan).1)

/-- What is declared among the occurrences is the definition. -/
theorem filter_ofContext (text : List Char) (engine : String) (c : Context) :
    (ofContext (analyze engine text).symbols engine c).filter (·.isDeclaration)
      = declarations (definitionSpan (analyze engine text).symbols c) := by
  have hkey (key : SymbolKey) :
      (ofKey (analyze engine text).symbols engine key).filter (·.isDeclaration)
        = declarations ((analyze engine text).symbols.declarationOf key) := by
    rw [ofKey, List.filter_append, filter_declarations, filter_references, List.append_nil]
  cases c with
  | symbol key span => exact hkey key
  | template name span region =>
    rw [ofContext, definitionSpan]
    cases hresolve : (analyze engine text).symbols.partials.resolve name span.start with
    | inline definition home =>
      exact (List.filter_append ..).trans (by
        rw [filter_declarations, filter_references, List.append_nil])
    | «global» nameSpan =>
      exact (hkey _).trans (congrArg declarations
        ((find?_globals text engine name).symm.trans (globals_of_resolve hresolve)))
    | unresolved => exact filter_references _

theorem occurrences_spec (text : List Char) (engine : String) (c : Context) :
    let os := occurrences (analyze engine text).symbols engine c
    (os.Pairwise fun a b => a.span.stop ≤ b.span.start) ∧
      (∀ o ∈ os, NamePlace text engine c.name o.span) ∧
      os.filter (·.isDeclaration)
        = declarations (definitionSpan (analyze engine text).symbols c) := by
  have hplace (o : Occurrence) (ho : o ∈ ofContext (analyze engine text).symbols engine c) :=
    namePlace_of_mem_ofContext ho
  have hone : ((ofContext (analyze engine text).symbols engine c).filter
      (·.isDeclaration)).length ≤ 1 := by
    rw [filter_ofContext, declarations, Option.length_toList]
    split
    · exact Nat.le_refl 1
    · exact Nat.zero_le 1
  obtain ⟨hpairwise, hmem, hfilter⟩ := Occurrence.sort_dedup_spec
    (fun a ha b hb => (hplace a ha).sameOrApart (hplace b hb))
    (fun a ha => (hplace a ha).start_lt_stop) hone
  exact ⟨hpairwise, fun o ho => hplace o (hmem o ho), hfilter.trans (filter_ofContext text engine c)⟩

/-- The edits of a renaming are those of the occurrences, of which there is one at least. -/
theorem rename_spec {d : Document} {p : Position} {newName : String} {edit : WorkspaceEdit}
    (h : d.rename p newName = .ok (some edit)) : ∃ c, d.contextAt p = some c ∧
      edit.edits = (occurrences d.symbols d.engine c).map fun o => ⟨d.range o.span, newName⟩ := by
  unfold Document.rename at h
  split at h
  · obtain ⟨edits, hedits, rfl⟩ := Option.map_eq_some_iff.1 (Except.ok.inj h)
    cases hcontext : d.contextAt p with
    | none =>
      rw [Document.occurrencesAt, hcontext] at hedits
      cases hedits
    | some c =>
      rw [Document.occurrencesAt, hcontext] at hedits
      refine ⟨c, rfl, ?_⟩
      simp only at hedits
      unfold nonempty at hedits
      split at hedits
      · cases hedits
      · exact (Option.some.inj hedits).symm
  · cases h

/-- **Occurrences are safe to edit.** Whatever a context is about, its occurrences stand one behind the
other, each with the name of the symbol under it, and the one that is marked as a declaration is the
definition, if there is one. So the edits of a renaming replace one copy of the old name each, and
none of them starts before the end of the one before it. -/
theorem occurrences_apart (engine : String) (text : List Char) :
    (∀ c : Context,
      ((occurrences (analyze engine text).symbols engine c).Pairwise fun a b =>
        a.span.start < b.span.start ∧ a.span.stop ≤ b.span.start) ∧
      (∀ o ∈ occurrences (analyze engine text).symbols engine c,
        o.span.Spells text c.name.toList) ∧
      ((occurrences (analyze engine text).symbols engine c).filter (·.isDeclaration)).map (·.span)
        = (definitionSpan (analyze engine text).symbols c).toList) ∧
    ∀ uri p newName edit,
      Document.rename ⟨uri, engine, text, analyze engine text⟩ p newName = .ok (some edit) →
      ∃ c, Document.contextAt ⟨uri, engine, text, analyze engine text⟩ p = some c ∧
        edit.edits = (occurrences (analyze engine text).symbols engine c).map
          (fun o => ⟨.ofSpan text o.span, newName⟩) ∧
        edit.edits.Pairwise fun a b => a.range.stop.le b.range.start := by
  refine ⟨fun c => ?_, fun uri p newName edit hrename => ?_⟩
  · obtain ⟨hpairwise, hplace, hfilter⟩ := occurrences_spec text engine c
    refine ⟨hpairwise.imp_of_mem fun ha _ hle => ⟨?_, hle⟩, fun o ho => (hplace o ho).spells, ?_⟩
    · exact (hplace _ ha).start_lt_stop.trans_le hle
    · rw [hfilter]
      cases definitionSpan (analyze engine text).symbols c with
      | none => rfl
      | some s => rfl
  · obtain ⟨c, hc, hedits⟩ := rename_spec hrename
    obtain ⟨hpairwise, -⟩ := occurrences_spec text engine c
    refine ⟨c, hc, hedits, ?_⟩
    rw [hedits]
    exact List.pairwise_map.2 (hpairwise.imp fun hle => Position.ofOffset_le hle text)

/-- A template that uses itself as a partial. -/
def selfUsing : List Char := "handlebars card = \x60\x7b\x7b> card\x7d\x7d\x60\n".toList

/-- A template variable is renamed where it is declared and where it is used as a partial. -/
theorem occurrences_apart_selfUsing :
    ∃ edit, Document.rename ⟨"a", "handlebars", selfUsing, analyze "handlebars" selfUsing⟩ ⟨0, 12⟩
        "page" = .ok (some edit) ∧
      edit.edits = [⟨⟨⟨0, 11⟩, ⟨0, 15⟩⟩, "page"⟩, ⟨⟨⟨0, 23⟩, ⟨0, 27⟩⟩, "page"⟩] ∧
      edit.edits.Pairwise fun a b => a.range.stop.le b.range.start := by
  let document : Document := ⟨"a", "handlebars", selfUsing, analyze "handlebars" selfUsing⟩
  have hcontext : document.contextAt ⟨0, 12⟩
      = some (.symbol (.typed "handlebars" "card") ⟨11, 15⟩) := by decide +kernel
  have hplaces : ofContext document.symbols document.engine
      (.symbol (.typed "handlebars" "card") ⟨11, 15⟩) = [⟨⟨11, 15⟩, true⟩, ⟨⟨23, 27⟩, false⟩] := by
    decide +kernel
  have hoccurrences : document.occurrencesAt ⟨0, 12⟩ = [⟨⟨11, 15⟩, true⟩, ⟨⟨23, 27⟩, false⟩] := by
    rw [Document.occurrencesAt, hcontext]
    simp only [occurrences, hplaces]
    rw [List.mergeSort_of_pairwise (by decide)]
    rfl
  have hrename : document.rename ⟨0, 12⟩ "page" = .ok (some ⟨"a", [⟨⟨⟨0, 11⟩, ⟨0, 15⟩⟩, "page"⟩,
      ⟨⟨⟨0, 23⟩, ⟨0, 27⟩⟩, "page"⟩]⟩) := by
    rw [Document.rename, if_pos (by decide), hoccurrences]
    decide +kernel
  obtain ⟨c, -, -, hpairwise⟩ := (occurrences_apart "handlebars" selfUsing).2 _ _ _ _ hrename
  exact ⟨_, hrename, rfl, hpairwise⟩

end Editor
end PipelineLang
