import PipelineLang.Proofs.Grammar.Concatenation

/-!
# Comments behind a document

A comment on a line of its own is layout, so it holds no item (`isVoid_comment`). Behind a document of
which nothing is reported it is read as nothing, whatever it says, unless a mock is left open in the
document and the comment closes its value (`parse_append_void`).
-/

namespace PipelineLang

/-- Some condition of the program may be what is left of a mock whose value opens with the mark. -/
def Program.MayOpen (p : Program) (mark : Char) : Prop :=
  ∃ s ∈ p.suites, ∃ t ∈ s.value.tests, ∃ k ∈ t.conditions, k.MayOpen mark

theorem Program.MayOpen.isMark {p : Program} {mark : Char} (h : p.MayOpen mark) :
    mark = Cursor.tick ∨ mark = '"' := by
  obtain ⟨s, hs, t, ht, k, hmem, hk⟩ := h
  exact hk.isMark

namespace Grammar

open Cursor Utf8

variable {a back cs : List Char} {c d : Cursor}

/-! ## Comments -/

/-- A line that is a comment. -/
def commentLine (cs : List Char) : List Char := '#' :: (cs ++ ['\n'])

/-- An open comment goes on to the line feed. -/
theorem layout_go_comment (hcs : '\n' ∉ cs) (hc : c.rest = cs ++ ['\n']) :
    (layout.go true (cs ++ ['\n']) c).rest = [] := by
  induction cs generalizing c with
  | nil => rfl
  | cons x cs ih =>
    rw [List.mem_cons, not_or] at hcs
    have hx : (true && x != '\n') = true := by simpa using Ne.symm hcs.1
    rw [List.cons_append, layout.go, if_pos hx]
    exact ih hcs.2 rfl

theorem isVoid_comment (hcs : '\n' ∉ cs) : IsVoid (commentLine cs) := by
  rw [IsVoid, layout, start, commentLine, layout.go]
  exact layout_go_comment hcs rfl

theorem IsVoid.items_eq (h : IsVoid back) : items back = [] := by
  have hnone : item (start 0 back) = none := by
    rw [item, atEnd, h]
    rfl
  rw [items, many_of_none hnone]

theorem count_commentLine (cs : List Char) : (commentLine cs).count tick = cs.count tick := by
  rw [commentLine, List.count_cons_of_ne (by decide), List.count_append,
    List.count_singleton, if_neg (by decide), Nat.add_zero]

/-! ## Documents of which nothing is reported -/

/-- Whatever is left of a text that is empty or ends with a line feed is so as well. -/
theorem closed_or_end (ha : a = [] ∨ EndsInLineFeed a) (h : start 0 a ≤ c) (back : List Char) :
    Closed back c ∨ c.rest = [] := by
  have hsuffix : c.rest <:+ a := rest_suffix h
  by_cases hrest : c.rest = []
  · exact Or.inr hrest
  · refine Or.inl (Or.inr ?_)
    rcases ha with rfl | ha
    · exact absurd (List.suffix_nil.1 hsuffix) hrest
    · exact ha.suffix hsuffix hrest

/-- Nothing is torn where an item of such a document ends: it would be part of a line that is
reported. -/
theorem not_torn_of_clean (hback : IsVoid back) (ha : a = [] ∨ EndsInLineFeed a)
    (hclean : ∀ i ∈ items a, i.reports = []) (hd : Comes item (start 0 a) d) :
    ¬(Torn [] back testClause d ∨ Torn [] back suiteItem d) := by
  intro htorn
  have hclosed := closed_or_end ha (hd.le fun _ _ _ => item_lt) back
  obtain ⟨hrest, hnone⟩ := declaration_of_torn hback hclosed htorn
  cases hclean _ (hd.mem_many (fun _ _ _ => item_lt) (item_of_line hrest hnone))

/-- The blocks of such a document are not changed by layout behind it, unless that closes a mock. -/
theorem blocksAgree_of_clean (hback : IsVoid back) (ha : a = [] ∨ EndsInLineFeed a)
    (hclean : ∀ i ∈ items a, i.reports = [])
    (hopen : ∀ x ∈ back, ¬(programOfItems (items a)).MayOpen x) : BlocksAgree a back where
  config := by
    intro c hc hclosed
    refine config_within hback.opensAfresh hclosed (Or.inr fun v rs d hread => ?_)
    have hitem : declaration c.layout = some (.config v rs, d) := by
      rw [declaration, hread]
      rfl
    exact hclean _ (hc.mem_many (fun _ _ _ => item_lt) (item_of_declaration hitem))
  suite := by
    intro c v rs d hc hclosed hread hitem
    have hmem := hc.mem_many (fun _ _ _ => item_lt) hitem
    obtain rfl : rs = [] := hclean _ hmem
    have hstands := not_or.1 (not_torn_of_clean hback ha hclean (hc.tail ⟨_, hitem⟩))
    refine suite_within hback hclosed (Or.inr ⟨v, d, hread, hstands.1, hstands.2, ?_⟩)
    intro t ht k hk x hx hmay
    exact hopen x hx ⟨v, List.mem_filterMap.2 ⟨_, hmem, rfl⟩, t, ht, k, hk, hmay⟩

/-- **Layout behind a document adds nothing to it.** If nothing is reported of a document that is
empty or ends with a line feed, and what stands behind it is layout that closes no mock, then program
and sites are those of the document, and the one report that there may be is that of a backtick in
what stands behind. -/
theorem parse_append_void (hback : IsVoid back) (ha : a = [] ∨ EndsInLineFeed a)
    (hclean : (parse a).reports = []) (hopen : ∀ x ∈ back, ¬(parse a).program.MayOpen x) :
    parse (a ++ back) = { parse a with
      reports := (unclosedTick back).map (SyntaxReport.shift (byteLength a)) } := by
  obtain ⟨hreports, hticks⟩ := List.append_eq_nil_iff.1 hclean
  have hclean : ∀ i ∈ items a, i.reports = [] := List.flatMap_eq_nil_iff.1 hreports
  have hrecognized : ∀ i ∈ items a, i.unrecognizedSpan? = none := by
    intro i hi
    cases i with
    | unrecognized r => cases hclean _ hi
    | config | pipeline | typedVariable | route | suite => rfl
  have hitems : items (a ++ back) = items a := by
    rw [items_append_of_blocks ha hrecognized (blocksAgree_of_clean hback ha hclean hopen)
      hback.opensAfresh, hback.items_eq, List.map_nil, List.append_nil]
  simp only [parse, hitems, hreports, List.nil_append, unclosedTick_append back hticks]

end Grammar
end PipelineLang
