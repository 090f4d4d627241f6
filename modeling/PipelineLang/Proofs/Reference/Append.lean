import PipelineLang.Proofs.Grammar.Frame
import PipelineLang.Proofs.Reference.Line

/-!
# References of documents behind one another

No shape reads over a line end. So where the first document is empty or ends with a line feed, the
references in the two together are those of the first and behind them those of the second, at the
places where it stands then (`scan_append`).
-/

namespace PipelineLang.Reference

open Utf8 Cursor Grammar

variable {shape : Cursor → Option (Reference × Cursor)} {mark a : List Char}

/-! ## Searching -/

/-- A line ends before a line feed, and one begins behind it. -/
theorem lineBounds_front (back : List Char) : LineBounds none ('\n' :: back) :=
  ⟨nofun, fun _ hx => (Option.some.inj hx).symm⟩

theorem lineBounds_back : LineBounds (some '\n') [] :=
  ⟨fun _ hx => (Option.some.inj hx).symm, nofun⟩

theorem searchAll_nil (hmoves : Moves shape) (n : Nat) : searchAll shape (start n []) = [] :=
  searchAll_of_end (shape_textEnd hmoves (start n [])) rfl

/-- A search finds what it does before a line end, then what it does behind it. -/
theorem searchAll_lineEnd (hmoves : Moves shape) (hsees : SeesLine shape) (front back : List Char) :
    searchAll shape (start 0 (front ++ '\n' :: back))
      = (searchAll shape (start 0 front)).map (Prod.map id (followed none ('\n' :: back)))
        ++ (searchAll shape (start (byteLength (front ++ ['\n'])) back)).map
          (Prod.map id (followed (some '\n') [])) := by
  have hfront := lineBounds_front back
  have hfeed : shape ((start 0 front).textEnd.followed none ('\n' :: back)) = none := by
    rw [hsees hfront, shape_textEnd hmoves, Option.map_none]
  have hend (c : Cursor) : searchAll shape (c.textEnd.followed (some '\n') []) = [] := by
    refine searchAll_of_end ?_ (rest_textEnd_followed ..)
    rw [hsees lineBounds_back, shape_textEnd hmoves, Option.map_none]
  have hstep := IsLine.step_eq front back []
  rw [List.append_nil] at hstep
  rw [show start 0 (front ++ '\n' :: back) = (start 0 front).followed none ('\n' :: back) from rfl,
    searchAll_followed hmoves hsees hfront, searchAll_of_step hfeed (rest_textEnd_followed ..),
    hstep, searchAll_followed hmoves hsees lineBounds_back, hend, List.append_nil]

/-- The matches that are kept, where that does not depend on what stands beyond the bounds of the
line. -/
theorem kept_append (hmoves : Moves shape) (hsees : SeesLine shape) (keep : Cursor → Bool)
    (hkeep : ∀ {b post}, LineBounds b post → ∀ c : Cursor, keep (c.followed b post) = keep c)
    (ha : a = [] ∨ EndsInLineFeed a) (b : List Char) :
    ((searchAll shape (start 0 (a ++ b))).filter (keep ·.2)).map (·.1)
      = ((searchAll shape (start 0 a)).filter (keep ·.2)).map (·.1)
        ++ ((searchAll shape (start (byteLength a) b)).filter (keep ·.2)).map (·.1) := by
  rcases ha with rfl | ha
  · rw [searchAll_nil hmoves]
    rfl
  · obtain ⟨front, rfl⟩ := List.getLast?_eq_some_iff.1 ha
    have hsplit (back : List Char) :
        ((searchAll shape (start 0 (front ++ '\n' :: back))).filter (keep ·.2)).map (·.1)
          = ((searchAll shape (start 0 front)).filter (keep ·.2)).map (·.1)
            ++ ((searchAll shape (start (byteLength (front ++ ['\n'])) back)).filter
              (keep ·.2)).map (·.1) := by
      rw [searchAll_lineEnd hmoves hsees, List.filter_append, List.map_append, List.filter_map,
        List.filter_map, List.map_map, List.map_map]
      simp only [Function.comp_def, Prod.map, id, hkeep (lineBounds_front back),
        hkeep lineBounds_back]
    rw [List.append_assoc, List.singleton_append, hsplit b, hsplit [], searchAll_nil hmoves]
    simp only [List.filter_nil, List.map_nil, List.append_nil]

theorem matching_append (hbehind : NamesBehind mark shape) (hsees : SeesLine shape)
    (ha : a = [] ∨ EndsInLineFeed a) (b : List Char) :
    matching shape (start 0 (a ++ b))
      = matching shape (start 0 a) ++ matching shape (start (byteLength a) b) := by
  have h := kept_append hbehind.moves hsees (fun _ => true) (fun _ _ => rfl) ha b
  rwa [List.filter_true, List.filter_true, List.filter_true] at h

theorem matchingBare_append (hbehind : NamesBehind mark shape) (hsees : SeesLine shape)
    (ha : a = [] ∨ EndsInLineFeed a) (b : List Char) :
    matchingBare shape (start 0 (a ++ b))
      = matchingBare shape (start 0 a) ++ matchingBare shape (start (byteLength a) b) :=
  kept_append hbehind.moves hsees isBare LineBounds.isBare ha b

/-! ## References -/

/-- The references in a text that stands at the offset, in the order of the spans. -/
def scanAt (offset : Nat) (text : List Char) : List Reference :=
  (foundFrom (start offset text)).mergeSort fun r s => r.span.le s.span

theorem scanAt_zero (text : List Char) : scanAt 0 text = scan text := rfl

theorem pairwise_scanAt (offset : Nat) (text : List Char) :
    (scanAt offset text).Pairwise fun r s => r.span.le s.span = true :=
  List.pairwise_mergeSort (fun r s t => Span.le_trans r.span s.span t.span)
    (fun r s => Span.le_total r.span s.span) _

/-- A reference is within the text that it is found in. -/
theorem bounds_of_mem_scanAt {offset : Nat} {text : List Char} {r : Reference}
    (h : r ∈ scanAt offset text) : offset ≤ r.span.start ∧ r.span.start < r.span.stop ∧
      r.span.stop ≤ offset + byteLength text := by
  have hname := identifierAt_of_mem (List.mem_mergeSort.1 h)
  exact ⟨hname.within.1, hname.start_lt_stop, hname.within.2⟩

theorem perm_foundFrom (ha : a = [] ∨ EndsInLineFeed a) (b : List Char) :
    (foundFrom (start 0 (a ++ b))).Perm
      (foundFrom (start 0 a) ++ foundFrom (start (byteLength a) b)) := by
  simp only [foundFrom, inSteps, inTests,
    matchingBare_append namesBehind_step seesLine_step ha b,
    matchingBare_append namesBehind_whenPipeline seesLine_whenPipeline ha b,
    matchingBare_append namesBehind_whenVariable seesLine_whenVariable ha b,
    matching_append namesBehind_mockPipeline seesLine_mockPipeline ha b,
    matching_append namesBehind_mockVariable seesLine_mockVariable ha b]
  refine List.perm_iff_count.2 fun r => ?_
  simp only [List.count_append]
  omega

/-- **References are found line by line.** Behind a document that is empty or ends with a line feed,
the references of another one are found as in that one alone. -/
theorem scan_append (ha : a = [] ∨ EndsInLineFeed a) (b : List Char) :
    scan (a ++ b) = scan a ++ scanAt (byteLength a) b := by
  have hperm : (scan (a ++ b)).Perm (scan a ++ scanAt (byteLength a) b) := by
    refine (List.mergeSort_perm _ _).trans ((perm_foundFrom ha b).trans ?_)
    exact (List.mergeSort_perm _ _).symm.append (List.mergeSort_perm _ _).symm
  have hsorted : (scan a ++ scanAt (byteLength a) b).Pairwise fun r s => r.span.le s.span = true := by
    refine List.pairwise_append.2 ⟨pairwise_scanAt 0 a, pairwise_scanAt _ b, fun r hr s hs => ?_⟩
    rw [← scanAt_zero] at hr
    have hr := bounds_of_mem_scanAt hr
    have hs := bounds_of_mem_scanAt hs
    rw [Span.le, Bool.or_eq_true, decide_eq_true_eq]
    exact Or.inl (by omega)
  refine hperm.eq_of_pairwise (fun r s hr hs hrs hsr => ?_) (pairwise_scanAt 0 (a ++ b)) hsorted
  exact eq_of_span_eq hr (hperm.mem_iff.2 hs) (Span.le_antisymm hrs hsr)

/-- The references of the second document stand at distinct places. -/
theorem strict_scanAt (ha : a = [] ∨ EndsInLineFeed a) (b : List Char) :
    (scanAt (byteLength a) b).Pairwise fun r s => r.span.start < s.span.start := by
  have hdistinct := (marked_scan (a ++ b)).distinct
  rw [scan_append ha b] at hdistinct
  refine ((List.pairwise_append.1 hdistinct).2.1.and (pairwise_scanAt _ b)).imp ?_
  rintro r s ⟨hne, hle⟩
  simp only [Span.le, Bool.or_eq_true, Bool.and_eq_true, decide_eq_true_eq, beq_iff_eq] at hle
  omega

end PipelineLang.Reference
