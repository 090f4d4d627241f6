import PipelineLang.Program.Key

/-!
# Types and names in one text

A variable stands in a table under its type and name with two colons between them. Where neither of
the two has a colon the text determines both, whatever else may be written with two colons
(`joinVariable_inj`), and splitting the text gives them back (`ofText_joinVariable`).
-/

namespace PipelineLang.SymbolKey

theorem toList_joinVariable (kind name : String) :
    (joinVariable kind name).toList = kind.toList ++ ':' :: ':' :: name.toList := by
  simp [joinVariable]

/-- Of two ways to write a text with two colons, one has no other colon. Then both are the same. -/
theorem append_colons_inj {a b k n : List Char} (hk : ':' ∉ k) (hn : ':' ∉ n)
    (h : a ++ ':' :: ':' :: b = k ++ ':' :: ':' :: n) : a = k ∧ b = n := by
  rcases List.append_eq_append_iff.1 h with ⟨m, hkm, hm⟩ | ⟨m, ham, hm⟩
  · cases m with
    | nil =>
      rw [List.nil_append, List.cons.injEq, List.cons.injEq] at hm
      exact ⟨by rw [hkm, List.append_nil], hm.2.2⟩
    | cons x m =>
      -- what `k` has beyond `a` starts with a colon
      rw [List.cons_append, List.cons.injEq] at hm
      rw [hkm, ← hm.1] at hk
      simp at hk
  · cases m with
    | nil =>
      rw [List.nil_append, List.cons.injEq, List.cons.injEq] at hm
      exact ⟨by rw [ham, List.append_nil], hm.2.2.symm⟩
    | cons x m =>
      rw [List.cons_append, List.cons.injEq] at hm
      cases m with
      | nil =>
        rw [List.nil_append, List.cons.injEq] at hm
        rw [hm.2.2] at hn
        simp at hn
      | cons y m =>
        rw [List.cons_append, List.cons.injEq] at hm
        rw [hm.2.2] at hn
        simp at hn

theorem joinVariable_inj {kind name kind' name' : String} (hkind : ':' ∉ kind.toList)
    (hname : ':' ∉ name.toList) (h : joinVariable kind' name' = joinVariable kind name) :
    kind' = kind ∧ name' = name := by
  have hlist := congrArg String.toList h
  rw [toList_joinVariable, toList_joinVariable] at hlist
  obtain ⟨hk, hn⟩ := append_colons_inj hkind hname hlist
  exact ⟨String.toList_inj.1 hk, String.toList_inj.1 hn⟩

/-- The first two colons stand behind a front that has none. -/
theorem splitChars_append {front : List Char} (hfront : ':' ∉ front) (back : List Char) :
    splitChars (front ++ ':' :: ':' :: back) = some (front, back) := by
  induction front with
  | nil => rfl
  | cons x front ih =>
    rw [List.mem_cons, not_or] at hfront
    have hsplit := ih hfront.2
    rw [List.cons_append, splitChars, hsplit]
    · rfl
    · intro rest hx
      exact absurd hx.symm hfront.1

theorem ofText_joinVariable {kind : String} (hkind : ':' ∉ kind.toList) (name : String) :
    ofText (joinVariable kind name) = .typed kind name := by
  rw [ofText, splitVariable, toList_joinVariable, splitChars_append hkind, Option.map_some]
  simp

end PipelineLang.SymbolKey
