import PipelineLang.Grammar.Cursor
import PipelineLang.Text.Word

/-!
# Searching a text for a shape

A shape is a reader that may start anywhere. A search tries it at each place from left to right,
and goes on behind a match, so matches never overlap. Word boundaries look at the character
before the cursor, which a search carries along.
-/

namespace PipelineLang.Reference

open Cursor

/-- Every match of the shape, leftmost first, with the cursor behind it. -/
def searchAll {α : Type} (shape : Cursor → Option (α × Cursor)) (c : Cursor) : List (α × Cursor) :=
  match shape c with
  | some (a, next) =>
    if next.rest.length < c.rest.length then (a, next) :: searchAll shape next else []
  | none =>
    match _h : c.rest with
    | [] => []
    | x :: xs => searchAll shape (c.step x xs)
termination_by c.rest.length
decreasing_by
  · assumption
  · simp [Cursor.step, *]

/-- Whether a word starts or ends at the cursor. -/
def atBoundary (c : Cursor) : Bool := Word.isBoundary c.before c.peek

/-- Whether what ends at the cursor is followed by a white character or by nothing. -/
def isBare (c : Cursor) : Bool := c.peek.all Blank.isWhite

/-- Reads the characters and one or more blanks of the line behind them. -/
def spaced (word : List Char) (c : Cursor) : Option Cursor := (c.chars word).bind someBlanks

end PipelineLang.Reference
