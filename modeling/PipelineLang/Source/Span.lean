import PipelineLang.Text.Utf8

/-!
# Spans

A span is a half-open range of byte positions in a document. A cursor right behind a name still
counts as on it, so `contains` takes both ends in. `merge` is the least span around two others.
-/

namespace PipelineLang

/-- The bytes from `start` up to, and not including, `stop`. -/
structure Span where
  start : Nat
  stop : Nat
  deriving DecidableEq

namespace Span

/-- The span of `len` bytes from `start`. -/
def ofLength (start len : Nat) : Span := ⟨start, start + len⟩

/-- The number of bytes, if the ends are in order. -/
def length? (s : Span) : Option Nat := if s.start ≤ s.stop then some (s.stop - s.start) else none

def isEmpty (s : Span) : Bool := s.start == s.stop

/-- Whether a cursor at `offset` is on the span, its end included. -/
def contains (s : Span) (offset : Nat) : Bool := s.start ≤ offset && offset ≤ s.stop

/-- Whether `t` lies inside `s`. -/
def encloses (s t : Span) : Bool := s.start ≤ t.start && t.stop ≤ s.stop

/-- The least span that encloses both. -/
def merge (s t : Span) : Span := ⟨min s.start t.start, max s.stop t.stop⟩

theorem encloses_merge_left (s t : Span) : (s.merge t).encloses s = true :=
  Bool.and_eq_true_iff.2 ⟨decide_eq_true (Nat.min_le_left ..), decide_eq_true (Nat.le_max_left ..)⟩

theorem encloses_merge_right (s t : Span) : (s.merge t).encloses t = true :=
  Bool.and_eq_true_iff.2 ⟨decide_eq_true (Nat.min_le_right ..), decide_eq_true (Nat.le_max_right ..)⟩

/-- The text under the span, empty where the span does not fit the document. -/
def text (s : Span) (document : List Char) : List Char :=
  (Utf8.slice s.start s.stop document).getD []

/-- Spans are ordered by their start, then by their end. -/
def compare (s t : Span) : Ordering := (Ord.compare s.start t.start).then (Ord.compare s.stop t.stop)

def le (s t : Span) : Bool := s.start < t.start || (s.start == t.start && s.stop ≤ t.stop)

theorem le_trans (r s t : Span) (hrs : r.le s = true) (hst : s.le t = true) : r.le t = true := by
  simp only [le, Bool.or_eq_true, Bool.and_eq_true, decide_eq_true_eq, beq_iff_eq] at hrs hst ⊢
  omega

theorem le_total (s t : Span) : (s.le t || t.le s) = true := by
  simp only [le, Bool.or_eq_true, Bool.and_eq_true, decide_eq_true_eq, beq_iff_eq]
  omega

theorem le_antisymm {s t : Span} (hst : s.le t = true) (hts : t.le s = true) : s = t := by
  obtain ⟨start, stop⟩ := s
  simp only [le, Bool.or_eq_true, Bool.and_eq_true, decide_eq_true_eq, beq_iff_eq] at hst hts
  obtain ⟨rfl, rfl⟩ : start = t.start ∧ stop = t.stop := by omega
  rfl

def render (s : Span) : String := s!"{s.start}..{s.stop}"

end Span

/-- A value and where it is written. -/
structure Spanned (α : Type) where
  value : α
  span : Span
  deriving DecidableEq

end PipelineLang
