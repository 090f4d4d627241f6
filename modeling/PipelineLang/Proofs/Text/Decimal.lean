import Mathlib.Data.List.Basic
import PipelineLang.Text.Decimal

/-!
# Decimals are read as they are written

A decimal is written as its digits, with zeros in front of them where the fraction needs more, and
with a point in front of the fraction. Reading takes them in one by one; the value of the digits read
so far never gets larger than that of all of them, so a decimal of 96 bits and 28 fraction digits is
read without rounding (`ofPlain?_render`), and its number of fraction digits is kept.
-/

namespace PipelineLang.Decimal

/-- What a decimal has to be like to be read: it has 96 bits and 28 fraction digits at most, and a
zero has no sign. -/
structure IsRegular (d : Decimal) : Prop where
  coefficient_lt : d.coefficient < limit
  scale_le : d.scale ≤ maxScale
  unsigned_zero : d.coefficient = 0 → d.negative = false

instance (d : Decimal) : Decidable d.IsRegular :=
  decidable_of_iff
    (d.coefficient < limit ∧ d.scale ≤ maxScale ∧ (d.coefficient = 0 → d.negative = false))
    ⟨fun ⟨h, h', h''⟩ => ⟨h, h', h''⟩, fun ⟨h, h', h''⟩ => ⟨h, h', h''⟩⟩

/-! ## Runs of digits -/

theorem le_ofDigitChars (cs : List Char) (n : Nat) : n ≤ Nat.ofDigitChars 10 cs n := by
  induction cs generalizing n with
  | nil => exact Nat.le_refl n
  | cons c cs ih =>
    rw [Nat.ofDigitChars_cons]
    have := ih (10 * n + (c.toNat - '0'.toNat))
    omega

theorem ofDigitChars_zeros (k : Nat) : Nat.ofDigitChars 10 (List.replicate k '0') 0 = 0 := by
  induction k with
  | zero => rfl
  | succ k ih =>
    rw [List.replicate_succ, Nat.ofDigitChars_cons]
    exact ih

variable {cs : List Char}

/-- Digits before the point. -/
theorem readDigits_whole (hdigits : ∀ x ∈ cs, x.isDigit = true) {n : Nat}
    (hlt : Nat.ofDigitChars 10 cs n < limit) (seen : Bool) (rest : List Char) :
    readDigits n none seen (cs ++ rest)
      = readDigits (Nat.ofDigitChars 10 cs n) none (seen || !cs.isEmpty) rest := by
  induction cs generalizing n seen with
  | nil => rw [List.nil_append, List.isEmpty_nil, Bool.not_true, Bool.or_false]; rfl
  | cons c cs ih =>
    obtain ⟨hc, hcs⟩ := List.forall_mem_cons.1 hdigits
    rw [Nat.ofDigitChars_cons] at hlt ⊢
    have hnext : 10 * n + digitValue c < limit := Nat.lt_of_le_of_lt (le_ofDigitChars cs _) hlt
    rw [List.cons_append, readDigits, if_pos hc]
    simp only [hnext, if_true]
    rw [digitValue, ih hcs hlt, Bool.true_or, List.isEmpty_cons, Bool.not_false, Bool.or_true]

/-- Digits behind the point. -/
theorem readDigits_fraction (hdigits : ∀ x ∈ cs, x.isDigit = true) {n k : Nat}
    (hlt : Nat.ofDigitChars 10 cs n < limit) (hk : k + cs.length ≤ maxScale) :
    readDigits n (some k) true cs = some (Nat.ofDigitChars 10 cs n, k + cs.length) := by
  induction cs generalizing n k with
  | nil => rfl
  | cons c cs ih =>
    obtain ⟨hc, hcs⟩ := List.forall_mem_cons.1 hdigits
    rw [Nat.ofDigitChars_cons] at hlt ⊢
    rw [List.length_cons] at hk ⊢
    have hnext : 10 * n + digitValue c < limit := Nat.lt_of_le_of_lt (le_ofDigitChars cs _) hlt
    have hroom : k < maxScale := by omega
    rw [readDigits, if_pos hc]
    simp only [hnext, hroom, decide_true, Bool.and_self, if_true]
    rw [digitValue, ih hcs hlt (by omega), Nat.add_assoc, Nat.add_comm 1]

/-! ## Writing -/

/-- The digits that are written, one before the fraction at least. -/
def digits (d : Decimal) : List Char :=
  List.replicate (d.scale + 1 - (Nat.toDigits 10 d.coefficient).length) '0'
    ++ Nat.toDigits 10 d.coefficient

def whole (d : Decimal) : List Char := d.digits.take (d.digits.length - d.scale)

def fraction (d : Decimal) : List Char := d.digits.drop (d.digits.length - d.scale)

/-- The number as it is written, without its sign. -/
def magnitude (d : Decimal) : List Char :=
  d.whole ++ if d.fraction.isEmpty then [] else '.' :: d.fraction

theorem toList_render (d : Decimal) :
    d.render.toList = (if d.negative then ['-'] else []) ++ d.magnitude := by
  rw [render, String.toList_ofList, List.append_assoc]
  rfl

theorem isDigit_of_mem_digits {d : Decimal} {x : Char} (hx : x ∈ d.digits) : x.isDigit = true := by
  rcases List.mem_append.1 hx with hx | hx
  · rw [List.eq_of_mem_replicate hx]
    rfl
  · exact Nat.isDigit_of_mem_toDigits (by decide) (by decide) hx

theorem whole_append_fraction (d : Decimal) : d.whole ++ d.fraction = d.digits :=
  List.take_append_drop ..

theorem ofDigitChars_digits (d : Decimal) : Nat.ofDigitChars 10 d.digits 0 = d.coefficient := by
  rw [digits, Nat.ofDigitChars_append, ofDigitChars_zeros, Nat.ofDigitChars_ten_toDigits]

theorem lt_length_digits (d : Decimal) : d.scale < d.digits.length := by
  rw [digits, List.length_append, List.length_replicate]
  omega

theorem length_fraction (d : Decimal) : d.fraction.length = d.scale := by
  have := d.lt_length_digits
  rw [fraction, List.length_drop]
  omega

theorem whole_ne_nil (d : Decimal) : d.whole ≠ [] := by
  have := d.lt_length_digits
  rw [← List.length_pos_iff, whole, List.length_take]
  omega

theorem isDigit_of_mem_whole {d : Decimal} {x : Char} (hx : x ∈ d.whole) : x.isDigit = true :=
  isDigit_of_mem_digits (List.mem_of_mem_take hx)

theorem isDigit_of_mem_fraction {d : Decimal} {x : Char} (hx : x ∈ d.fraction) :
    x.isDigit = true := isDigit_of_mem_digits (List.mem_of_mem_drop hx)

theorem magnitude_head (d : Decimal) : ∃ x xs, d.magnitude = x :: xs ∧ x.isDigit = true := by
  obtain ⟨x, xs, hwhole⟩ := List.exists_cons_of_ne_nil d.whole_ne_nil
  exact ⟨x, _, by rw [magnitude, hwhole, List.cons_append],
    isDigit_of_mem_whole (hwhole ▸ List.mem_cons_self)⟩

theorem render_ne_nil (d : Decimal) : d.render.toList ≠ [] := by
  obtain ⟨x, xs, hhead, -⟩ := d.magnitude_head
  rw [toList_render, hhead]
  exact List.append_ne_nil_of_right_ne_nil _ (List.cons_ne_nil x xs)

theorem mem_magnitude {d : Decimal} {x : Char} (hx : x ∈ d.magnitude) :
    x.isDigit = true ∨ x = '.' := by
  rcases List.mem_append.1 hx with hx | hx
  · exact Or.inl (isDigit_of_mem_whole hx)
  · split at hx
    · cases hx
    · rcases List.mem_cons.1 hx with rfl | hx
      · exact Or.inr rfl
      · exact Or.inl (isDigit_of_mem_fraction hx)

/-! ## Reading back -/

variable {d : Decimal}

theorem readDigits_magnitude (h : d.IsRegular) :
    readDigits 0 none false d.magnitude = some (d.coefficient, d.scale) := by
  have hvalue : Nat.ofDigitChars 10 d.fraction (Nat.ofDigitChars 10 d.whole 0) = d.coefficient := by
    rw [← Nat.ofDigitChars_append, whole_append_fraction, ofDigitChars_digits]
  have hwhole : Nat.ofDigitChars 10 d.whole 0 < limit :=
    Nat.lt_of_le_of_lt (le_ofDigitChars d.fraction _) (hvalue ▸ h.coefficient_lt)
  have hseen : (false || !d.whole.isEmpty) = true := by
    rw [List.isEmpty_eq_false_iff.2 d.whole_ne_nil]
    rfl
  rw [magnitude, readDigits_whole (fun x hx => isDigit_of_mem_whole hx) hwhole, hseen]
  split
  · next hempty =>
    rw [List.isEmpty_iff.1 hempty] at hvalue
    have hscale := d.length_fraction
    rw [List.isEmpty_iff.1 hempty] at hscale
    rw [readDigits, if_pos rfl, ← hvalue, ← hscale]
    rfl
  · have hfraction := readDigits_fraction (fun x hx => isDigit_of_mem_fraction hx)
      (hvalue ▸ h.coefficient_lt) (by rw [length_fraction, Nat.zero_add]; exact h.scale_le)
    rw [hvalue, length_fraction, Nat.zero_add] at hfraction
    rw [readDigits, if_neg (by decide)]
    exact hfraction

theorem ofDigits?_magnitude (h : d.IsRegular) : ofDigits? d.negative d.magnitude = some d := by
  have hsign : (d.negative && d.coefficient != 0) = d.negative := by
    by_cases hzero : d.coefficient = 0
    · rw [h.unsigned_zero hzero, Bool.false_and]
    · rw [bne_iff_ne.2 hzero, Bool.and_true]
  rw [ofDigits?, readDigits_magnitude h]
  exact congrArg (fun negative => some (Decimal.mk negative d.coefficient d.scale)) hsign

theorem ofPlain?_digit {x : Char} (hx : x.isDigit = true) (xs : List Char) :
    ofPlain? (x :: xs) = ofDigits? false (x :: xs) := by
  unfold ofPlain?
  split
  · next heq =>
    cases heq
    exact absurd hx (by decide)
  · next heq =>
    cases heq
    exact absurd hx (by decide)
  · rfl

/-- **A decimal is read as it is written**, with its number of fraction digits. -/
theorem ofPlain?_render (h : d.IsRegular) : ofPlain? d.render.toList = some d := by
  have hmagnitude := ofDigits?_magnitude h
  rw [toList_render]
  cases hnegative : d.negative with
  | true =>
    rw [hnegative] at hmagnitude
    exact hmagnitude
  | false =>
    obtain ⟨x, xs, hhead, hx⟩ := d.magnitude_head
    rw [hnegative, hhead] at hmagnitude
    rw [hhead]
    exact (ofPlain?_digit hx xs).trans hmagnitude

end PipelineLang.Decimal
