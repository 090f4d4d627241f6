/-!
# Binary numbers of 64 bits

A finite binary number is a whole number of at most 53 bits times a power of two. A ratio is rounded
to the nearest of them, a tie to the even one, and a number is written with the fewest decimal
digits that read back as it.
-/

namespace PipelineLang

/-- The number `significand * 2 ^ exponent`, with its sign; zero has one as well. -/
structure Binary64 where
  negative : Bool
  significand : Nat
  exponent : Int
  deriving DecidableEq

namespace Binary64

/-- The exponent of the least numbers. -/
def leastExponent : Int := -1074

/-- The exponent of the greatest numbers. -/
def greatestExponent : Int := 971

/-- The first whole number of 54 bits. -/
def significandLimit : Nat := 9007199254740992

/-- The ratio `num * 2 ^ n / den`, as numerator and denominator. -/
def scale (num den : Nat) (n : Int) : Nat × Nat :=
  if 0 ≤ n then (num <<< n.toNat, den) else (num, den <<< (-n).toNat)

/-- The whole number nearest to a ratio, the even one of two. -/
def roundHalfEven (num den : Nat) : Nat :=
  let q := num / den
  let rest := num % den
  if 2 * rest < den then q
  else if den < 2 * rest then q + 1
  else q + q % 2

/-- The power of two that the ratio reaches, and not twice of it. -/
def magnitude (num den : Nat) : Int :=
  let n := (num.log2 : Int) - den.log2
  let (a, b) := scale num den (-n)
  if a < b then n - 1 else n

/-- The number nearest to the ratio, if it is not too great for one. -/
def ofRatio? (negative : Bool) (num den : Nat) : Option Binary64 :=
  if num = 0 then some ⟨negative, 0, leastExponent⟩
  else
    let exponent := max leastExponent (magnitude num den - 52)
    let (a, b) := scale num den (-exponent)
    let significand := roundHalfEven a b
    let rounded : Binary64 :=
      if significand < significandLimit then ⟨negative, significand, exponent⟩
      else ⟨negative, significand / 2, exponent + 1⟩
    if rounded.exponent ≤ greatestExponent then some rounded else none

/-- The size of the number, as numerator and denominator. -/
def ratio (x : Binary64) : Nat × Nat := scale x.significand 1 x.exponent

/-- The rounded product with a number without sign. -/
def mul? (x y : Binary64) : Option Binary64 :=
  let (a, b) := x.ratio
  let (c, d) := y.ratio
  ofRatio? x.negative (a * c) (b * d)

/-- The rounded quotient by a number without sign other than zero. -/
def div? (x y : Binary64) : Option Binary64 :=
  let (a, b) := x.ratio
  let (c, d) := y.ratio
  ofRatio? x.negative (a * d) (b * c)

/-! ## Decimal digits -/

/-- The bounds between which ratios round to the number, in quarters of its last binary digit: the
next lower number is half as far below the first number of an exponent. -/
def bounds (x : Binary64) : Nat × Nat :=
  let m := 4 * x.significand
  (if 2 * x.significand = significandLimit && leastExponent < x.exponent then m - 1 else m - 2,
    m + 2)

/-- The multiple of a power of ten that is nearest to the number, as the factor, if there is one
that reads back as the number. -/
def onGrid? (x : Binary64) (power : Int) : Option Nat :=
  let (low, high) := x.bounds
  let (a, b) := scale 1 1 (x.exponent - 2)
  let ten := Nat.pow 10 power.natAbs
  let (a, b) := if 0 ≤ power then (a, b * ten) else (a * ten, b)
  let inside := fun n =>
    if x.significand % 2 = 0 then low * a ≤ n * b && n * b ≤ high * a
    else low * a < n * b && n * b < high * a
  let nearest := roundHalfEven (4 * x.significand * a) b
  let below := 4 * x.significand * a / b
  [nearest, below, below + 1].find? inside

/-- The digits of the number: the coarsest decimal grid that has it, of the given number of grids
from the one of this power downward. -/
def onGrids (x : Binary64) (power : Int) : Nat → Nat × Int
  | 0 => (0, power)
  | grids + 1 =>
    match x.onGrid? power with
    | some n => (n, power)
    | none => x.onGrids (power - 1) grids

/-- The fewest digits that read back as the number, as a whole number, and the power of ten that
they are to be multiplied with. -/
def digits (x : Binary64) : Nat × Int := x.onGrids 309 640

/-- The number in decimal. From 1e-5 on and below 1e16 the point stands at its place, with a digit on
each side of it; any other number is written with the point behind the first digit, if there are
more, and with an exponent. -/
def render (x : Binary64) : String :=
  let sign := if x.negative then "-" else ""
  if x.significand = 0 then sign ++ "0.0"
  else
    let (n, power) := x.digits
    let ds := Nat.toDigits 10 n
    let whole := (ds.length : Int) + power
    let zeros := fun (k : Int) => List.replicate k.toNat '0'
    let cs :=
      if 0 ≤ power && whole ≤ 16 then ds ++ zeros power ++ ['.', '0']
      else if 0 < whole && whole ≤ 16 then ds.take whole.toNat ++ '.' :: ds.drop whole.toNat
      else if -5 < whole && whole ≤ 0 then '0' :: '.' :: zeros (-whole) ++ ds
      else
        ds.take 1 ++ (if ds.length = 1 then [] else '.' :: ds.drop 1)
          ++ 'e' :: (toString (whole - 1)).toList
    sign ++ String.ofList cs

example : (ofRatio? false 3 2).map render = some "1.5" := by decide +kernel
example : (ofRatio? true 1 10).map render = some "-0.1" := by decide +kernel
example : (ofRatio? false 18446744073709551616 1).map render = some "1.8446744073709552e19" := by
  decide +kernel

end Binary64
end PipelineLang
