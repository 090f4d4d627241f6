/-!
# Decimal numbers

A decimal is a coefficient of at most 96 bits with a sign and at most 28 fraction digits. The
number of fraction digits is part of it, so `1.50` and `1.5` differ. The first fraction digit that no
longer fits is rounded on, half up, and there are only more digits behind it, which do not matter;
an integer part that does not fit is no decimal. An exponent shifts the point; what it moves behind
the last fraction digit is rounded in the same way.
-/

namespace PipelineLang

/-- The number `coefficient / 10 ^ scale`, written with `scale` fraction digits, and its sign. -/
structure Decimal where
  negative : Bool
  coefficient : Nat
  scale : Nat
  deriving DecidableEq

namespace Decimal

/-- The first coefficient that takes more than 96 bits. -/
def limit : Nat := 79228162514264337593543950336

/-- The most fraction digits. -/
def maxScale : Nat := 28

def digitValue (c : Char) : Nat := c.toNat - '0'.toNat

/-- Rounds `n` with `scale` fraction digits half up on the dropped `digit`. A carry out of the
limit costs one more fraction digit. -/
def round (n scale digit : Nat) : Option (Nat × Nat) :=
  if digit < 5 then some (n, scale)
  else if n + 1 < limit then some (n + 1, scale)
  else if scale = 0 then none
  else some ((n + 5) / 10, scale - 1)

/-- Whether the character may stand behind the digit that is rounded on: a digit or an underscore. -/
def isDropped (c : Char) : Bool := c.isDigit || c == '_'

/-- Reads digits behind the value `n`; `point` counts the fraction digits once the point is read
and `seen` tells whether there was a digit. -/
def readDigits (n : Nat) (point : Option Nat) (seen : Bool) : List Char → Option (Nat × Nat)
  | [] => if seen then some (n, point.getD 0) else none
  | c :: cs =>
    if c.isDigit then
      let next := 10 * n + digitValue c
      match point with
      | none => if next < limit then readDigits next none true cs else none
      | some k =>
        if k < maxScale && next < limit then readDigits next (some (k + 1)) true cs
        else if cs.all isDropped then round n k (digitValue c)
        else none
    else if c == '.' && point.isNone then readDigits n (some 0) seen cs
    else if c == '_' && seen then readDigits n point seen cs
    else none

/-- Reads digits with at most one point, and underscores behind a digit. A zero has no sign. -/
def ofDigits? (negative : Bool) (cs : List Char) : Option Decimal :=
  (readDigits 0 none false cs).map fun (n, scale) => ⟨negative && n != 0, n, scale⟩

/-- Reads a decimal without an exponent, which may start with a sign. -/
def ofPlain? : List Char → Option Decimal
  | '-' :: cs => ofDigits? true cs
  | '+' :: cs => ofDigits? false cs
  | cs => ofDigits? false cs

/-! ## Exponents -/

/-- The decimal with fewer fraction digits, rounded half up on the first that is dropped. The sign
stays, also where all digits but zeros are dropped. -/
def shorten (d : Decimal) (scale : Nat) : Decimal :=
  if d.scale ≤ scale then d
  else
    let kept := d.coefficient / Nat.pow 10 (d.scale - scale - 1)
    ⟨d.negative, kept / 10 + (if 5 ≤ kept % 10 then 1 else 0), scale⟩

/-- The decimal divided by ten to the `n`; digits that go past the last place are rounded away. -/
def shiftRight? (d : Decimal) (n : Nat) : Option Decimal :=
  if maxScale < n then none
  else
    let short := d.shorten (maxScale - n)
    some { short with scale := short.scale + n }

/-- The decimal times ten to the `n`, if it still fits. -/
def shiftLeft? (d : Decimal) (n : Nat) : Option Decimal :=
  if n ≤ d.scale then some { d with scale := d.scale - n }
  else if maxScale < n then none
  else
    let coefficient := d.coefficient * Nat.pow 10 (n - d.scale)
    if coefficient < limit then some ⟨d.negative, coefficient, 0⟩ else none

/-- The value of a run of digits, if there is one and all are digits. -/
def natural? (cs : List Char) : Option Nat :=
  if cs.isEmpty || !cs.all Char.isDigit then none
  else some (cs.foldl (fun n c => 10 * n + digitValue c) 0)

/-- The value of a run of digits, which may start with a plus sign. -/
def unsigned? : List Char → Option Nat
  | '+' :: cs => natural? cs
  | cs => natural? cs

/-- The decimal shifted by the exponent that is written behind an `e`. -/
def shift? (d : Decimal) : List Char → Option Decimal
  | '-' :: cs => do d.shiftRight? (← unsigned? cs)
  | cs => do d.shiftLeft? (← unsigned? cs)

/-- Reads a plain decimal, or one with an exponent. -/
def ofText? (cs : List Char) : Option Decimal :=
  match ofPlain? cs with
  | some d => some d
  | none =>
    let isMark := fun c => c == 'e' || c == 'E'
    match cs.dropWhile (!isMark ·) with
    | [] => none
    | _ :: exponent => do
      let base ← ofPlain? (cs.takeWhile (!isMark ·))
      base.shift? exponent

/-! ## Writing -/

/-- The digits, with the point before the last `scale` of them and at least one digit before it. -/
def render (d : Decimal) : String :=
  let digits := Nat.toDigits 10 d.coefficient
  let padded := List.replicate (d.scale + 1 - digits.length) '0' ++ digits
  let whole := padded.take (padded.length - d.scale)
  let fraction := padded.drop (padded.length - d.scale)
  let sign := if d.negative then ['-'] else []
  String.ofList (sign ++ whole ++ (if fraction.isEmpty then [] else '.' :: fraction))

example : (ofText? "1.50".toList).map render = some "1.50" := by decide +kernel
example : (ofText? "-.5".toList).map render = some "-0.5" := by decide +kernel
example : (ofText? "1.2.3".toList).map render = none := by decide +kernel
example : (ofText? "7.00000000000000000000000000005".toList).map render
    = some "7.0000000000000000000000000001" := by decide +kernel
example : (ofText? "7.00000000000000000000000000005.5".toList).map render = none := by
  decide +kernel
example : (ofText? "2.5e-28".toList).map render = some "0.0000000000000000000000000003" := by
  decide +kernel
example : (ofText? "-1.5e3".toList).map render = some "-1500" := by decide +kernel

end Decimal
end PipelineLang
