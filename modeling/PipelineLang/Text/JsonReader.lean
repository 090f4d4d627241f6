import PipelineLang.Text.JsonValue

/-!
# Reading JSON

A message arrives as JSON text. Reading it gives its value, or nothing if the text is not JSON; a
part of it is read together with the text behind the part. A number is whole if it is written
without a fraction and without an exponent and takes at most 64 bits; any other is a binary one. Of
the fields of an object that have one name the last counts.
-/

namespace PipelineLang

namespace JsonReader

def isBlank (c : Char) : Bool := c == ' ' || c == '\t' || c == '\n' || c == '\r'

def skipBlanks (cs : List Char) : List Char := cs.dropWhile isBlank

/-! ## Numbers -/

/-- The least number that takes more than 64 bits. -/
def wordLimit : Nat := 18446744073709551616

/-- The number that the first digits stand for, as many as fit into 64 bits, and the power of ten
that the others leave it to be multiplied with. -/
structure Digits where
  value : Nat
  exponent : Int
  /-- Whether a digit did not fit. -/
  full : Bool

def digitValue (c : Char) : Nat := c.toNat - '0'.toNat

/-- Takes in a digit before the point; one that does not fit raises the exponent, as do all behind
it. -/
def Digits.whole (d : Digits) (c : Char) : Digits :=
  let next := 10 * d.value + digitValue c
  if d.full || wordLimit ≤ next then ⟨d.value, d.exponent + 1, true⟩ else ⟨next, d.exponent, false⟩

/-- Takes in a digit behind the point; one that does not fit is dropped, as are all behind it. -/
def Digits.fraction (d : Digits) (c : Char) : Digits :=
  let next := 10 * d.value + digitValue c
  if d.full || wordLimit ≤ next then { d with full := true } else ⟨next, d.exponent - 1, false⟩

/-- The binary number nearest to a power of ten, if there is one. -/
def powerOfTen? (n : Nat) : Option Binary64 := Binary64.ofRatio? false (Nat.pow 10 n) 1

/-- Divides by powers of ten in steps that a binary number can make, as many as are given. -/
def divideByTens : Nat → Binary64 → Nat → Option Binary64
  | 0, x, _ => some { x with significand := 0 }
  | steps + 1, x, n =>
    if n ≤ 308 then do x.div? (← powerOfTen? n)
    else do divideByTens steps (← x.div? (← powerOfTen? 308)) (n - 308)

/-- The digits with their exponent as a binary number, rounded first to one and then, by a power of
ten, to another; nothing if it is too great. -/
def Digits.toBinary? (negative : Bool) (d : Digits) : Option Binary64 := do
  let x ← Binary64.ofRatio? negative d.value 1
  if x.significand = 0 then some x
  else if 0 ≤ d.exponent then
    if d.exponent ≤ 308 then x.mul? (← powerOfTen? d.exponent.toNat) else none
  else divideByTens 3 x (-d.exponent).toNat

/-- Reads the exponent, if there is one: its sign, if it has one, and at least one digit. -/
def exponent (cs : List Char) : Option (Option Int × List Char) :=
  match cs with
  | [] => some (none, [])
  | c :: cs =>
    if c == 'e' || c == 'E' then
      let (negative, cs) :=
        match cs with
        | '-' :: cs => (true, cs)
        | '+' :: cs => (false, cs)
        | cs => (false, cs)
      let ds := cs.takeWhile Char.isDigit
      let n := ds.foldl (fun n c => 10 * n + digitValue c) 0
      if ds.isEmpty then none
      else some (some (if negative then -(n : Int) else n), cs.dropWhile Char.isDigit)
    else some (none, c :: cs)

/-- Reads the fraction, if there is one: a point and at least one digit. -/
def fraction (cs : List Char) : Option (Option (List Char) × List Char) :=
  match cs with
  | '.' :: cs =>
    let ds := cs.takeWhile Char.isDigit
    if ds.isEmpty then none else some (some ds, cs.dropWhile Char.isDigit)
  | cs => some (none, cs)

/-- The whole number that the digits stand for, if it takes at most 64 bits. A zero with a sign is
not whole. -/
def whole? (negative : Bool) (ds : List Char) : Option Int :=
  let n : Int := ds.foldl (fun n c => 10 * n + digitValue c) 0
  if negative then if 0 < n && n ≤ 9223372036854775808 then some (-n) else none
  else if n < wordLimit then some n else none

/-- Reads a number; a zero is the only digit before the point that others may not follow. -/
def number (cs : List Char) : Option (JsonValue × List Char) := do
  let (negative, cs) :=
    match cs with
    | '-' :: cs => (true, cs)
    | cs => (false, cs)
  let ds := cs.takeWhile Char.isDigit
  if ds.isEmpty || (ds.head? == some '0' && ds.length != 1) then none
  else
    let (part, cs) ← fraction (cs.dropWhile Char.isDigit)
    let (power, cs) ← exponent cs
    let given := if part.isNone && power.isNone then whole? negative ds else none
    match given with
    | some n => return (.int n, cs)
    | none =>
      let d := ds.foldl Digits.whole ⟨0, 0, false⟩
      let d := (part.getD []).foldl Digits.fraction { d with full := false }
      let d := { d with exponent := d.exponent + power.getD 0 }
      return (.real (← d.toBinary? negative), cs)

/-! ## Strings -/

def hexValue? (c : Char) : Option Nat :=
  if c.isDigit then some (c.toNat - '0'.toNat)
  else if 'a' ≤ c && c ≤ 'f' then some (c.toNat - 'a'.toNat + 10)
  else if 'A' ≤ c && c ≤ 'F' then some (c.toNat - 'A'.toNat + 10)
  else none

/-- The number of four hexadecimal digits. -/
def unit? (a b c d : Char) : Option Nat := do
  return 4096 * (← hexValue? a) + 256 * (← hexValue? b) + 16 * (← hexValue? c) + (← hexValue? d)

/-- The character that the one behind a backslash stands for. -/
def escaped? : Char → Option Char
  | '"' => some '"'
  | '\\' => some '\\'
  | '/' => some '/'
  | 'b' => some '\x08'
  | 'f' => some '\x0c'
  | 'n' => some '\n'
  | 'r' => some '\r'
  | 't' => some '\t'
  | _ => none

def isHighHalf (n : Nat) : Bool := 0xD800 ≤ n && n ≤ 0xDBFF

def isLowHalf (n : Nat) : Bool := 0xDC00 ≤ n && n ≤ 0xDFFF

/-- The character beyond the first plane that two halves stand for. -/
def joinHalves (high low : Nat) : Char :=
  Char.ofNat (0x10000 + 0x400 * (high - 0xD800) + (low - 0xDC00))

/-- Reads a string behind its first quote; `read` holds its characters so far, the last one first.
A half of a character has to be followed by the other one. -/
def string (read : List Char) : List Char → Option (String × List Char)
  | [] => none
  | '"' :: cs => some (String.ofList read.reverse, cs)
  | '\\' :: 'u' :: a :: b :: c :: d :: cs => do
    let n ← unit? a b c d
    if isHighHalf n then
      match cs with
      | '\\' :: 'u' :: a :: b :: c :: d :: cs => do
        let low ← unit? a b c d
        if isLowHalf low then string (joinHalves n low :: read) cs else none
      | _ => none
    else if isLowHalf n then none
    else string (Char.ofNat n :: read) cs
  | '\\' :: c :: cs => do string ((← escaped? c) :: read) cs
  | c :: cs => if c == '\\' || c.toNat < 0x20 then none else string (c :: read) cs

/-! ## Values -/

/-- The fields with another one, which takes the place of an earlier one of its name. -/
def put (name : String) (value : JsonValue) :
    List (String × JsonValue) → List (String × JsonValue)
  | [] => [(name, value)]
  | field :: fields =>
    if field.1 = name then (name, value) :: fields else field :: put name value fields

/-- Leaves the text behind the given one. -/
def expect : List Char → List Char → Option (List Char)
  | [], cs => some cs
  | _ :: _, [] => none
  | e :: es, c :: cs => if e = c then expect es cs else none

def word (text : String) (value : JsonValue) (cs : List Char) : Option (JsonValue × List Char) :=
  (expect text.toList cs).map fun rest => (value, rest)

mutual

/-- Reads a value, with at most `depth` steps to its parts. -/
def value : Nat → List Char → Option (JsonValue × List Char)
  | 0, _ => none
  | depth + 1, cs =>
    match skipBlanks cs with
    | '[' :: cs =>
      match skipBlanks cs with
      | ']' :: cs => some (.arr [], cs)
      | cs => items depth [] cs
    | '\x7b' :: cs =>
      match skipBlanks cs with
      | '\x7d' :: cs => some (.obj [], cs)
      | cs => members depth [] cs
    | '"' :: cs => (string [] cs).map fun (s, rest) => (.str s, rest)
    | 'n' :: cs => word "ull" .null cs
    | 't' :: cs => word "rue" (.bool true) cs
    | 'f' :: cs => word "alse" (.bool false) cs
    | cs => number cs

/-- Reads the items of an array from one on; `read` holds those before it, the last one first. -/
def items : Nat → List JsonValue → List Char → Option (JsonValue × List Char)
  | 0, _, _ => none
  | depth + 1, read, cs => do
    let (v, rest) ← value depth cs
    match skipBlanks rest with
    | ',' :: rest => items depth (v :: read) rest
    | ']' :: rest => some (.arr (v :: read).reverse, rest)
    | _ => none

/-- Reads the fields of an object from one on; `read` holds those before it. -/
def members : Nat → List (String × JsonValue) → List Char → Option (JsonValue × List Char)
  | 0, _, _ => none
  | depth + 1, read, cs =>
    match skipBlanks cs with
    | '"' :: cs => do
      let (name, rest) ← string [] cs
      match skipBlanks rest with
      | ':' :: rest =>
        let (v, rest) ← value depth rest
        match skipBlanks rest with
        | ',' :: rest => members depth (put name v read) rest
        | '\x7d' :: rest => some (.obj (put name v read), rest)
        | _ => none
      | _ => none
    | _ => none

end

end JsonReader

/-- The value of a JSON text. Each step to a part of a value takes a character, or follows one that
did, so that two steps for each character are enough. -/
def JsonValue.ofText? (text : String) : Option JsonValue :=
  let cs := text.toList
  match JsonReader.value (2 * cs.length + 2) cs with
  | some (v, rest) => if (JsonReader.skipBlanks rest).isEmpty then some v else none
  | none => none

end PipelineLang
