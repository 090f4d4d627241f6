import PipelineLang.Program.Basic
import PipelineLang.Text.JsonValue

/-!
# Configuration values from JSON

A configuration value is given as an object with one field, whose name tells its kind. A number is
given as a text, which may have an exponent, or as a JSON number.
-/

namespace PipelineLang

/-- The decimal that has the digits of a binary number. -/
def Decimal.ofBinary? (x : Binary64) : Option Decimal :=
  let (n, power) := x.digits
  let plain : Decimal :=
    if power < 0 then ⟨x.negative, n, power.natAbs⟩
    else ⟨x.negative, n * Nat.pow 10 power.natAbs, 0⟩
  ofPlain? plain.render.toList

def Decimal.ofJson? : JsonValue → Option Decimal
  | .str s => ofText? s.toList
  | .int n => some ⟨n < 0, n.natAbs, 0⟩
  | .real x => ofBinary? x
  | _ => none

namespace ConfigValue

/-- An environment variable; null stands for no fallback. -/
def environment? (name fallback : JsonValue) : Option ConfigValue :=
  match name, fallback with
  | .str name, .null => some (.environment name none)
  | .str name, .str fallback => some (.environment name (some fallback))
  | _, _ => none

/-- The value that the JSON value stands for. What belongs to an environment variable is given by
fields, of which the fallback may be left out, or as a list. -/
def ofJson? : JsonValue → Option ConfigValue
  | .obj [(kind, j)] =>
    match kind, j with
    | "String", .str s => some (.text s)
    | "Boolean", .bool b => some (.boolean b)
    | "Number", j => (Decimal.ofJson? j).map .number
    | "EnvVar", .arr [name, fallback] => environment? name fallback
    | "EnvVar", .obj fields =>
      environment? (((JsonValue.obj fields).field? "var").getD .null)
        (((JsonValue.obj fields).field? "default").getD .null)
    | _, _ => none
  | _ => none

end ConfigValue
end PipelineLang
