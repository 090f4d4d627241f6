import PipelineLang.Text.Binary64

/-!
# JSON values

Values as they are exchanged with an editor. Whole numbers are told from binary ones; the fields of
an object stand in the order given, and `field?` finds the last of a name.
-/

namespace PipelineLang

inductive JsonValue where
  | null
  | bool (value : Bool)
  | int (value : Int)
  /-- A number with a fraction or an exponent, or one that is too great for 64 bits. -/
  | real (value : Binary64)
  | str (value : String)
  | arr (items : List JsonValue)
  | obj (fields : List (String × JsonValue))
  deriving Inhabited

namespace JsonValue

def nat (n : Nat) : JsonValue := .int n

/-- The value of the field, in an object. -/
def field? (j : JsonValue) (name : String) : Option JsonValue :=
  match j with
  | .obj fields => (fields.reverse.find? (·.1 == name)).map (·.2)
  | _ => none

def ofOption {α : Type} (f : α → JsonValue) : Option α → JsonValue
  | none => .null
  | some a => f a

def ofList {α : Type} (f : α → JsonValue) (as : List α) : JsonValue := .arr (as.map f)

end JsonValue
end PipelineLang
