import PipelineLang.Text.JsonValue
import PipelineLang.Text.Quoted
import PipelineLang.Text.UriReference

/-!
# Decoding values

A decoder takes a JSON value apart and says why it cannot. The fields of a record are visited in
the order of their names and the first that is wrong is reported; only then is a field that is not
there, in the order of their declaration. Fields that are not known are passed over. A list of
values stands for a record as well, its fields in the order of their declaration.
-/

namespace PipelineLang.Server

/-- How a record is given: as a value of its own, or spread, with its fields among those of a
larger one. What is inside a spread record counts as spread too. -/
inductive Layout where
  | whole
  | spread
  deriving DecidableEq

/-- Why a value cannot be decoded. -/
inductive DecodeFault where
  | wrongType (found : JsonValue) (expected : String)
  | outOfRange (found : Int) (expected : String)
  | missingField (name : String)
  /-- A list has values beyond those of the `fields`. -/
  | tooLong (length fields : Nat) (layout : Layout)
  /-- A list ends before the field of the given index. -/
  | tooShort (index : Nat) (name : String) (fields : Nat)
  | unknownName (found : String) (names : List String)
  /-- An object stands for a name, and has not exactly one field. -/
  | manyNames
  /-- No alternative of the type `name` fits. -/
  | noAlternative (name : String)
  | uri (fault : UriFault)

/-- The kind of a value, with the value where it is short. -/
def describe : JsonValue → String
  | .null => "null"
  | .bool true => "boolean \x60true\x60"
  | .bool false => "boolean \x60false\x60"
  | .int n => "integer \x60" ++ toString n ++ "\x60"
  | .real x => "floating point \x60" ++ x.render ++ "\x60"
  | .str s => "string " ++ Quoted.encode s
  | .arr _ => "sequence"
  | .obj _ => "map"

/-- The number of elements, in words. -/
def countElements (n : Nat) : String := toString n ++ if n = 1 then " element" else " elements"

/-- The names to choose from: one, two with `or` between them, or a list. -/
def listNames (names : List String) : String :=
  match names.map fun name => "\x60" ++ name ++ "\x60" with
  | [a] => a
  | [a, b] => a ++ " or " ++ b
  | names => "one of " ++ String.intercalate ", " names

def DecodeFault.message : DecodeFault → String
  | .wrongType found expected => "invalid type: " ++ describe found ++ ", expected " ++ expected
  | .outOfRange found expected =>
    "invalid value: integer \x60" ++ toString found ++ "\x60, expected " ++ expected
  | .missingField name => "missing field \x60" ++ name ++ "\x60"
  | .tooLong length _ .whole =>
    "invalid length " ++ toString length ++ ", expected fewer elements in array"
  | .tooLong length fields .spread =>
    "invalid length " ++ toString length ++ ", expected " ++ countElements fields ++ " in sequence"
  | .tooShort index name fields =>
    "invalid length " ++ toString index ++ ", expected struct " ++ name ++ " with "
      ++ countElements fields
  | .unknownName found names =>
    "unknown variant \x60" ++ found ++ "\x60, expected " ++ listNames names
  | .manyNames => "invalid value: map, expected map with a single key"
  | .noAlternative name => "data did not match any variant of untagged enum " ++ name
  | .uri fault => fault.message

abbrev Decoded (α : Type) := Except DecodeFault α

namespace Decode

/-! ## Plain values -/

def anything (_ : JsonValue) : Decoded Unit := .ok ()

def text : JsonValue → Decoded String
  | .str s => .ok s
  | j => .error (.wrongType j "a string")

/-- A text that is a URI reference. -/
def uri (j : JsonValue) : Decoded String := do
  let s ← text j
  match UriReference.fault? s with
  | none => return s
  | some fault => .error (.uri fault)

def boolean : JsonValue → Decoded Bool
  | .bool b => .ok b
  | j => .error (.wrongType j "a boolean")

/-- A whole number from `least` up to `greatest`; `name` is the name of this type of numbers. -/
def integer (name : String) (least greatest : Int) : JsonValue → Decoded Int
  | .int n => if least ≤ n && n ≤ greatest then .ok n else .error (.outOfRange n name)
  | j => .error (.wrongType j name)

/-- A number of 64 bits. -/
def natural64 (name : String) (j : JsonValue) : Decoded Nat :=
  (integer name 0 18446744073709551615 j).map Int.toNat

/-- A number of 32 bits. -/
def natural32 (j : JsonValue) : Decoded Nat := (integer "u32" 0 4294967295 j).map Int.toNat

/-- A signed number of 32 bits. -/
def integer32 (j : JsonValue) : Decoded Int := integer "i32" (-2147483648) 2147483647 j

/-- A whole number or a text, to recognize something by. -/
def identifier (j : JsonValue) : Decoded JsonValue :=
  match integer32 j, j with
  | .ok _, _ | _, .str _ => .ok j
  | _, _ => .error (.noAlternative "NumberOrString")

/-- One of the names, which an object may give as its only field with the value null. -/
def oneOf (names : List String) : JsonValue → Decoded Unit
  | .str s => if names.contains s then .ok () else .error (.unknownName s names)
  | .obj [(name, content)] =>
    if !names.contains name then .error (.unknownName name names)
    else
      match content with
      | .null => .ok ()
      | j => .error (.wrongType j "unit")
  | .obj _ => .error .manyNames
  | j => .error (.wrongType j "string or map")

/-- The value where there is one, and none for null. -/
def optional {α : Type} (decode : JsonValue → Decoded α) : JsonValue → Decoded (Option α)
  | .null => .ok none
  | j => (decode j).map some

def list {α : Type} (decode : JsonValue → Decoded α) : JsonValue → Decoded (List α)
  | .arr items => items.mapM decode
  | j => .error (.wrongType j "a sequence")

/-- The fields of an object that has to be one; `name` is the name of its type. -/
def object (name : String) : JsonValue → Decoded (List (String × JsonValue))
  | .obj fields => .ok fields
  | j => .error (.wrongType j ("struct " ++ name))

end Decode

/-! ## Records -/

/-- Whether a field has to be given. One that is optional may be left out of an object, one that
has a default out of a list as well, where no field is given behind it. -/
inductive Presence where
  | required
  | optional
  | defaulted
  deriving DecidableEq

/-- A field of a record that is decoded to `α`. -/
structure Field (α : Type) where
  name : String
  presence : Presence
  /-- Takes the value of the field in. -/
  take : α → JsonValue → Decoded α

namespace Field

variable {α β : Type}

def required (name : String) (decode : JsonValue → Decoded β) (set : α → β → α) : Field α :=
  ⟨name, .required, fun a j => (decode j).map (set a)⟩

/-- A field that may be null. -/
def optional (name : String) (decode : JsonValue → Decoded β) (set : α → Option β → α) : Field α :=
  ⟨name, .optional, fun a j => (Decode.optional decode j).map (set a)⟩

def defaulted (name : String) (decode : JsonValue → Decoded β) (set : α → β → α) : Field α :=
  ⟨name, .defaulted, fun a j => (decode j).map (set a)⟩

end Field

/-- A type of records, with the value that the fields given are taken into. -/
structure Record (α : Type) where
  name : String
  fields : List (Field α)
  init : α

namespace Record

variable {α : Type}

/-- Takes in a field of the name given, if it is known. -/
def visit (r : Record α) (a : α) (given : String × JsonValue) : Decoded α :=
  match r.fields.find? (·.name == given.1) with
  | some field => field.take a given.2
  | none => .ok a

/-- Decodes a record from the fields of an object. -/
def ofFields (r : Record α) (given : List (String × JsonValue)) : Decoded α := do
  let a ← (given.mergeSort fun x y => x.1 ≤ y.1).foldlM r.visit r.init
  match r.fields.find? fun f => f.presence = .required && !given.any (·.1 == f.name) with
  | some field => .error (.missingField field.name)
  | none => return a

/-- Decodes a record from the values of its fields. -/
def ofItems (r : Record α) (layout : Layout) (items : List JsonValue) : Decoded α := do
  let a ← (r.fields.zip items).foldlM (fun a (field, j) => field.take a j) r.init
  match (r.fields.drop items.length).findIdx? (·.presence != .defaulted) with
  | some i => .error (.tooShort (items.length + i) r.name r.fields.length)
  | none =>
    if r.fields.length < items.length then
      .error (.tooLong items.length r.fields.length layout)
    else return a

def decode (r : Record α) (layout : Layout) : JsonValue → Decoded α
  | .obj given => r.ofFields given
  | .arr items => r.ofItems layout items
  | j => .error (.wrongType j ("struct " ++ r.name))

end Record
end PipelineLang.Server
