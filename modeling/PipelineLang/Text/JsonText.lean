import PipelineLang.Text.JsonValue

/-!
# JSON text

Values are written with one item or field on a line, indented by two blanks for each level; an
array or object without any stays on its line. In a string quotes, backslashes and controls are
escaped, and all other characters stand for themselves.
-/

namespace PipelineLang.JsonValue

/-- The character as it is written in a string. -/
def escape (c : Char) : List Char :=
  if c = '"' then ['\\', '"']
  else if c = '\\' then ['\\', '\\']
  else if c = '\n' then ['\\', 'n']
  else if c = '\r' then ['\\', 'r']
  else if c = '\t' then ['\\', 't']
  else if c = '\x08' then ['\\', 'b']
  else if c = '\x0c' then ['\\', 'f']
  else if c.toNat < 0x20 then
    ['\\', 'u', '0', '0', Nat.digitChar (c.toNat / 16), Nat.digitChar (c.toNat % 16)]
  else [c]

/-- The text as a string. -/
def quote (s : String) : String := String.ofList ('"' :: s.toList.flatMap escape ++ ['"'])

/-- A new line of the given level. -/
def lineBreak (level : Nat) : String := String.ofList ('\n' :: List.replicate (2 * level) ' ')

mutual

/-- The value as it is written at a level. -/
def renderAt (level : Nat) : JsonValue → String
  | .null => "null"
  | .bool b => if b then "true" else "false"
  | .int n => toString n
  | .real d => d.render
  | .str s => quote s
  | .arr [] => "[]"
  | .arr (v :: vs) => "[" ++ renderItems (level + 1) (v :: vs) ++ lineBreak level ++ "]"
  | .obj [] => "\x7b\x7d"
  | .obj (f :: fs) => "\x7b" ++ renderFields (level + 1) (f :: fs) ++ lineBreak level ++ "\x7d"

/-- The items, a comma between each two of them. -/
def renderItems (level : Nat) : List JsonValue → String
  | [] => ""
  | [v] => lineBreak level ++ renderAt level v
  | v :: w :: vs => lineBreak level ++ renderAt level v ++ "," ++ renderItems level (w :: vs)

/-- The fields, a comma between each two of them. -/
def renderFields (level : Nat) : List (String × JsonValue) → String
  | [] => ""
  | [(name, v)] => lineBreak level ++ quote name ++ ": " ++ renderAt level v
  | (name, v) :: f :: fs =>
    lineBreak level ++ quote name ++ ": " ++ renderAt level v ++ "," ++ renderFields level (f :: fs)

end

/-- The value as it is written on its own. -/
def render (j : JsonValue) : String := renderAt 0 j

end PipelineLang.JsonValue
