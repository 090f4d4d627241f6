import PipelineLang.Text.Invisible

/-!
# Quoted texts in messages

A text is quoted in a message so that each character of it can be seen: quotes, backslashes,
line ends and tabs by a backslash, other characters that show nothing by their code point.
-/

namespace PipelineLang.Quoted

/-- The character as it is written between quotes. -/
def encodeChar (c : Char) : List Char :=
  if c = '"' then ['\\', '"']
  else if c = '\\' then ['\\', '\\']
  else if c = '\n' then ['\\', 'n']
  else if c = '\r' then ['\\', 'r']
  else if c = '\t' then ['\\', 't']
  else if c = '\x00' then ['\\', '0']
  else if Invisible.isInvisible c then ['\\', 'u', '\x7b'] ++ Nat.toDigits 16 c.toNat ++ ['\x7d']
  else [c]

/-- The text between quotes. -/
def encode (s : String) : String := String.ofList ('"' :: s.toList.flatMap encodeChar ++ ['"'])

end PipelineLang.Quoted
