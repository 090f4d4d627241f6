/-!
# URI references

A document is named by a URI reference: a path, with a scheme and an authority before it and a
query and a fragment behind it where they are given. Everything in one is ASCII, and other
characters are written as octets, a percent sign with two hexadecimal digits. A text that is not a
reference is refused with the place where it stops to be one.
-/

namespace PipelineLang

/-- Why a text is no URI reference, with the number of characters before the place that shows it. -/
inductive UriFault where
  | character (index : Nat)
  | octet (index : Nat)
  | ipLiteral (index : Nat)
  deriving DecidableEq

def UriFault.message : UriFault → String
  | .character i => "unexpected character at index " ++ toString i
  | .octet i => "invalid percent-encoded octet at index " ++ toString i
  | .ipLiteral i => "invalid IP literal at index " ++ toString i

namespace UriReference

/-! ## Characters -/

def isHexDigit (c : Char) : Bool :=
  c.isDigit || ('a' ≤ c && c ≤ 'f') || ('A' ≤ c && c ≤ 'F')

def isSchemeChar (c : Char) : Bool := c.isAlphanum || c == '+' || c == '-' || c == '.'

/-- A character of a host name: one that is not reserved, or a delimiter inside a component. -/
def isNameChar (c : Char) : Bool := c.isAlphanum || "-._~!$&'()*+,;=".toList.contains c

/-- A character of a first segment that might be taken for a scheme. -/
def isFirstSegmentChar (c : Char) : Bool := isNameChar c || c == '@'

/-- A character of an authority: of a user, or of a host with its port. -/
def isAuthorityChar (c : Char) : Bool := isNameChar c || c == ':'

def isPathChar (c : Char) : Bool := isFirstSegmentChar c || c == ':' || c == '/'

/-- A character of a query or of a fragment. -/
def isQueryChar (c : Char) : Bool := isPathChar c || c == '?'

/-! ## Addresses -/

/-- The parts between separators. -/
def split (separator : Char) : List Char → List (List Char)
  | [] => [[]]
  | c :: cs =>
    if c = separator then [] :: split separator cs
    else
      match split separator cs with
      | [] => [[c]]
      | part :: parts => (c :: part) :: parts

/-- A number below 256, without a zero before it. -/
def isByte (cs : List Char) : Bool :=
  !cs.isEmpty && cs.length ≤ 3 && cs.all Char.isDigit && (cs.head? != some '0' || cs.length == 1)
    && cs.foldl (fun n c => 10 * n + (c.toNat - '0'.toNat)) 0 < 256

/-- Four bytes with a dot between each two. -/
def isIpv4 (cs : List Char) : Bool :=
  let parts := split '.' cs
  parts.length == 4 && parts.all isByte

/-- A group of one to four hexadecimal digits. -/
def isGroup (cs : List Char) : Bool := !cs.isEmpty && cs.length ≤ 4 && cs.all isHexDigit

/-- How many groups the parts stand for; an address of four bytes at their end stands for two. -/
def width? : List (List Char) → Option Nat
  | [] => some 0
  | [part] => if isGroup part then some 1 else if isIpv4 part then some 2 else none
  | part :: parts => if isGroup part then (width? parts).map (· + 1) else none

/-- The groups of a part of an address. -/
def groups (cs : List Char) : List (List Char) := if cs.isEmpty then [] else split ':' cs

/-- The text before the first double colon, and the text behind it if there is one. -/
def splitElision : List Char → List Char × Option (List Char)
  | ':' :: ':' :: cs => ([], some cs)
  | c :: cs =>
    let (before, behind) := splitElision cs
    (c :: before, behind)
  | [] => ([], none)

/-- Eight groups, or fewer with a double colon that stands for the others. -/
def isIpv6 (cs : List Char) : Bool :=
  match splitElision cs with
  | (all, none) => width? (groups all) == some 8
  | (before, some behind) =>
    (groups before).all isGroup
      && (width? (groups behind)).any fun n => (groups before).length + n ≤ 7

/-! ## Components -/

/-- Where reading stops for good: the kind of fault, from its index, and the text from there. -/
structure Stop where
  fault : Nat → UriFault
  rest : List Char

/-- Reading a component leaves the text behind it. -/
abbrev Reading := Except Stop (List Char)

/-- Reads characters that are allowed, and octets. -/
def component (allowed : Char → Bool) : List Char → Reading
  | [] => .ok []
  | '%' :: a :: b :: cs =>
    if isHexDigit a && isHexDigit b then component allowed cs
    else .error ⟨.octet, '%' :: a :: b :: cs⟩
  | c :: cs =>
    if c = '%' then .error ⟨.octet, c :: cs⟩
    else if allowed c then component allowed cs
    else .ok (c :: cs)

/-- Reads a component that its mark introduces, if it is there. -/
def marked (mark : Char) : List Char → Reading
  | [] => .ok []
  | c :: cs => if c = mark then component isQueryChar cs else .ok (c :: cs)

/-- Reads a query and a fragment, with which the reference has to end. -/
def ending (cs : List Char) : Except Stop Unit := do
  match ← marked '#' (← marked '?' cs) with
  | [] => return
  | rest => .error ⟨.character, rest⟩

/-- Reads a path and what is behind it. -/
def path (cs : List Char) : Except Stop Unit := do ending (← component isPathChar cs)

/-- Reads what is behind an authority; a path there starts with a slash. -/
def behindAuthority (cs : List Char) : Except Stop Unit :=
  if cs.head? = some '/' then path cs else ending cs

/-- Reads a path without a scheme; there is no colon in its first segment. -/
def relativePath (cs : List Char) : Except Stop Unit := do
  let rest ← component isFirstSegmentChar cs
  if rest.head? = some ':' then .error ⟨.character, rest⟩ else path rest

/-- Leaves the text behind a port, if there is one. -/
def afterPort : List Char → List Char
  | ':' :: cs => cs.dropWhile Char.isDigit
  | cs => cs

/-- Reads an address in brackets. -/
def ipLiteral (cs : List Char) : Reading :=
  match (cs.drop 1).dropWhile (· != ']') with
  | ']' :: rest =>
    if isIpv6 ((cs.drop 1).takeWhile (· != ']')) then .ok rest else .error ⟨.ipLiteral, cs⟩
  | _ => .error ⟨.ipLiteral, cs⟩

/-- Reads a host: an address in brackets, or a name. -/
def host (cs : List Char) : Reading :=
  if cs.head? = some '[' then ipLiteral cs else component isNameChar cs

/-- Checks the host and the port in an authority that has no user, `rest` being the text behind it:
behind a colon there are digits alone, and there is no second colon. -/
def hostAndPort (authority rest : List Char) : Except Stop Unit :=
  let fromColon := authority.dropWhile (· != ':')
  match authority.count ':' with
  | 0 => .ok ()
  | 1 =>
    match (fromColon.drop 1).reverse.dropWhile Char.isDigit with
    | [] => .ok ()
    | _ :: before => .error ⟨.character, fromColon.drop (before.length + 1) ++ rest⟩
  | _ => .error ⟨.character, fromColon ++ rest⟩

/-- Reads an authority and what is behind it. -/
def authority (cs : List Char) : Except Stop Unit := do
  match ← component isAuthorityChar cs with
  | '@' :: rest => behindAuthority (afterPort (← host rest))
  | rest =>
    let read := cs.take (cs.length - rest.length)
    if read.isEmpty && cs.head? = some '[' then behindAuthority (afterPort (← ipLiteral cs))
    else
      hostAndPort read rest
      behindAuthority rest

/-- Reads a reference. -/
def reference (cs : List Char) : Except Stop Unit :=
  match cs.dropWhile isSchemeChar with
  | ':' :: rest =>
    if cs.head?.any Char.isAlpha then
      match rest with
      | '/' :: '/' :: rest => authority rest
      | rest => path rest
    else .error ⟨.character, cs⟩
  | _ =>
    match cs with
    | '/' :: '/' :: rest => authority rest
    | cs => relativePath cs

/-- The first fault of the text, if it is no reference. -/
def fault? (text : String) : Option UriFault :=
  match reference text.toList with
  | .ok () => none
  | .error stop => some (stop.fault (text.length - stop.rest.length))

example : fault? "file:///a.wp" = none := by decide +kernel
example : fault? "file:///%4" = some (.octet 8) := by decide +kernel
example : fault? "http://[::1" = some (.ipLiteral 7) := by decide +kernel
example : fault? "a b" = some (.character 1) := by decide +kernel
example : fault? "1:2" = some (.character 0) := by decide +kernel

end UriReference
end PipelineLang
