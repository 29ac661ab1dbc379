/-! # URIs

What a URI has to look like, and who is meant by it. A URI is a path alone, an authority alone, or
a scheme with an authority and perhaps a path. A fragment is not looked at and not kept. -/

namespace Uplink

/-- A URI taken apart. The path has the query with it. -/
structure Uri where
  scheme : Option (List Char)
  authority : List Char
  path : List Char
deriving DecidableEq

namespace Uri

def within (low high c : Char) : Bool :=
  low ≤ c && c ≤ high

def isDigit (c : Char) : Bool :=
  within '0' '9' c

def isLetter (c : Char) : Bool :=
  within 'a' 'z' c || within 'A' 'Z' c

def isSchemeChar (c : Char) : Bool :=
  isLetter c || isDigit c || "+-.".toList.contains c

/-- What an authority is made of, the percent sign apart. -/
def isAuthorityChar (c : Char) : Bool :=
  isLetter c || isDigit c || "!$&'()*+,-.:;=@[]_~".toList.contains c

/-- What a path is made of. The quote and the braces are let through. -/
def isPathChar (c : Char) : Bool :=
  c = '!' || within '$' ';' c || c = '=' || within '@' '_' c || within 'a' '~' c || c = '"'

/-- What a query is made of. -/
def isQueryChar (c : Char) : Bool :=
  c = '!' || within '$' ';' c || c = '=' || within '?' '~' c

def endsAuthority (c : Char) : Bool :=
  c = '/' || c = '?' || c = '#'

/-- The longest URI, in octets. -/
def maxLength : Nat := 65534

def maxSchemeLength : Nat := 64

/-! ## Authorities -/

def maxColons : Nat := 8

/-- What a scan of an authority remembers. User information in front of an `@` and an address in
brackets may hold colons and percent signs; what comes after them starts to count anew. -/
structure AuthorityScan where
  colons : Nat
  opened : Bool
  closed : Bool
  percent : Bool
  /-- Whether the latest character was an `@`. -/
  atSign : Bool

def AuthorityScan.start : AuthorityScan :=
  ⟨0, false, false, false, false⟩

/-- Scans one character, unless it cannot stand there. -/
def AuthorityScan.step (s : AuthorityScan) (c : Char) : Option AuthorityScan :=
  let s' := { s with atSign := c = '@' }
  if c = ':' then
    if maxColons ≤ s.colons then none else some { s' with colons := s.colons + 1 }
  else if c = '[' then
    if s.percent || s.opened then none else some { s' with opened := true }
  else if c = ']' then
    if !s.opened || s.closed then none
    else some { s' with closed := true, colons := 0, percent := false }
  else if c = '@' then some { s' with colons := 0, percent := false }
  else if c = '%' then some { s' with percent := true }
  else if isAuthorityChar c then some s'
  else none

/-- Whether an authority may end here. -/
def AuthorityScan.isDone (s : AuthorityScan) : Bool :=
  s.opened == s.closed && s.colons ≤ 1 && !s.atSign && !s.percent

/-- Whether characters make an authority. None at all do. -/
def isAuthority (cs : List Char) : Bool :=
  match cs.foldlM AuthorityScan.step AuthorityScan.start with
  | some s => s.isDone
  | none => false

/-! ## Paths -/

/-- Whether characters make a path, with or without a query. -/
def isPath (cs : List Char) : Bool :=
  let path := cs.takeWhile (· ≠ '?')
  let query := (cs.dropWhile (· ≠ '?')).drop 1
  path.all isPathChar && query.all isQueryChar

/-- What stands in front of a fragment. -/
def dropFragment (cs : List Char) : List Char :=
  cs.takeWhile (· ≠ '#')

/-! ## The whole -/

/-- A scheme at the front, if there is one, and what follows it. -/
def splitScheme (cs : List Char) : Option (List Char) × List Char :=
  match cs.dropWhile isSchemeChar with
  | ':' :: '/' :: '/' :: rest => (some (cs.takeWhile isSchemeChar), rest)
  | _ => (none, cs)

def ofChars? (cs : List Char) : Option Uri :=
  match cs with
  | [] => none
  | ['*'] => some ⟨none, [], ['*']⟩
  | '/' :: _ =>
    let path := dropFragment cs
    if isPath path then some ⟨none, [], path⟩ else none
  | _ =>
    match splitScheme cs with
    | (none, _) =>
      if isAuthority cs && !cs.any endsAuthority then some ⟨none, cs, []⟩ else none
    | (some scheme, rest) =>
      let authority := rest.takeWhile (!endsAuthority ·)
      let path := dropFragment (rest.dropWhile (!endsAuthority ·))
      if scheme.length ≤ maxSchemeLength && !authority.isEmpty && isAuthority authority
        && isPath path
      then some ⟨some scheme, authority, path⟩
      else none

def parse? (text : String) : Option Uri :=
  if maxLength < text.utf8ByteSize then none else ofChars? text.toList

/-! ## Hosts and ports -/

/-- What follows the last character of a kind, or everything when there is none. -/
def afterLast (c : Char) (cs : List Char) : List Char :=
  (cs.reverse.takeWhile (· ≠ c)).reverse

/-- The characters up to the first of a kind, that one included. -/
def through (c : Char) (cs : List Char) : List Char :=
  cs.takeWhile (· ≠ c) ++ (cs.dropWhile (· ≠ c)).take 1

/-- The host of an authority: an address with its brackets, or everything in front of a colon. -/
def hostOf (authority : List Char) : List Char :=
  let place := afterLast '@' authority
  if place.head? = some '[' then through ']' place else place.takeWhile (· ≠ ':')

def portText? (authority : List Char) : Option (List Char) :=
  if authority.contains ':' then some (afterLast ':' authority) else none

def decimalValue (digits : List Char) : Nat :=
  digits.foldl (fun n c => n * 10 + (c.toNat - '0'.toNat)) 0

/-- The number of sixteen bits that a text spells; a plus sign may stand in front. -/
def word16? (text : List Char) : Option UInt16 :=
  let digits := match text with
    | '+' :: digits => digits
    | digits => digits
  if !digits.isEmpty && digits.all isDigit && decimalValue digits < 0x10000 then
    some (decimalValue digits).toUInt16
  else none

def portOf? (authority : List Char) : Option UInt16 :=
  portText? authority >>= word16?

end Uri

end Uplink
