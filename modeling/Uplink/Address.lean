import Uplink.Uri

/-! # Addresses

Addresses of version 4 and 6 as they are written. A version 4 address has four decimal parts
without leading zeros. A version 6 address has eight parts in base sixteen; one row of zero parts
may be left out, and the last two parts may be a version 4 address. -/

namespace Uplink

inductive Address
  | v4 (a b c d : UInt8)
  | v6 (groups : List UInt16)
deriving DecidableEq

namespace Address

/-! ## Reading -/

/-- The parts of a text between the characters of a kind. -/
def splitAt (c : Char) (cs : List Char) : List (List Char) :=
  cs.splitOn c

/-- A part of a version 4 address. -/
def part? (cs : List Char) : Option UInt8 :=
  if cs.isEmpty || 3 < cs.length || !cs.all Uri.isDigit then none
  else if cs.head? = some '0' && cs.length ≠ 1 then none
  else if 255 < Uri.decimalValue cs then none
  else some (Uri.decimalValue cs).toUInt8

/-- The version 4 address that a text spells. -/
def parseV4? (cs : List Char) : Option (UInt8 × UInt8 × UInt8 × UInt8) :=
  match (splitAt '.' cs).mapM part? with
  | some [a, b, c, d] => some (a, b, c, d)
  | _ => none

def hexDigit? (c : Char) : Option Nat :=
  if Uri.isDigit c then some (c.toNat - '0'.toNat)
  else if Uri.within 'a' 'f' c then some (c.toNat - 'a'.toNat + 10)
  else if Uri.within 'A' 'F' c then some (c.toNat - 'A'.toNat + 10)
  else none

def group? (cs : List Char) : Option UInt16 :=
  if cs.isEmpty || 4 < cs.length then none
  else (cs.mapM hexDigit?).map fun digits => (digits.foldl (fun n d => n * 16 + d) 0).toUInt16

def pairGroup (a b : UInt8) : UInt16 :=
  a.toUInt16 * 256 + b.toUInt16

/-- The parts that texts spell; the last text may be a version 4 address where `mixed` allows. -/
def groups? (mixed : Bool) : List (List Char) → Option (List UInt16)
  | [] => some []
  | [cs] =>
    match group? cs with
    | some g => some [g]
    | none =>
      if mixed then (parseV4? cs).map fun (a, b, c, d) => [pairGroup a b, pairGroup c d] else none
  | cs :: rest => do
    let g ← group? cs
    let gs ← groups? mixed rest
    some (g :: gs)

/-- The parts that a row of texts between colons spells. An empty text has none. -/
def row? (mixed : Bool) (cs : List Char) : Option (List UInt16) :=
  if cs.isEmpty then some [] else groups? mixed (splitAt ':' cs)

/-- Where a text has two colons in a row: what stands before and after the first such place. -/
def splitGap : List Char → Option (List Char × List Char)
  | ':' :: ':' :: rest => some ([], rest)
  | c :: rest => (splitGap rest).map fun (before, after) => (c :: before, after)
  | [] => none

/-- The version 6 address that a text spells. A gap stands for one part at least. -/
def parseV6? (cs : List Char) : Option (List UInt16) :=
  match splitGap cs with
  | none => (row? true cs).filter (·.length = 8)
  | some (before, after) =>
    match row? false before, row? true after with
    | some front, some back =>
      if front.length + back.length ≤ 7 then
        some (front ++ List.replicate (8 - front.length - back.length) 0 ++ back)
      else none
    | _, _ => none

/-- The address that a text spells, if it is one. -/
def ofChars? (cs : List Char) : Option Address :=
  match parseV4? cs with
  | some (a, b, c, d) => some (.v4 a b c d)
  | none => (parseV6? cs).map .v6

/-! ## Writing -/

def renderV4 (a b c d : UInt8) : String :=
  ".".intercalate ([a, b, c, d].map fun part => Nat.repr part.toNat)

/-- A part as text: digits in base sixteen, small letters, no leading zero. -/
def renderGroup (g : UInt16) : String :=
  String.ofList (Nat.toDigits 16 g.toNat)

def renderRow (gs : List UInt16) : String :=
  ":".intercalate (gs.map renderGroup)

def leadingZeros (gs : List UInt16) : Nat :=
  (gs.takeWhile (· = 0)).length

/-- Where the longest row of zero parts begins and how long it is; of equal ones the first. -/
def longestZeros (gs : List UInt16) : Nat × Nat :=
  (List.range gs.length).foldl
    (fun best i =>
      let n := leadingZeros (gs.drop i)
      if best.2 < n then (i, n) else best)
    (0, 0)

/-- A version 6 address as text. A version 4 address mapped into it is written as such, and else
the longest row of two or more zero parts is left out. -/
def renderV6 (gs : List UInt16) : String :=
  match gs with
  | [0, 0, 0, 0, 0, 0xFFFF, x, y] =>
    "::ffff:" ++ renderV4 (x / 256).toUInt8 x.toUInt8 (y / 256).toUInt8 y.toUInt8
  | _ =>
    let (start, count) := longestZeros gs
    if 2 ≤ count then renderRow (gs.take start) ++ "::" ++ renderRow (gs.drop (start + count))
    else renderRow gs

def render : Address → String
  | .v4 a b c d => renderV4 a b c d
  | .v6 groups => renderV6 groups

end Address

end Uplink
