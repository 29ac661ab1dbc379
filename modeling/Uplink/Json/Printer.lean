import Uplink.Json.Value

/-! # Writing JSON

The compact form: no blanks, members in order, strings with only the escapes that the grammar
asks for, doubles in the fewest digits that read back. -/

namespace Uplink.Json

def decimalDigits (n : Nat) : List Nat :=
  if n < 10 then [n] else decimalDigits (n / 10) ++ [n % 10]
termination_by n

def digitChar (d : Nat) : Char :=
  if d < 10 then Char.ofNat (0x30 + d) else Char.ofNat (0x57 + d)

def renderNat (n : Nat) : List Char :=
  (decimalDigits n).map digitChar

/-- An integer in decimal, a minus sign in front of a negative one. -/
def renderInt (n : Int) : List Char :=
  if n < 0 then '-' :: renderNat n.natAbs else renderNat n.natAbs

/-- Where doubles are written with a point and no exponent: the decimal point falls at most
sixteen digits after the first digit, and at most four zeros before it. -/
def isPositional (point : Int) : Bool :=
  -5 < point && point ≤ 16

/-- Digits under a point or an exponent. `point` counts the digits before the decimal point. A
point always has a digit on either side, and an exponent always has its sign. -/
def renderScaled (digits : List Char) (point : Int) : List Char :=
  let zeros (n : Int) : List Char := List.replicate n.toNat '0'
  if isPositional point then
    if point ≤ 0 then '0' :: '.' :: zeros (-point) ++ digits
    else if digits.length ≤ point.toNat then
      digits ++ zeros (point - digits.length) ++ ['.', '0']
    else digits.take point.toNat ++ '.' :: digits.drop point.toNat
  else
    let exponent := point - 1
    let sign := if exponent < 0 then '-' else '+'
    let tail := if digits.length ≤ 1 then [] else '.' :: digits.drop 1
    digits.take 1 ++ tail ++ 'e' :: sign :: renderNat exponent.natAbs

/-- A double in the fewest digits that read back. -/
def renderFloat (x : Binary64) : List Char :=
  let magnitude :=
    if x.isZero then ['0', '.', '0']
    else
      let (d, power) := x.shortest
      let digits := renderNat d
      renderScaled digits (digits.length + power)
  if x.negative then '-' :: magnitude else magnitude

def Number.render : Number → List Char
  | .integer value _ => renderInt value
  | .float value => renderFloat value

/-- A character inside quotes: the quote, the backslash and the controls are escaped, those with
a short escape by it, all else stands for itself. -/
def renderChar (c : Char) : List Char :=
  if c = '"' then ['\\', '"']
  else if c = '\\' then ['\\', '\\']
  else if c = '\x08' then ['\\', 'b']
  else if c = '\x0C' then ['\\', 'f']
  else if c = '\n' then ['\\', 'n']
  else if c = '\r' then ['\\', 'r']
  else if c = '\t' then ['\\', 't']
  else if c.toNat < 0x20 then
    ['\\', 'u', '0', '0', digitChar (c.toNat / 0x10), digitChar (c.toNat % 0x10)]
  else [c]

def renderString (s : String) : List Char :=
  '"' :: s.toList.flatMap renderChar ++ ['"']

mutual

def render : Json → List Char
  | .null => ['n', 'u', 'l', 'l']
  | .bool true => ['t', 'r', 'u', 'e']
  | .bool false => ['f', 'a', 'l', 's', 'e']
  | .number n => n.render
  | .string s => renderString s
  | .array items => '[' :: renderItems items ++ [']']
  | .object members => '{' :: renderMembers members ++ ['}']

def renderItems : List Json → List Char
  | [] => []
  | [item] => render item
  | item :: rest => render item ++ ',' :: renderItems rest

def renderMembers : List (String × Json) → List Char
  | [] => []
  | [(name, value)] => renderString name ++ ':' :: render value
  | (name, value) :: rest =>
    renderString name ++ ':' :: render value ++ ',' :: renderMembers rest

end

def compact (value : Json) : String :=
  String.ofList (render value)

end Uplink.Json
