import Uplink.Json.Token
import Uplink.Binary64

/-! # The value of a number literal

A literal without point and exponent is an integer when it fits sixty-four bits, signed or not.
Every other literal is a double: its leading digits make an integer below `2 ^ 64`, further ones
only count as places, and one multiplication or division by a power of ten gives the value. -/

namespace Uplink.Json

/-- A number: an integer in the range of signed and unsigned sixty-four-bit words, or a double. -/
inductive Number
  | integer (value : Int) (inRange : -0x8000000000000000 ≤ value ∧ value < 0x10000000000000000)
  | float (value : Binary64)
deriving DecidableEq

/-- The greatest significand that digits are gathered into. -/
def maxSignificand : Nat := 0xFFFFFFFFFFFFFFFF

/-- Appends digits to a significand while it fits, and returns the digits that are left. -/
def appendDigits (significand : Nat) : List Nat → Nat × List Nat
  | [] => (significand, [])
  | d :: digits =>
    if significand * 10 + d ≤ maxSignificand then appendDigits (significand * 10 + d) digits
    else (significand, d :: digits)

/-- The greatest exponent that is taken at its value. -/
def maxWrittenExponent : Nat := 0x7FFFFFFF

/-- The greatest power of ten that a double holds. -/
def maxPower : Nat := 308

/-- Divides by `divisor`, which stands for `10 ^ maxPower`, until the power of ten that is left
is in reach, or nothing is left of the number. -/
def approach? (divisor x : Binary64) (e : Int) : Option (Binary64 × Int) :=
  if h : e < -(maxPower : Int) then
    if x.isZero then some (x, 0)
    else
      match x.div? divisor with
      | some y =>
        have : (-(e + maxPower)).toNat < (-e).toNat := by
          have h' : e < -308 := h
          show (-(e + 308)).toNat < (-e).toNat
          omega
        approach? divisor y (e + maxPower)
      | none => none
  else some (x, e)
termination_by (-e).toNat

/-- The double `x * 10 ^ e`, in steps that each round once. Nothing when the result is beyond the
largest double. -/
def scalePower? (x : Binary64) (e : Int) : Option Binary64 := do
  let (x, e) ← approach? (Binary64.powerOfTen maxPower) x e
  if e < 0 then x.div? (Binary64.powerOfTen (-e).toNat)
  else if e ≤ maxPower then x.mul? (Binary64.powerOfTen e.toNat)
  else if x.isZero then some x
  else none

def digitsValue (digits : List Nat) : Nat :=
  digits.foldl (fun n d => n * 10 + d) 0

/-- The double `± significand * 10 ^ (places ± exponent)`. An exponent out of reach leaves zero,
or nothing when it would make the number grow. -/
def float? (negative : Bool) (significand : Nat) (places : Int)
    (exponent : Option (Bool × List Nat)) : Option Binary64 := do
  let x ← Binary64.ofRatio? negative significand 1
  match exponent with
  | none => scalePower? x places
  | some (down, digits) =>
    let e := digitsValue digits
    if maxWrittenExponent < e then
      if significand ≠ 0 && !down then none else some (Binary64.zero negative)
    else scalePower? x (if down then places - e else places + e)

/-- The integer under its sign, if it is one of the integers: there is no negative zero among
them, and a magnitude beyond the signed range becomes a double. -/
def ofMagnitude? (negative : Bool) (n : Nat) : Option Number :=
  if negative then
    if h : 0 < n ∧ n ≤ 0x8000000000000000 then some (.integer (-(n : Int)) (by omega))
    else (Binary64.ofRatio? true n 1).map .float
  else
    if h : n < 0x10000000000000000 then some (.integer n (by omega))
    else (Binary64.ofRatio? false n 1).map .float

/-- The value of a literal, if it is in range. -/
def NumberLiteral.value? (l : NumberLiteral) : Option Number :=
  let (whole, spilled) := appendDigits 0 l.whole
  if l.fraction.isEmpty && l.exponent.isNone && spilled.isEmpty then
    ofMagnitude? l.negative whole
  else
    let (significand, dropped) := appendDigits whole l.fraction
    let places : Int := spilled.length - (l.fraction.length - dropped.length : Nat)
    (float? l.negative significand places l.exponent).map .float

end Uplink.Json
