import Uplink.Utf8

/-! # Variable-length integers

A number as octets of seven bits each, lowest first, the high bit set on all but the last. -/

namespace Uplink.Varint

/-- The shortest spelling of a number. -/
def encode (n : Nat) : Octets :=
  if n < 0x80 then [n.toUInt8] else (n % 0x80 + 0x80).toUInt8 :: encode (n / 0x80)
termination_by n

/-- Reads a number of at most `room` octets, and what follows it. The octet in the last place may
not exceed `last`; padding with zeros is allowed within the room. -/
def decode? (last : UInt8) : Nat → Octets → Option (Nat × Octets)
  | 0, _ => none
  | _, [] => none
  | room + 1, b :: rest =>
    if b < 0x80 then
      if room = 0 && last < b then none else some (b.toNat, rest)
    else
      match decode? last room rest with
      | some (high, rest) => some (b.toNat % 0x80 + 0x80 * high, rest)
      | none => none

/-- Reads a number of thirty-two bits: five octets at most, of which the fifth has four bits. -/
def word? (octets : Octets) : Option (UInt32 × Octets) :=
  (decode? 0x0F 5 octets).map fun (n, rest) => (n.toUInt32, rest)

/-- Reads a number of sixty-four bits: ten octets at most, of which the tenth has one bit. -/
def length? (octets : Octets) : Option (Nat × Octets) :=
  decode? 0x01 10 octets

end Uplink.Varint
