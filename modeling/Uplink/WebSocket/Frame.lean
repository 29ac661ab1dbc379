import Uplink.Utf8

/-! # WebSocket frames

A frame is a kind and a payload. On the wire it has a header in front: two octets, then a longer
length where the short one does not do, then a key if the payload is masked. -/

namespace Uplink.WebSocket

inductive Opcode
  | continuation
  | text
  | binary
  | close
  | ping
  | pong
deriving DecidableEq

/-- The kind of a number. All other numbers are reserved. -/
def Opcode.ofNat? : Nat → Option Opcode
  | 0 => some .continuation
  | 1 => some .text
  | 2 => some .binary
  | 8 => some .close
  | 9 => some .ping
  | 10 => some .pong
  | _ => none

def Opcode.isControl : Opcode → Bool
  | .close | .ping | .pong => true
  | .continuation | .text | .binary => false

structure Header where
  isFinal : Bool
  isReserved : Bool
  opcode : Opcode
  isMasked : Bool
  length : Nat
deriving DecidableEq

structure Frame where
  header : Header
  payload : Octets
deriving DecidableEq

/-- A frame that stands for itself and has no reserved bit. -/
def Frame.whole (opcode : Opcode) (payload : Octets) : Frame :=
  ⟨⟨true, false, opcode, false, payload.length⟩, payload⟩

/-- A number in octets, the highest first. -/
def bigEndian (octets : Octets) : Nat :=
  octets.foldl (fun n b => n * 256 + b.toNat) 0

/-- The first octets of a run and the rest, if there are enough. -/
def takeExactly? (n : Nat) (octets : Octets) : Option (Octets × Octets) :=
  if octets.length < n then none else some (octets.take n, octets.drop n)

/-- The length that seven bits announce, and what follows it. -/
def readLength? (short : Nat) (octets : Octets) : Option (Nat × Octets) :=
  if short = 126 then
    (takeExactly? 2 octets).map fun (digits, rest) => (bigEndian digits, rest)
  else if short = 127 then
    (takeExactly? 8 octets).map fun (digits, rest) => (bigEndian digits, rest)
  else some (short, octets)

/-- What stands at the front of received octets. -/
inductive HeaderScan
  /-- Not yet a whole header. -/
  | incomplete
  /-- A header of a reserved kind. -/
  | unknown (rest : Octets)
  | header (h : Header) (rest : Octets)

def scanHeader : Octets → HeaderScan
  | first :: second :: octets =>
    let isMasked := second &&& 0x80 ≠ 0
    let body? := do
      let (length, octets) ← readLength? (second &&& 0x7F).toNat octets
      let (_, octets) ← takeExactly? (if isMasked then 4 else 0) octets
      some (length, octets)
    match body? with
    | none => .incomplete
    | some (length, rest) =>
      match Opcode.ofNat? (first &&& 0x0F).toNat with
      | none => .unknown rest
      | some opcode =>
        .header ⟨first &&& 0x80 ≠ 0, first &&& 0x70 ≠ 0, opcode, isMasked, length⟩ rest
  | _ => .incomplete

def maxPayloadLength : Nat := 0x1000000

/-- The octets in front of a masked payload of some length. -/
def headerSize (length : Nat) : Nat :=
  (if length < 126 then 2 else if length < 0x10000 then 4 else 10) + 4

/-- The octets that a masked frame with a payload of some length takes on the wire. -/
def wireSize (length : Nat) : Nat :=
  headerSize length + length

/-- What a frame on its way out carries. -/
inductive Payload
  | plain (octets : Octets)
  /-- One octet so many times. -/
  | repeated (octet : UInt8) (count : Nat)
deriving DecidableEq

namespace Payload

def length : Payload → Nat
  | .plain octets => octets.length
  | .repeated _ count => count

def toOctets : Payload → Octets
  | .plain octets => octets
  | .repeated octet count => List.replicate count octet

theorem length_toOctets (payload : Payload) : payload.toOctets.length = payload.length := by
  cases payload <;> simp [toOctets, length]

end Payload

/-- A masked frame on its way out. -/
structure Parcel where
  opcode : Opcode
  payload : Payload
  /-- How many of its octets are still to be written. -/
  unsent : Nat
deriving DecidableEq

namespace Parcel

def size (parcel : Parcel) : Nat :=
  wireSize parcel.payload.length

def whole (opcode : Opcode) (payload : Payload) : Parcel :=
  ⟨opcode, payload, wireSize payload.length⟩

def ofFrame (frame : Frame) : Parcel :=
  .whole frame.header.opcode (.plain frame.payload)

/-- The octets of parcels that are still to be written. -/
def totalUnsent (parcels : List Parcel) : Nat :=
  parcels.foldl (fun n parcel => n + parcel.unsent) 0

/-- Writes so many octets of parcels: those that are whole by then, and what is left. -/
def advance : Nat → List Parcel → List Parcel × List Parcel
  | _, [] => ([], [])
  | octets, parcel :: parcels =>
    if parcel.unsent ≤ octets then
      let (written, left) := advance (octets - parcel.unsent) parcels
      ({ parcel with unsent := 0 } :: written, left)
    else ([], { parcel with unsent := parcel.unsent - octets } :: parcels)

/-- The frame that the receiver makes of a parcel. -/
def frame (parcel : Parcel) : Frame :=
  .whole parcel.opcode parcel.payload.toOctets

end Parcel

end Uplink.WebSocket
