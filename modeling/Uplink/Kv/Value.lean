import Uplink.Utf8

/-! # Stored values

What the key-value store keeps: strings, numbers and blobs under short keys. A value is read back
as the kind it was written. -/

namespace Uplink.Kv

inductive KvError
  /-- No room among the waiting requests, within the time allowed. -/
  | queueFull
  | timeout
  /-- Nothing of the wanted kind under the key. -/
  | notFound
  | backend
  | invalidKey
  | closed
deriving DecidableEq

def KvError.message : KvError → String
  | .queueFull => "request queue full"
  | .timeout => "no reply in time"
  | .notFound => "key not found"
  | .backend => "backend failure"
  | .invalidKey => "invalid key"
  | .closed => "store closed"

inductive Kind
  | str
  | u32
  | blob
deriving DecidableEq

inductive Value
  | str (s : String)
  | u32 (n : UInt32)
  | blob (octets : Octets)
deriving DecidableEq

def Value.kind : Value → Kind
  | .str _ => .str
  | .u32 _ => .u32
  | .blob _ => .blob

def maxKeyLength : Nat := 15

/-- Whether a name can be a key: it has one to fifteen octets, none of them zero. -/
def isKey (name : String) : Bool :=
  !name.isEmpty && name.utf8ByteSize ≤ maxKeyLength && !name.toList.contains '\x00'

/-- A name that can be stored under. -/
structure Key where
  name : String
  isKey_name : isKey name = true
deriving DecidableEq

/-- The key of a name, if it can be one. -/
def Key.ofName? (name : String) : Option Key :=
  if h : isKey name = true then some ⟨name, h⟩ else none

end Uplink.Kv
