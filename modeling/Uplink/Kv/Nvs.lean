import Uplink.Kv.Value

/-! # Value storage

A map from names to values. Each name has one value, of whatever kind was set last. A blob has a
bound on its length. -/

namespace Uplink.Kv

def storageNamespace : String := "boneboot"

def maxBlobLength : Nat := 4000

/-- The stored values, each name once. -/
structure Nvs where
  entries : List (String × Value)

namespace Nvs

def empty : Nvs := ⟨[]⟩

instance : Inhabited Nvs := ⟨empty⟩

def find? (s : Nvs) (name : String) : Option Value :=
  s.entries.lookup name

def accepts : Value → Bool
  | .blob octets => octets.length ≤ maxBlobLength
  | .str _ | .u32 _ => true

/-- Stores a value in place of an earlier one, or refuses it and changes nothing. -/
def set (s : Nvs) (name : String) (value : Value) : Except KvError Unit × Nvs :=
  if accepts value then
    (.ok (), ⟨(name, value) :: s.entries.filter fun entry => entry.1 ≠ name⟩)
  else (.error .backend, s)

/-- The value under a name if it is of the wanted kind. -/
def get (s : Nvs) (name : String) (kind : Kind) : Except KvError Value :=
  match s.find? name with
  | some value => if value.kind = kind then .ok value else .error .notFound
  | none => .error .notFound

def erase (_ : Nvs) : Nvs :=
  empty

end Nvs

end Uplink.Kv
