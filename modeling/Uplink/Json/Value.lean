import Uplink.Json.Document
import Uplink.Json.Number

/-! # JSON values

A value is what a document means: strings are text, numbers are in range, and an object maps each
name to the last value it was given, names in the order of their octets. Reading allows 127
arrays and objects around one another. -/

namespace Uplink

inductive Json
  | null
  | bool (b : Bool)
  | number (n : Json.Number)
  | string (s : String)
  | array (items : List Json)
  | object (members : List (String × Json))

namespace Json

instance : Inhabited Json := ⟨.null⟩

/-- The members of an object: ordered by name, one value for each. -/
abbrev Members := List (String × Json)

/-- Gives a name its value, in place of an earlier one. -/
def Members.insert (name : String) (value : Json) : Members → Members
  | [] => [(name, value)]
  | (other, old) :: rest =>
    if name < other then (name, value) :: (other, old) :: rest
    else if name = other then (name, value) :: rest
    else (other, old) :: Members.insert name value rest

/-- Inserts pairs from left to right, so that the last of equal names stays. -/
def Members.ofList (pairs : List (String × Json)) : Members :=
  pairs.foldl (fun members (name, value) => members.insert name value) []

def Members.get? (members : Members) (name : String) : Option Json :=
  members.lookup name

/-- How many arrays and objects may stand around one another. -/
def maxDepth : Nat := 127

mutual

/-- The value of a document, with room for `depth` arrays and objects around one another. -/
def Node.value? (depth : Nat) : Node → Option Json
  | .null => some .null
  | .bool b => some (.bool b)
  | .number literal => literal.value?.map .number
  | .string pieces => (pieceString? pieces).map .string
  | .array items =>
    match depth with
    | 0 => none
    | depth + 1 => (itemValues? depth items).map .array
  | .object members =>
    match depth with
    | 0 => none
    | depth + 1 => (memberValues? depth members).map fun pairs => .object (Members.ofList pairs)

/-- The values of an array's items. -/
def itemValues? (depth : Nat) : List Node → Option (List Json)
  | [] => some []
  | node :: rest =>
    match Node.value? depth node, itemValues? depth rest with
    | some value, some values => some (value :: values)
    | _, _ => none

/-- The names and values of an object's members, in the order of the text. -/
def memberValues? (depth : Nat) : List (List Piece × Node) → Option (List (String × Json))
  | [] => some []
  | (name, node) :: rest =>
    match pieceString? name, Node.value? depth node, memberValues? depth rest with
    | some name, some value, some pairs => some ((name, value) :: pairs)
    | _, _, _ => none

end

/-- The value that the octets spell, if they spell one. -/
def parse? (octets : Octets) : Option Json :=
  Node.parse? octets >>= Node.value? maxDepth

/-- Equality of numbers by value. -/
def Number.same : Number → Number → Bool
  | .integer m _, .integer n _ => m = n
  | .float x, .float y => x.sameValue y
  | _, _ => false

mutual

/-- Equality by value: the two zeros among the doubles are one. -/
def same : Json → Json → Bool
  | .null, .null => true
  | .bool a, .bool b => a == b
  | .number m, .number n => m.same n
  | .string s, .string t => s == t
  | .array xs, .array ys => sameItems xs ys
  | .object xs, .object ys => sameMembers xs ys
  | _, _ => false

/-- Equality of items, one by one. -/
def sameItems : List Json → List Json → Bool
  | [], [] => true
  | x :: xs, y :: ys => same x y && sameItems xs ys
  | _, _ => false

/-- Equality of members, one by one. -/
def sameMembers : List (String × Json) → List (String × Json) → Bool
  | [], [] => true
  | (m, x) :: xs, (n, y) :: ys => m == n && same x y && sameMembers xs ys
  | _, _ => false

end

end Json

end Uplink
