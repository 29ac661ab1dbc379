import Uplink.Message
import Uplink.Json.Printer

/-! # Envelopes

An envelope is one JSON object in one message: a version, a type, and any further fields beside
them. Reading wants a whole document with exactly one version and one type among its members, and
looks at the version only then. -/

namespace Uplink

/-- The version that this side writes and reads. -/
def envelopeVersion : UInt64 := 1

def pingType : String := "ping"

def versionName : String := "v"

def typeName : String := "type"

/-- An application message: the fields are the members other than version and type. -/
structure Envelope where
  version : UInt64
  type : String
  fields : Json.Members

/-- Why octets are no envelope, or an envelope no message. -/
inductive EnvelopeError
  /-- The octets are no JSON object with one version and one type. -/
  | malformed
  /-- They are, but of another version. -/
  | unsupportedVersion (version : UInt64)
  | tooLarge
deriving DecidableEq

def EnvelopeError.message : EnvelopeError → String
  | .malformed => "malformed envelope"
  | .unsupportedVersion version => "unsupported envelope version " ++ Nat.repr version.toNat
  | .tooLarge => "envelope exceeds 512 bytes"

namespace Envelope

/-- An envelope of the current version without fields. -/
def ofType (type : String) : Envelope :=
  ⟨envelopeVersion, type, []⟩

/-- Sets a field. The names of version and type are not fields and change nothing. -/
def withField (e : Envelope) (name : String) (value : Json) : Envelope :=
  if name = versionName || name = typeName then e
  else { e with fields := e.fields.insert name value }

def isPing (e : Envelope) : Bool :=
  e.type = pingType

/-! ## Writing -/

def versionNumber (version : UInt64) : Json.Number :=
  .integer version.toNat (by have := version.toNat_lt; omega)

/-- The members as written: version and type first, then the fields in their order. -/
def members (e : Envelope) : Json.Members :=
  (versionName, .number (versionNumber e.version)) :: (typeName, .string e.type) :: e.fields

/-- The whole envelope as octets, however many. -/
def serialize (e : Envelope) : Octets :=
  Utf8.encode (Json.render (.object e.members))

/-- The envelope as one message, if it fits. -/
def toMessage (e : Envelope) : Except EnvelopeError Message :=
  if maxMessageLength < e.serialize.length then .error .tooLarge
  else .ok (Message.ofOctets e.serialize)

/-! ## Reading -/

def unsigned? : Json → Option UInt64
  | .number (.integer n _) => if 0 ≤ n then some (UInt64.ofNat n.toNat) else none
  | _ => none

def string? : Json → Option String
  | .string s => some s
  | _ => none

/-- An envelope while its members are read: the version and the type once they have come, and the
others in the order of the text. -/
structure Draft where
  version? : Option UInt64
  type? : Option String
  others : List (String × Json)

namespace Draft

def blank : Draft :=
  ⟨none, none, []⟩

/-- Takes up the next member. The version has to be an unsigned integer and the type a string, and
neither may come again. -/
def take? (d : Draft) (member : String × Json) : Option Draft :=
  if member.1 = versionName then
    if d.version?.isSome then none
    else (unsigned? member.2).map fun version => { d with version? := some version }
  else if member.1 = typeName then
    if d.type?.isSome then none
    else (string? member.2).map fun type => { d with type? := some type }
  else some { d with others := d.others ++ [member] }

/-- The envelope, if version and type have come. Of equal names among the others the last stays. -/
def finish? (d : Draft) : Option Envelope := do
  let version ← d.version?
  let type ← d.type?
  some ⟨version, type, Json.Members.ofList d.others⟩

end Draft

/-- The envelope that a document's members spell. -/
def ofMembers? (pairs : List (String × Json)) : Option Envelope :=
  pairs.foldlM Draft.take? .blank >>= Draft.finish?

/-- The members that the octets spell, if they spell one object. -/
def memberList? (octets : Octets) : Option (List (String × Json)) :=
  match Json.Node.parse? octets with
  | some (.object members) => Json.memberValues? (Json.maxDepth - 1) members
  | _ => none

/-- Reads an envelope: the form of the whole document counts before its version. -/
def parseOctets (octets : Octets) : Except EnvelopeError Envelope :=
  match memberList? octets >>= ofMembers? with
  | none => .error .malformed
  | some e => if e.version = envelopeVersion then .ok e else .error (.unsupportedVersion e.version)

def parse (m : Message) : Except EnvelopeError Envelope :=
  parseOctets m.octets

/-- Equality by value of version, type and fields. -/
def same (a b : Envelope) : Bool :=
  a.version == b.version && a.type == b.type && Json.sameMembers a.fields b.fields

end Envelope

/-- Whether a message is a heartbeat: an envelope of the ping type. -/
def Message.isHeartbeat (m : Message) : Bool :=
  match Envelope.parse m with
  | .ok e => e.isPing
  | .error _ => false

/-- The frame that asks the peer for a sign of life. -/
def heartbeatFrame : String := "\x7b\"v\":1,\"type\":\"ping\"\x7d"

def heartbeatProbe : Message :=
  Message.ofText heartbeatFrame

end Uplink
