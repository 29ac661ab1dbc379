import Uplink.Config
import Uplink.Json.Printer

/-! # Configurations as JSON

Written as an object with the fields in order. Read from an object that has each field once, or
from an array of the fields in order. Members of other names are skipped, whatever they hold. -/

namespace Uplink.LinkConfig

def fieldNames : List String :=
  ["heartbeat_interval_ms", "backoff_schedule_ms", "connect_timeout_ms", "send_timeout_ms",
    "poll_interval_ms", "shutdown_grace_ms"]

def jsonWord (w : UInt32) : Json :=
  .number (.integer w.toNat (by have := w.toNat_lt; omega))

/-- The fields as JSON, in order. -/
def jsonFields (c : LinkConfig) : List Json :=
  [jsonWord c.heartbeatInterval, .array (c.backoffSchedule.map jsonWord),
    jsonWord c.connectTimeout, jsonWord c.sendTimeout, jsonWord c.pollInterval,
    jsonWord c.shutdownGrace]

def toJson (c : LinkConfig) : String :=
  Json.compact (.object (fieldNames.zip c.jsonFields))

/-- The number of thirty-two bits that a node is. -/
def nodeWord? : Json.Node → Option UInt32
  | .number literal =>
    match literal.value? with
    | some (.integer n _) =>
      if 0 ≤ n ∧ n < 0x100000000 then some (UInt32.ofNat n.toNat) else none
    | _ => none
  | _ => none

def nodeWords? : Json.Node → Option (List UInt32)
  | .array items => items.mapM nodeWord?
  | _ => none

def ofFields? : List Json.Node → Option LinkConfig
  | [heartbeat, schedule, connect, send, poll, grace] => do
    let heartbeat ← nodeWord? heartbeat
    let schedule ← nodeWords? schedule
    let connect ← nodeWord? connect
    let send ← nodeWord? send
    let poll ← nodeWord? poll
    let grace ← nodeWord? grace
    if h : schedule.length ≤ maxBackoffSteps then
      some ⟨heartbeat, schedule, connect, send, poll, grace, h⟩
    else none
  | _ => none

/-- The only node given to a name. -/
def only? (name : String) (members : List (String × Json.Node)) : Option Json.Node :=
  match members.filter fun member => member.1 = name with
  | [member] => some member.2
  | _ => none

def ofNode? : Json.Node → Option LinkConfig
  | .array items => ofFields? items
  | .object members => do
    let members ← members.mapM fun (name, node) => (Json.pieceString? name).map (·, node)
    let fields ← fieldNames.mapM (only? · members)
    ofFields? fields
  | _ => none

/-- The configuration that a JSON text spells, not yet validated. -/
def ofJson? (text : String) : Option LinkConfig :=
  Json.Node.parse? (Utf8.ofString text) >>= ofNode?

end Uplink.LinkConfig
