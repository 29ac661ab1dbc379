import Uplink.Config
import Uplink.Varint

/-! # Configurations in storage

A configuration is stored as its fields in order, each number a variable-length integer, the
schedule as its length and then its delays. Octets after the last field are ignored. -/

namespace Uplink.LinkConfig

def storeWord (w : UInt32) : Octets :=
  Varint.encode w.toNat

def toBlob (c : LinkConfig) : Octets :=
  storeWord c.heartbeatInterval
    ++ Varint.encode c.backoffSchedule.length ++ c.backoffSchedule.flatMap storeWord
    ++ storeWord c.connectTimeout ++ storeWord c.sendTimeout
    ++ storeWord c.pollInterval ++ storeWord c.shutdownGrace

/-- Reads so many numbers of thirty-two bits, and what follows them. -/
def readWords? : Nat → Octets → Option (List UInt32 × Octets)
  | 0, octets => some ([], octets)
  | count + 1, octets => do
    let (w, octets) ← Varint.word? octets
    let (ws, octets) ← readWords? count octets
    some (w :: ws, octets)

/-- Reads the fields, whether or not they may run a transport. -/
def decodeBlob? (octets : Octets) : Option LinkConfig := do
  let (heartbeatInterval, octets) ← Varint.word? octets
  let (count, octets) ← Varint.length? octets
  if maxBackoffSteps < count then none
  else
    let (steps, octets) ← readWords? count octets
    let (connectTimeout, octets) ← Varint.word? octets
    let (sendTimeout, octets) ← Varint.word? octets
    let (pollInterval, octets) ← Varint.word? octets
    let (shutdownGrace, _) ← Varint.word? octets
    if h : steps.length ≤ maxBackoffSteps then
      some ⟨heartbeatInterval, steps, connectTimeout, sendTimeout, pollInterval,
        shutdownGrace, h⟩
    else none

/-- The configuration in stored octets: they have to be whole, and the fields valid. -/
def ofBlob (octets : Octets) : Except ConfigError LinkConfig :=
  match decodeBlob? octets with
  | none => .error .corrupted
  | some c =>
    match c.validate with
    | .ok () => .ok c
    | .error e => .error e

end Uplink.LinkConfig
