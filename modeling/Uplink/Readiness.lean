import Uplink.Waiters
import Uplink.Json.Printer

/-! # Readiness

Eight flags that tell how far the device has come up. Tasks wait until all flags of a mask are
set. Setting flags is two steps, the flags first and then a wake for everybody who waits. -/

namespace Uplink

/-- The most wakers registered at once. -/
def maxReadinessWaiters : Nat := 4

/-- The flags, and who waits for some of them. -/
structure Readiness where
  bits : UInt8
  waiters : Waiters
deriving DecidableEq

namespace Readiness

/-- Credentials are stored. -/
def provisioned : UInt8 := 0x01
/-- The radio is in station mode. -/
def stationMode : UInt8 := 0x02
/-- An association is in progress. -/
def awaitingConnection : UInt8 := 0x04
/-- Association failed; provisioning has to start again. -/
def rollbackToAccessPoint : UInt8 := 0x08
/-- The station has an address. -/
def connectedToAccessPoint : UInt8 := 0x10
/-- A factory reset was requested. -/
def awaitingReset : UInt8 := 0x20
/-- A factory reset is in progress. -/
def resetting : UInt8 := 0x40

/-- All named flags, lowest first. -/
def flags : List UInt8 :=
  [provisioned, stationMode, awaitingConnection, rollbackToAccessPoint, connectedToAccessPoint,
    awaitingReset, resetting]

def empty : Readiness := ⟨0, .empty⟩

instance : Inhabited Readiness := ⟨empty⟩

def setBits (r : Readiness) (mask : UInt8) : Readiness :=
  { r with bits := r.bits ||| mask }

def wakeWaiters (r : Readiness) : Readiness × List Waker :=
  let (waiters, woken) := r.waiters.wake
  ({ r with waiters }, woken)

/-- Sets flags and wakes everybody who waits, whatever the mask. -/
def set (r : Readiness) (mask : UInt8) : Readiness × List Waker :=
  (r.setBits mask).wakeWaiters

def clear (r : Readiness) (mask : UInt8) : Readiness :=
  { r with bits := r.bits &&& ~~~mask }

def contains (r : Readiness) (mask : UInt8) : Bool :=
  r.bits &&& mask = mask

/-- Looks once whether all flags of a mask are set, and registers the waker otherwise. -/
def poll (r : Readiness) (mask : UInt8) (w : Waker) : Bool × Readiness × List Waker :=
  if r.contains mask then (true, r, [])
  else
    let (waiters, woken) := r.waiters.register maxReadinessWaiters w
    (false, { r with waiters }, woken)

/-- The flags as eight binary digits, highest first. -/
def binaryDigits (bits : UInt8) : List Char :=
  (List.range 8).reverse.map fun i => if bits.toNat.testBit i then '1' else '0'

def logForm (r : Readiness) : String :=
  String.ofList ("Readiness \x7b bits: 0b".toList ++ binaryDigits r.bits ++ " \x7d".toList)

end Readiness

end Uplink
