import Uplink.Backoff

/-! # Link configuration

The timing of a link, all in milliseconds. Any values can be stored and read; only a
configuration that passes `validate` runs a transport. -/

namespace Uplink

/-- The timing of a link. The heartbeat interval bounds how long a silent link is trusted, the
poll interval how late an arriving frame is noticed. -/
structure LinkConfig where
  heartbeatInterval : UInt32
  backoffSchedule : List UInt32
  connectTimeout : UInt32
  sendTimeout : UInt32
  pollInterval : UInt32
  shutdownGrace : UInt32
  schedule_le : backoffSchedule.length ≤ maxBackoffSteps
deriving DecidableEq

inductive Violation
  | heartbeatZero
  | scheduleEmpty
  | stepZero
  | stepsDecrease
  | connectTimeoutZero
  | sendTimeoutZero
  | graceZero
  | pollOutOfRange
deriving DecidableEq

def Violation.message : Violation → String
  | .heartbeatZero => "heartbeat_interval_ms must be > 0"
  | .scheduleEmpty => "backoff_schedule_ms must not be empty"
  | .stepZero => "backoff_schedule_ms steps must be > 0"
  | .stepsDecrease => "backoff_schedule_ms must be non-decreasing"
  | .connectTimeoutZero => "connect_timeout_ms must be > 0"
  | .sendTimeoutZero => "send_timeout_ms must be > 0"
  | .graceZero => "shutdown_grace_ms must be > 0"
  | .pollOutOfRange => "poll_interval_ms must be > 0 and < heartbeat_interval_ms"

inductive ConfigError
  /-- A rule is broken; the reason names it. -/
  | validationFailed (reason : String)
  /-- The stored octets are no configuration. -/
  | corrupted
deriving DecidableEq

def ConfigError.message : ConfigError → String
  | .validationFailed reason => "validation failed: " ++ reason
  | .corrupted => "config corrupted"

namespace LinkConfig

def default : LinkConfig where
  heartbeatInterval := 10000
  backoffSchedule := defaultBackoffSchedule
  connectTimeout := 5000
  sendTimeout := 1000
  pollInterval := 20
  shutdownGrace := 500
  schedule_le := by decide

instance : Inhabited LinkConfig := ⟨default⟩

/-- Whether some delay is longer than the one after it. -/
def decreases : List UInt32 → Bool
  | a :: b :: rest => b < a || decreases (b :: rest)
  | _ => false

/-- The first rule that a configuration breaks, in the order in which they are checked. -/
def violation? (c : LinkConfig) : Option Violation :=
  if c.heartbeatInterval = 0 then some .heartbeatZero
  else if c.backoffSchedule.isEmpty then some .scheduleEmpty
  else if c.backoffSchedule.contains 0 then some .stepZero
  else if decreases c.backoffSchedule then some .stepsDecrease
  else if c.connectTimeout = 0 then some .connectTimeoutZero
  else if c.sendTimeout = 0 then some .sendTimeoutZero
  else if c.shutdownGrace = 0 then some .graceZero
  else if c.pollInterval = 0 || c.heartbeatInterval ≤ c.pollInterval then some .pollOutOfRange
  else none

/-- Accepts a configuration that breaks no rule, and names the first one broken otherwise. -/
def validate (c : LinkConfig) : Except ConfigError Unit :=
  match c.violation? with
  | none => .ok ()
  | some v => .error (.validationFailed v.message)

end LinkConfig

end Uplink
