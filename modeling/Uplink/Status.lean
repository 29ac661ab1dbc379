import Uplink.Session

/-! # The status of a run

What a running transport shows of itself: a state with a flag beside it, the time of the last
sign of life, and counters. The state and its flag are two cells, written one after the other. -/

namespace Uplink

/-- Where a transport stands. -/
inductive TransportState
  | stopped
  | starting
  | disconnected
  | connecting
  | connected
  | stopping
deriving DecidableEq

/-- What is counted during a run. -/
inductive Counter
  | connectAttempts
  | connectFailures
  | staleDisconnects
  | framesSent
  | sendFailures
  | framesReceived
  | inboundDropped
  | heartbeatsSent
deriving DecidableEq

/-- The counters of a run. They wrap around. -/
structure LinkStats where
  connectAttempts : UInt32
  connectFailures : UInt32
  staleDisconnects : UInt32
  framesSent : UInt32
  sendFailures : UInt32
  framesReceived : UInt32
  inboundDropped : UInt32
  heartbeatsSent : UInt32
deriving DecidableEq

namespace LinkStats

def zero : LinkStats := ⟨0, 0, 0, 0, 0, 0, 0, 0⟩

instance : Inhabited LinkStats := ⟨zero⟩

def bump (s : LinkStats) : Counter → LinkStats
  | .connectAttempts => { s with connectAttempts := s.connectAttempts + 1 }
  | .connectFailures => { s with connectFailures := s.connectFailures + 1 }
  | .staleDisconnects => { s with staleDisconnects := s.staleDisconnects + 1 }
  | .framesSent => { s with framesSent := s.framesSent + 1 }
  | .sendFailures => { s with sendFailures := s.sendFailures + 1 }
  | .framesReceived => { s with framesReceived := s.framesReceived + 1 }
  | .inboundDropped => { s with inboundDropped := s.inboundDropped + 1 }
  | .heartbeatsSent => { s with heartbeatsSent := s.heartbeatsSent + 1 }

end LinkStats

/-- The cell value that stands for no activity yet. -/
def noActivity : UInt64 := 0xFFFFFFFFFFFFFFFF

/-- The cells that a run publishes. Activity is in whole milliseconds since the epoch, the moment
at which the run was set up. -/
structure Status where
  epoch : Instant
  state : TransportState
  isConnected : Bool
  activity : UInt64
  stats : LinkStats
deriving DecidableEq

namespace Status

/-- The status of a run that was set up just now. -/
def starting (epoch : Instant) : Status :=
  ⟨epoch, .starting, false, noActivity, .zero⟩

/-- Writes the first cell of a state. -/
def storeState (s : Status) (state : TransportState) : Status :=
  { s with state }

/-- Writes the second cell of a state: whether it is the connected one. -/
def storeConnected (s : Status) (state : TransportState) : Status :=
  { s with isConnected := state = .connected }

def setState (s : Status) (state : TransportState) : Status :=
  (s.storeState state).storeConnected state

/-- The cell value of a moment. A moment before the epoch counts as the epoch. -/
def activityAt (s : Status) (moment : Instant) : UInt64 :=
  ((moment - s.epoch) / milliseconds 1).toUInt64

def touch (s : Status) (moment : Instant) : Status :=
  { s with activity := s.activityAt moment }

/-- The time of the last sign of life, to the millisecond. -/
def lastActivity? (s : Status) : Option Instant :=
  if s.activity = noActivity then none else some (s.epoch + milliseconds s.activity.toNat)

def count (s : Status) (counter : Counter) : Status :=
  { s with stats := s.stats.bump counter }

end Status

end Uplink
