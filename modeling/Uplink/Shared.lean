import Uplink.Message
import Uplink.Queue
import Uplink.Status
import Uplink.StopToken

/-! # The shared block

What a worker and the callers of its transport both hold during one run: two queues, a status and
a stop token. Each run has a block of its own, so a worker that was left behind can only touch a
run that is over. Every write is one atomic step. -/

namespace Uplink

structure Shared where
  outbound : Queue Message
  inbound : Queue Message
  status : Status
  stop : StopToken

/-- An atomic write to a block. -/
inductive Write
  /-- The first cell of a state. -/
  | state (s : TransportState)
  /-- The second cell of a state. -/
  | connected (s : TransportState)
  | count (c : Counter)
  | touch (moment : Instant)
  /-- The flag of a stop request. -/
  | requested
  /-- The signal of a stop request. -/
  | request
  /-- The flag of an exit. -/
  | exited
  /-- The signal of an exit. -/
  | exit
  | clearOutbound
  | clearInbound
deriving DecidableEq

/-- The two writes that publish a state, in order. -/
def Write.publish (s : TransportState) : List Write :=
  [.state s, .connected s]

namespace Shared

/-- The block of a run that is set up just now. -/
def fresh (outbound inbound : Nat) (now : Instant) : Shared :=
  ⟨.empty outbound, .empty inbound, .starting now, .fresh⟩

def write (s : Shared) : Write → Shared
  | .state state => { s with status := s.status.storeState state }
  | .connected state => { s with status := s.status.storeConnected state }
  | .count counter => { s with status := s.status.count counter }
  | .touch moment => { s with status := s.status.touch moment }
  | .requested => { s with stop := s.stop.storeRequested }
  | .request => { s with stop := s.stop.raiseRequest.1 }
  | .exited => { s with stop := s.stop.storeExited }
  | .exit => { s with stop := s.stop.raiseExit.1 }
  | .clearOutbound => { s with outbound := s.outbound.clear.1 }
  | .clearInbound => { s with inbound := s.inbound.clear.1 }

end Shared

end Uplink
