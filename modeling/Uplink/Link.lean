import Uplink.Message

/-! # Links

A link is an established connection: it takes frames, reports events one at a time, and is closed
once. What a link may answer is fixed here; which answer it gives is up to the network. -/

namespace Uplink

inductive ConnectError
  /-- The URI does not parse or has another scheme. -/
  | invalidUri
  /-- The host is unknown or refuses connections. -/
  | unreachable
  /-- The peer answered, but not with an upgrade. -/
  | handshakeRejected
  /-- The peer did not answer in time. -/
  | timeout
deriving DecidableEq

def ConnectError.message : ConnectError → String
  | .invalidUri => "invalid URI"
  | .unreachable => "peer unreachable"
  | .handshakeRejected => "handshake rejected"
  | .timeout => "connect timed out"

/-- Why a frame was not sent. -/
inductive SendError
  /-- There is no live connection. -/
  | notConnected
  /-- The link did not take the frame in time. -/
  | timeout
  /-- The connection or the peer failed. -/
  | link
deriving DecidableEq

def SendError.message : SendError → String
  | .notConnected => "not connected"
  | .timeout => "send timed out"
  | .link => "link failure"

inductive LinkFault
  | io
  /-- The peer broke the framing rules. -/
  | protocol
deriving DecidableEq

/-- What a link reports. -/
inductive LinkEvent
  /-- The link is up, or up again. -/
  | connected
  | disconnected
  | data (m : Message)
  /-- A control frame arrived: a sign of life without data. -/
  | keepAlive
  | failed (fault : LinkFault)
deriving DecidableEq

namespace LinkEvent

/-- Whether the event shows that the peer is alive. -/
def isActivity : LinkEvent → Bool
  | .connected | .data _ | .keepAlive => true
  | .disconnected | .failed _ => false

def isTerminal : LinkEvent → Bool
  | .disconnected | .failed _ => true
  | .connected | .data _ | .keepAlive => false

end LinkEvent

/-- The outcome of sending one frame. -/
abbrev SendResult := Except SendError Unit

/-- A network in states `σ` with a connection through it. Timeouts are in milliseconds. -/
class Link (σ : Type) where
  /-- Sends one frame within a time. -/
  send : σ → Octets → Nat → SendResult × σ
  poll : σ → Option LinkEvent × σ
  close : σ → σ

class Connector (σ : Type) extends Link σ where
  connect : σ → String → Nat → Except ConnectError Unit × σ

end Uplink
