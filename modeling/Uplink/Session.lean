import Uplink.Link

/-! # Sessions

A session owns one link from its opening to its close. It closes the link exactly once, by
itself when an event ends the link, touches it no more after that, and remembers when the peer
last showed life. -/

namespace Uplink

/-- A point on the clock, in nanoseconds. -/
abbrev Instant := Nat

def milliseconds (n : Nat) : Nat :=
  n * 1000000

/-- What is known of one connection. -/
structure Session where
  uri : String
  isOpen : Bool
  lastActivity : Instant
deriving DecidableEq

namespace Session

variable {σ : Type}

/-- Connects. The session counts from the moment at which the link is there. -/
def establish [Connector σ] (net : σ) (uri : String) (timeout : Nat) (now : Instant) :
    Except ConnectError Session × σ :=
  let (result, net) := Connector.connect net uri timeout
  (result.map fun () => ⟨uri, true, now⟩, net)

variable [Link σ]

/-- Closes the link, unless that was done before. -/
def close (s : Session) (net : σ) : Session × σ :=
  if s.isOpen then ({ s with isOpen := false }, Link.close net) else (s, net)

/-- Sends one frame, or refuses it once the link is closed. A failure does not end the session. -/
def send (s : Session) (net : σ) (frame : Octets) (timeout : Nat) : SendResult × σ :=
  if s.isOpen then Link.send net frame timeout else (.error .notConnected, net)

/-- The session after an event: a sign of life moves the time of last activity to `now`, and an
event that ends the link closes it. -/
def note (s : Session) (net : σ) (event : LinkEvent) (now : Instant) : Session × σ :=
  let s := if event.isActivity then { s with lastActivity := now } else s
  if event.isTerminal then s.close net else (s, net)

def poll (s : Session) (net : σ) (now : Instant) : Option LinkEvent × Session × σ :=
  if s.isOpen then
    match Link.poll net with
    | (none, net) => (none, s, net)
    | (some event, net) => (some event, s.note net event now)
  else (none, s, net)

end Session

end Uplink
