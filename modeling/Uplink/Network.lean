import Uplink.Envelope
import Uplink.Link

/-! # A scripted network

A network whose behaviour is laid down in advance: the outcomes of connects, the events that links
report, and the results of sends, each taken in turn. It belongs to no link in particular, so what
one link leaves over is there for the next. Everything that passes is recorded. -/

namespace Uplink

inductive Entry
  /-- A connect began. -/
  | connect (uri : String) (timeout : Nat)
  | opened
  | refused (e : ConnectError)
  /-- The next connect waits so many milliseconds. -/
  | retryIn (delay : Nat)
  | event (e : LinkEvent)
  | send (frame : Octets) (timeout : Nat) (result : SendResult)
  /-- A link was dropped for its silence. -/
  | stale
  | close
  | exit

/-- The script and the record, the latest entry first. -/
structure Network where
  outcomes : List (Except ConnectError Unit)
  events : List LinkEvent
  sendResults : List SendResult
  /-- Whether the peer answers every heartbeat with a sign of life. -/
  echoes : Bool
  /-- Whether the next poll of a link blocks. -/
  isHeld : Bool
  /-- Whether a connect has begun and not returned. -/
  isDialing : Bool
  sends : Nat
  closes : Nat
  record : List Entry

namespace Network

/-- A network without a script. -/
def silent : Network :=
  ⟨[], [], [], false, false, false, 0, 0, []⟩

def note (n : Network) (e : Entry) : Network :=
  { n with record := e :: n.record }

def takeRecord (n : Network) : List Entry × Network :=
  (n.record.reverse, { n with record := [] })

def dial (n : Network) (uri : String) (timeout : Nat) : Network :=
  { n.note (.connect uri timeout) with isDialing := true }

/-- The connect returns. Without an outcome there is nobody to reach. -/
def finishDial (n : Network) : Except ConnectError Unit × Network :=
  let (outcome, outcomes) : Except ConnectError Unit × List (Except ConnectError Unit) :=
    match n.outcomes with
    | [] => (.error .unreachable, [])
    | outcome :: outcomes => (outcome, outcomes)
  let entry := match outcome with
    | .ok () => Entry.opened
    | .error e => .refused e
  (outcome, { n.note entry with outcomes, isDialing := false })

def send (n : Network) (frame : Octets) (timeout : Nat) : SendResult × Network :=
  let (result, sendResults) : SendResult × List SendResult :=
    match n.sendResults with
    | [] => (.ok (), [])
    | result :: sendResults => (result, sendResults)
  let n := { n.note (.send frame timeout result) with sendResults, sends := n.sends + 1 }
  match result with
  | .ok () =>
    if n.echoes && (Message.ofOctets frame).isHeartbeat then
      (result, { n with events := n.events ++ [.keepAlive] })
    else (result, n)
  | .error _ => (result, n)

def poll (n : Network) : Option LinkEvent × Network :=
  match n.events with
  | [] => (none, n)
  | event :: events => (some event, { n.note (.event event) with events })

def close (n : Network) : Network :=
  { n.note .close with closes := n.closes + 1 }

instance : Connector Network where
  send := send
  poll := poll
  close := close
  connect n _ _ := n.finishDial

end Network

end Uplink
