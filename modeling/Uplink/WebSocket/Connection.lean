import Uplink.Link
import Uplink.WebSocket.Socket

/-! # WebSocket connections

The client's side of an open connection: what it makes of received octets, what it answers by
itself, and what it refuses to send. Answers to pings and to a close are written with the next
thing that is written, or before the next read. -/

namespace Uplink.WebSocket

/-- How far a connection is from its end. -/
inductive Standing
  | active
  /-- This side has sent a close. -/
  | closedByUs
  /-- The peer has sent a close. -/
  | closedByPeer
  /-- The peer has answered a close. -/
  | closeAcknowledged
  /-- The stream has ended. -/
  | terminated
deriving DecidableEq

/-- Whether frames may still be received. -/
def Standing.canRead : Standing → Bool
  | .active | .closedByUs => true
  | .closedByPeer | .closeAcknowledged | .terminated => false

/-- The frames of a message so far. Octets at the end of a text that begin a character wait for
the rest of it. -/
inductive Fragments
  | text (collected : List Char) (dangling : Octets)
  | binary (collected : Octets)

structure Connection where
  standing : Standing
  /-- Octets received and not used. -/
  inbox : Octets
  /-- The header of a frame whose payload is not there yet. -/
  header : Option Header
  /-- A message of which the last frame is not there yet. -/
  fragments : Option Fragments
  /-- An answer that was not written yet. -/
  answer : Option Frame
  /-- What is being written. -/
  outbox : List Parcel

def maxControlLength : Nat := 125

/-- How much may be put into the outbox without being written at once. -/
def outboxThreshold : Nat := 0x20000

namespace Connection

def fresh : Connection :=
  ⟨.active, [], none, none, none, []⟩

/-! ## Writing -/

/-- Writes the outbox. -/
def drain (c : Connection) (s : Socket) : Socket.Written × Connection × Socket :=
  let (written, outbox, s) := s.write c.outbox
  (written, { c with outbox }, s)

/-- Puts a parcel into the outbox, and writes the outbox when it is too full. -/
def enqueue (c : Connection) (s : Socket) (parcel : Parcel) :
    Socket.Written × Connection × Socket :=
  let c := { c with outbox := c.outbox ++ [parcel] }
  if outboxThreshold < Parcel.totalUnsent c.outbox then c.drain s
  else (.all, c, s)

/-- Puts the answer that is due into the outbox. -/
def enqueueAnswer (c : Connection) (s : Socket) : Socket.Written × Connection × Socket :=
  match c.answer with
  | none => (.all, c, s)
  | some frame => { c with answer := none }.enqueue s (.ofFrame frame)

/-- Writes everything that is due. -/
def flush (c : Connection) (s : Socket) : Socket.Written × Connection × Socket :=
  match c.enqueueAnswer s with
  | (.all, c, s) => c.drain s
  | stuck => stuck

/-- Writes a parcel, and then the answer that is due. -/
def sendParcel (c : Connection) (s : Socket) (parcel : Parcel) :
    Socket.Written × Connection × Socket :=
  match c.enqueue s parcel with
  | (.all, c, s) => c.flush s
  | stuck => stuck

def send (c : Connection) (s : Socket) (parcel : Parcel) : SendResult × Connection × Socket :=
  match c.standing with
  | .terminated => (.error .notConnected, c, s)
  | .closedByUs | .closedByPeer | .closeAcknowledged => (.error .link, c, s)
  | .active =>
    match c.sendParcel s parcel with
    | (.all, c, s) => (.ok (), c, s)
    | (.blocked, c, s) => (.error .timeout, c, s)
    | (.broken, c, s) => (.error .link, c, s)

/-- Sends a close, once, and writes everything that is due. An answer that stands back behind a
blocked close is put into the outbox all the same. -/
def close (c : Connection) (s : Socket) : Connection × Socket :=
  let (_, c, s) := match c.standing with
    | .active => { c with standing := .closedByUs }.sendParcel s (.ofFrame (.whole .close []))
    | _ => c.flush s
  (c.flush s).2

/-! ## Receiving -/

/-- What a frame comes to. -/
inductive Outcome
  | event (e : LinkEvent)
  /-- Nothing yet: more frames of the message have to come. -/
  | more

/-- A breach of the rules by the peer. -/
def breach : Outcome :=
  .event (.failed .protocol)

/-- Sets the answer to the peer. One to a close is not replaced. -/
def setAnswer (c : Connection) (frame : Frame) : Connection :=
  match c.answer with
  | none => { c with answer := some frame }
  | some old =>
    if old.header.opcode = .pong then { c with answer := some frame } else c

/-- Whether a payload is that of a close: nothing, or two octets and a text. -/
def isClosePayload (payload : Octets) : Bool :=
  match payload with
  | [] => true
  | [_] => false
  | _ :: _ :: reason => Utf8.isText reason

/-- Receives a control frame. -/
def receiveControl (c : Connection) (frame : Frame) : Outcome × Connection :=
  if !frame.header.isFinal || maxControlLength < frame.payload.length then (breach, c)
  else
    match frame.header.opcode with
    | .close =>
      if !isClosePayload frame.payload then (breach, c)
      else
        match c.standing with
        | .active =>
          (.event .disconnected,
            { c with standing := .closedByPeer }.setAnswer (.whole .close frame.payload))
        | .closedByUs => (.event .disconnected, { c with standing := .closeAcknowledged })
        | .closedByPeer | .closeAcknowledged | .terminated => (.more, c)
    | .ping =>
      (.event .keepAlive,
        if c.standing = .active then c.setAnswer (.whole .pong frame.payload) else c)
    | _ => (.event .keepAlive, c)

/-- Adds a payload to a message. The flag tells whether it could be added; a text keeps what it
could take. -/
def extend (payload : Octets) : Fragments → Bool × Fragments
  | .binary collected => (true, .binary (collected ++ payload))
  | .text collected dangling =>
    let (more, rest) := Utf8.split (dangling ++ payload)
    match Utf8.front rest with
    | .truncated => (true, .text (collected ++ more) rest)
    | .empty => (true, .text (collected ++ more) [])
    | .char _ _ | .invalid _ => (false, .text (collected ++ more) [])

/-- The event of a whole message. A text must not end inside a character. -/
def complete : Fragments → Outcome
  | .binary collected => .event (.data (Message.ofOctets collected))
  | .text collected dangling =>
    if dangling.isEmpty then .event (.data (Message.ofText (String.ofList collected))) else breach

/-- Receives a frame of a message whose earlier frames are known. -/
def receivePart (c : Connection) (frame : Frame) (earlier : Fragments) : Outcome × Connection :=
  match extend frame.payload earlier with
  | (false, fragments) => (breach, { c with fragments := some fragments })
  | (true, fragments) =>
    if frame.header.isFinal then (complete fragments, { c with fragments := none })
    else (.more, { c with fragments := some fragments })

/-- Receives the first frame of a message. -/
def receiveFirst (c : Connection) (frame : Frame) (fresh : Fragments) : Outcome × Connection :=
  match c.fragments with
  | some _ => (breach, c)
  | none =>
    match extend frame.payload fresh with
    | (false, _) => (breach, c)
    | (true, fragments) =>
      if frame.header.isFinal then (complete fragments, c)
      else (.more, { c with fragments := some fragments })

def receive (c : Connection) (frame : Frame) : Outcome × Connection :=
  if !c.standing.canRead || frame.header.isReserved || frame.header.isMasked then (breach, c)
  else
    match frame.header.opcode with
    | .continuation =>
      match c.fragments with
      | none => (breach, c)
      | some earlier => c.receivePart frame earlier
    | .text => c.receiveFirst frame (.text [] [])
    | .binary => c.receiveFirst frame (.binary [])
    | .close | .ping | .pong => c.receiveControl frame

/-- What the inbox holds. -/
inductive Arrival
  /-- Not yet a whole frame. -/
  | incomplete
  /-- Something that is no frame, or too long a one. -/
  | breach
  | frame (f : Frame)

/-- Takes the next frame out of the inbox. -/
def takeFrame (c : Connection) : Arrival × Connection :=
  match c.header with
  | some header =>
    if maxPayloadLength < header.length then (.breach, c)
    else
      match takeExactly? header.length c.inbox with
      | none => (.incomplete, c)
      | some (payload, inbox) => (.frame ⟨header, payload⟩, { c with header := none, inbox })
  | none =>
    match scanHeader c.inbox with
    | .incomplete => (.incomplete, c)
    | .unknown inbox => (.breach, { c with inbox })
    | .header header inbox =>
      if maxPayloadLength < header.length then (.breach, { c with header := some header, inbox })
      else
        match takeExactly? header.length inbox with
        | none => (.incomplete, { c with header := some header, inbox })
        | some (payload, inbox) => (.frame ⟨header, payload⟩, { c with inbox })

/-- The event of the end of the stream. -/
def finish (c : Connection) : LinkEvent × Connection :=
  let event := match c.standing with
    | .closedByPeer | .closeAcknowledged => LinkEvent.disconnected
    | .active | .closedByUs | .terminated => .failed .protocol
  (event, { c with standing := .terminated })

/-- Goes through what has arrived, for at most so many turns, until there is an event or nothing
more for now. -/
def pollFor : Nat → Connection → Socket → Option LinkEvent × Connection × Socket
  | 0, c, s => (none, c, s)
  | turns + 1, c, s =>
    match c.takeFrame with
    | (.breach, c) => (some (.failed .protocol), c, s)
    | (.frame frame, c) =>
      match c.receive frame with
      | (.event e, c) => (some e, c, s)
      | (.more, c) => pollFor turns c s
    | (.incomplete, c) =>
      match s.read with
      | (.octets octets, s) => pollFor turns { c with inbox := c.inbox ++ octets } s
      | (.nothing, s) => (none, c, s)
      | (.reset, s) =>
        (some (if c.standing.canRead then .failed .io else .disconnected), c, s)
      | (.ended, s) =>
        let (e, c) := c.finish
        (some e, c, s)

/-- The next event, if there is one. An answer that is due is written first; one for which there is
no room stays in the outbox until something else is written. -/
def poll (c : Connection) (s : Socket) : Option LinkEvent × Connection × Socket :=
  if c.standing = .terminated then (some .disconnected, c, s)
  else
    let turns := 2 + c.inbox.length + s.incoming.length
    if c.answer.isSome then
      match c.flush s with
      | (.broken, c, s) => (some (.failed .io), c, s)
      | (_, c, s) => pollFor turns c s
    else pollFor turns c s

end Connection

end Uplink.WebSocket
