import Uplink.WebSocket.Client

/-! # The peer of a client

The other end of a stream, as it is used to try out a client: it writes octets as told and reads
frames one by one. It answers a close when it looks for the next frame after it, and reads no
more from then on. -/

namespace Uplink.WebSocket

/-- What a peer that reads frames has seen of a close. -/
inductive PeerStanding
  | reading
  /-- It has read a close and not answered it. -/
  | answering
  | ended
deriving DecidableEq

/-- A client and the peer at the other end. -/
structure Pair where
  client : Client
  peer : PeerStanding

namespace Pair

def fresh : Pair :=
  ⟨.fresh, .reading⟩

def updateSocket (p : Pair) (f : Socket → Socket) : Pair :=
  { p with client := { p.client with socket := f p.client.socket } }

/-- The close that a peer writes. -/
def peerClose : Octets := [0x88, 0x00]

/-- The peer looks for a frame. -/
def peerRead (p : Pair) : Option Frame × Pair :=
  match p.peer with
  | .ended => (none, p)
  | .answering =>
    (none, { p.updateSocket (·.peerWrite peerClose) with peer := .ended })
  | .reading =>
    let (frame?, socket) := p.client.socket.peerRead p.client.connection.outbox.head?
    let p := { p with client := { p.client with socket } }
    match frame? with
    | none => (none, p)
    | some frame =>
      (some frame, if frame.header.opcode = .close then { p with peer := .answering } else p)

/-- The peer looks for so many frames, or until there is none. The flag tells whether there was
none. A peer that has thrown the stream away does not look. -/
def peerReadMany (p : Pair) : Nat → List Frame × Bool × Pair
  | 0 => ([], false, p)
  | count + 1 =>
    if p.client.socket.isBroken then ([], false, p)
    else
      match p.peerRead with
      | (none, p) => ([], true, p)
      | (some frame, p) =>
        let (frames, ended, p) := p.peerReadMany count
        (frame :: frames, ended, p)

end Pair

end Uplink.WebSocket
