import Uplink.WebSocket.Connection
import Uplink.WebSocket.Target
import Uplink.WebSocket.Upgrade

/-! # The client

A link over a WebSocket connection. Text goes out in text frames and everything else in binary
ones; a message that comes in is cut by its kind. -/

namespace Uplink.WebSocket

/-- A client's link: the connection and its stream. -/
structure Client where
  connection : Connection
  socket : Socket

def dataFrame (octets : Octets) : Frame :=
  .whole (if Utf8.isText octets then .text else .binary) octets

namespace Client

def fresh : Client :=
  ⟨.fresh, .fresh⟩

def sendParcel (c : Client) (parcel : Parcel) : SendResult × Client :=
  let (result, connection, socket) := c.connection.send c.socket parcel
  (result, ⟨connection, socket⟩)

def send (c : Client) (octets : Octets) : SendResult × Client :=
  c.sendParcel (.ofFrame (dataFrame octets))

/-- Sends a text that repeats one letter. -/
def sendRepeated (c : Client) (letter : UInt8) (count : Nat) : SendResult × Client :=
  c.sendParcel (.whole .text (.repeated letter count))

def poll (c : Client) : Option LinkEvent × Client :=
  let (event?, connection, socket) := c.connection.poll c.socket
  (event?, ⟨connection, socket⟩)

/-- Polls until there are so many events, or no more for now. -/
def pollMany (c : Client) : Nat → List LinkEvent × Client
  | 0 => ([], c)
  | count + 1 =>
    match c.poll with
    | (none, c) => ([], c)
    | (some event, c) =>
      let (events, c) := c.pollMany count
      (event :: events, c)

def close (c : Client) : Client :=
  let (connection, socket) := c.connection.close c.socket
  ⟨connection, socket⟩

instance : Link Client where
  send c octets _ := c.send octets
  poll := poll
  close := close

/-- Connects to a URI within a time, in milliseconds. The dial succeeds, and the peer answers the
upgrade as told: it accepts, or writes some octets and closes the stream or keeps silent. -/
def connect (uri : String) (timeout : Nat) (refusal : Option (Octets × Bool)) :
    Except ConnectError Client :=
  match dialed uri with
  | .error e => .error e
  | .ok _ =>
    if timeout = 0 then .error .unreachable
    else
      match refusal with
      | none => .ok fresh
      | some (answer, keepsSilent) => .error (refusedUpgrade answer keepsSilent)

end Client

end Uplink.WebSocket
