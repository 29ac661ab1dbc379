import Uplink.Address
import Uplink.Link

/-! # Dial targets

Whom a client dials for a URI: the host and port of its authority. Only plain connections can be
made, and only to addresses; no name is known. -/

namespace Uplink.WebSocket

def defaultPort : UInt16 := 80

/-- The greatest chunk in which a client on the device receives a frame. -/
def frameBufferSize : Nat := 1024

/-- The only scheme for which a connection can be made. -/
def plainScheme : List Char := ['w', 's']

structure Target where
  host : List Char
  port : UInt16
deriving DecidableEq

/-- A host without the brackets around it. -/
def trimBrackets (host : List Char) : List Char :=
  ((host.dropWhile (· = '[')).reverse.dropWhile (· = ']')).reverse

/-- Whether an authority names somebody after its user information. -/
def namesPeer (authority : List Char) : Bool :=
  match authority.dropWhile (· ≠ '@') with
  | [] => !authority.isEmpty
  | _ :: place => !place.isEmpty

def Target.ofUri (uri : Uri) : Except ConnectError Target :=
  let host := trimBrackets (Uri.hostOf uri.authority)
  if namesPeer uri.authority && uri.scheme = some plainScheme && !host.isEmpty then
    .ok ⟨host, (Uri.portOf? uri.authority).getD defaultPort⟩
  else .error .invalidUri

def Target.parse (text : String) : Except ConnectError Target :=
  match Uri.parse? text with
  | some uri => Target.ofUri uri
  | none => .error .invalidUri

def Target.resolve (t : Target) : Except ConnectError Address :=
  match Address.ofChars? t.host with
  | some address => .ok address
  | none => .error .unreachable

/-- The address and port that are dialed for a text. -/
def dialed (text : String) : Except ConnectError (Address × UInt16) :=
  match Target.parse text with
  | .ok target => target.resolve.map (·, target.port)
  | .error e => .error e

inductive DialFault
  | timeout
  | refused
  | hostUnreachable
  | netUnreachable
  | reset
  | denied
deriving DecidableEq

def DialFault.error : DialFault → ConnectError
  | .timeout => .timeout
  | .refused | .hostUnreachable | .netUnreachable | .reset | .denied => .unreachable

/-- The error of a connect whose dial fails, if it comes to that. -/
def failedDial (text : String) (fault : DialFault) : ConnectError :=
  match dialed text with
  | .ok _ => fault.error
  | .error e => e

end Uplink.WebSocket
