import Uplink.Link
import Uplink.Utf8

/-! # The answer to an upgrade

A client that asks for an upgrade reads the head of the answer octet by octet: empty lines, a
status line, header lines, and an empty line at the end. Once the head is whole or cannot become
one, it is settled; until then the client waits. -/

namespace Uplink.WebSocket

/-- How far a head has been read. -/
inductive HeadState
  /-- Nothing but empty lines. -/
  | blank
  /-- A carriage return in front of the status line. -/
  | blankReturn
  /-- So many octets of the version. -/
  | version (count : Nat)
  /-- The whole version. -/
  | versionEnd
  /-- So many digits of the status code. -/
  | code (count : Nat)
  /-- The whole status code. -/
  | codeEnd
  /-- The reason. -/
  | reason
  /-- A carriage return at the end of the status line. -/
  | reasonReturn
  /-- The start of a line after so many header lines. -/
  | line (count : Nat)
  /-- The name of a header. -/
  | name (count : Nat)
  /-- Blanks in front of a value, or the value. -/
  | value (count : Nat)
  /-- A carriage return at the end of a header line. -/
  | valueReturn (count : Nat)
  /-- A carriage return on the last line. -/
  | lastReturn
  /-- The end of the head. -/
  | whole
  /-- No head begins like this. -/
  | broken
deriving DecidableEq

namespace HeadState

/-- Line feed, carriage return, horizontal tab, blank, colon. -/
def lf : UInt8 := 0x0A
def cr : UInt8 := 0x0D
def tab : UInt8 := 0x09
def blankOctet : UInt8 := 0x20
def colon : UInt8 := 0x3A

/-- The version up to its last digit. -/
def versionStart : Octets := Utf8.ofString "HTTP/1."

def isDigit (b : UInt8) : Bool :=
  0x30 ≤ b && b ≤ 0x39

def isNameOctet (b : UInt8) : Bool :=
  isDigit b || (0x41 ≤ b && b ≤ 0x5A) || (0x61 ≤ b && b ≤ 0x7A)
    || (Utf8.ofString "!#$%&'*+-.^_\x60|~").contains b

/-- What a header value or a reason is made of. -/
def isTextOctet (b : UInt8) : Bool :=
  b = tab || (blankOctet ≤ b && b ≠ 0x7F)

def maxHeaders : Nat := 124

/-- The end of a header line after so many others. One too many is noticed only here. -/
def endOfLine (count : Nat) : HeadState :=
  if count < maxHeaders then .line (count + 1) else .broken

def step (s : HeadState) (b : UInt8) : HeadState :=
  match s with
  | .blank =>
    if b = cr then .blankReturn
    else if b = lf then .blank
    else if b = 0x48 then .version 1
    else .broken
  | .blankReturn => if b = lf then .blank else .broken
  | .version count =>
    if count = versionStart.length then
      if b = 0x30 || b = 0x31 then .versionEnd else .broken
    else if versionStart[count]? = some b then .version (count + 1)
    else .broken
  | .versionEnd => if b = blankOctet then .code 0 else .broken
  | .code count =>
    if !isDigit b then .broken else if count = 2 then .codeEnd else .code (count + 1)
  | .codeEnd =>
    if b = blankOctet then .reason
    else if b = cr then .reasonReturn
    else if b = lf then .line 0
    else .broken
  | .reason =>
    if b = cr then .reasonReturn
    else if b = lf then .line 0
    else if isTextOctet b then .reason
    else .broken
  | .reasonReturn => if b = lf then .line 0 else .broken
  | .line count =>
    if b = cr then .lastReturn
    else if b = lf then .whole
    else if isNameOctet b then .name count
    else .broken
  | .name count =>
    if isNameOctet b then .name count
    else if b = colon then .value count
    else .broken
  | .value count =>
    if isTextOctet b then .value count
    else if b = cr then .valueReturn count
    else if b = lf then endOfLine count
    else .broken
  | .valueReturn count => if b = lf then endOfLine count else .broken
  | .lastReturn => if b = lf then .whole else .broken
  | .whole => .whole
  | .broken => .broken

def ofOctets (octets : Octets) : HeadState :=
  octets.foldl step .blank

/-- Whether nothing that follows can change what the head is. -/
def isSettled (s : HeadState) : Bool :=
  s = .whole || s = .broken

end HeadState

/-- The most octets that are read in search of the end of a head. -/
def maxHeadLength : Nat := 65536

/-- The error of a connect whose peer answers the upgrade with some octets and nothing else, and
then closes the stream or keeps silent. No such answer is an upgrade, since a peer has to show
that it has read the request. -/
def refusedUpgrade (answer : Octets) (keepsSilent : Bool) : ConnectError :=
  if keepsSilent && !(HeadState.ofOctets answer).isSettled && answer.length ≤ maxHeadLength then
    .timeout
  else .handshakeRejected

end Uplink.WebSocket
