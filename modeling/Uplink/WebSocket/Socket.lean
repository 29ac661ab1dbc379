import Uplink.WebSocket.Frame

/-! # Stream sockets

The stream between a client and its peer. What the peer wrote lies there as octets until the
client reads it. What the client writes is laid into blocks, which take room until the peer has
read them to their end, and becomes a frame once all of it is written. -/

namespace Uplink.WebSocket

/-! ## Room -/

/-- The room that blocks may take before no further one is begun. -/
def socketCapacity : Nat := 212992

/-- The unit in which the tail of a long block takes room. -/
def pageSize : Nat := 4096

/-- The most octets in the head of a block. -/
def maxHeadSize : Nat := 3776

/-- The most octets in one block: a full head and eight pages. -/
def maxBlockSize : Nat := maxHeadSize + 8 * pageSize

def wholePages (size : Nat) : Nat :=
  (size + pageSize - 1) / pageSize * pageSize

/-- The room that the head of a block takes: the next power of two with space for 320 octets more,
and 256 octets of its own. -/
def headRoom (size : Nat) : Nat :=
  256 +
    (if size ≤ 192 then 512 else if size ≤ 704 then 1024 else if size ≤ 1728 then 2048 else 4096)

/-- Octets that were written together. -/
structure Block where
  /-- How many of them are unread. -/
  size : Nat
  /-- The room that they take until the last of them is read. -/
  room : Nat
deriving DecidableEq

namespace Block

/-- A block just written. What its head cannot hold lies in pages, and those are filled first. -/
def ofSize (size : Nat) : Block :=
  let paged := min size (wholePages (size - maxHeadSize))
  ⟨size, headRoom (size - paged) + wholePages paged⟩

def totalRoom (blocks : List Block) : Nat :=
  blocks.foldl (fun n block => n + block.room) 0

def totalSize (blocks : List Block) : Nat :=
  blocks.foldl (fun n block => n + block.size) 0

/-- The blocks into which octets are laid where so much room is taken already, as far as there is
room to begin one. -/
def laid (taken octets : Nat) : List Block :=
  if octets = 0 ∨ socketCapacity ≤ taken then []
  else
    let block := ofSize (min octets maxBlockSize)
    block :: laid (taken + block.room) (octets - maxBlockSize)
termination_by octets
decreasing_by simp only [maxBlockSize, maxHeadSize, pageSize]; omega

/-- What is left of blocks after so many octets were read. -/
def drop : Nat → List Block → List Block
  | _, [] => []
  | octets, block :: blocks =>
    if block.size ≤ octets then drop (octets - block.size) blocks
    else { block with size := block.size - octets } :: blocks

end Block

/-! ## Streams -/

/-- Both directions of a stream. -/
structure Socket where
  /-- What the peer wrote. -/
  incoming : Octets
  /-- Whether the peer will write no more. -/
  isFinished : Bool
  /-- Whether the client is still to learn that the peer has thrown the stream away. -/
  isReset : Bool
  /-- Whether nobody is there to read what the client writes. -/
  isBroken : Bool
  /-- What is written in whole and the peer has not taken up. -/
  outgoing : List Parcel
  /-- What the peer has not read. -/
  unread : List Block
  /-- The octets that the peer has read and not taken up. -/
  buffered : Nat

namespace Socket

def fresh : Socket :=
  ⟨[], false, false, false, [], [], 0⟩

/-- What a read gives. -/
inductive Received
  | octets (octets : Octets)
  /-- The end of the stream. -/
  | ended
  /-- The news that the stream was thrown away. -/
  | reset
  /-- Nothing for now. -/
  | nothing

/-- Reads what is there. -/
def read (s : Socket) : Received × Socket :=
  if !s.incoming.isEmpty then (.octets s.incoming, { s with incoming := [] })
  else if s.isReset then (.reset, { s with isReset := false })
  else if s.isFinished then (.ended, s)
  else (.nothing, s)

/-- How a write ends. -/
inductive Written
  /-- Everything is written. -/
  | all
  /-- There is no more room. -/
  | blocked
  /-- Nobody is there to read it. -/
  | broken
deriving DecidableEq

/-- Writes parcels as far as there is room, and returns what is left of them. -/
def write (s : Socket) (parcels : List Parcel) : Written × List Parcel × Socket :=
  if parcels.isEmpty then (.all, [], s)
  else if s.isBroken then (.broken, parcels, s)
  else
    let blocks := Block.laid (Block.totalRoom s.unread) (Parcel.totalUnsent parcels)
    let (written, left) := Parcel.advance (Block.totalSize blocks) parcels
    (if left.isEmpty then .all else .blocked, left,
      { s with outgoing := s.outgoing ++ written, unread := s.unread ++ blocks })

/-! ## The other end -/

/-- The peer writes, unless it has said that it will write no more. -/
def peerWrite (s : Socket) (octets : Octets) : Socket :=
  if s.isFinished then s else { s with incoming := s.incoming ++ octets }

/-- The peer will write no more. -/
def peerFinish (s : Socket) : Socket :=
  { s with isFinished := true }

/-- The peer throws the stream away, once. The client learns of it as a reset if something was
left unread, and as the end of the stream otherwise. -/
def peerAbandon (s : Socket) : Socket :=
  if s.isBroken then s
  else { s with isFinished := true, isReset := !s.unread.isEmpty, isBroken := true }

/-- How much the peer reads at once. -/
def peerChunk : Nat := 4096

/-- The peer reads chunks until it has so many octets, or all there are. -/
def peerFill (s : Socket) (wanted : Nat) : Socket :=
  let chunks := (wanted - s.buffered + peerChunk - 1) / peerChunk
  let count := min (Block.totalSize s.unread) (chunks * peerChunk)
  { s with unread := Block.drop count s.unread, buffered := s.buffered + count }

/-- How much the peer wants of a parcel that is not written in whole: all of it, or no more than
the header of one that is too long. -/
def peerWants (coming : Option Parcel) : Option Nat :=
  match coming with
  | some parcel =>
    if maxPayloadLength < parcel.payload.length then some (headerSize parcel.payload.length)
    else none
  | none => none

/-- The peer takes up the next frame. Where none is whole it reads what there is of the one that
is still coming. -/
def peerRead (s : Socket) (coming : Option Parcel) : Option Frame × Socket :=
  match s.outgoing with
  | [] =>
    let present := s.buffered + Block.totalSize s.unread
    (none, s.peerFill (match peerWants coming with
      | some wanted => min wanted present
      | none => present))
  | parcel :: outgoing =>
    let s := s.peerFill parcel.size
    (some parcel.frame, { s with outgoing, buffered := s.buffered - parcel.size })

end Socket

end Uplink.WebSocket
