import Uplink.Kv.Backend

/-! # The key-value store

Callers put requests into a bounded channel and wait for their replies; one worker takes the
requests in order and executes them on the backend. A caller that gives up leaves its request in
the channel, where it is executed all the same. `admit`, `take` and `execute` are the atomic
steps; the requests below are callers that follow one another. -/

namespace Uplink.Kv

def channelDepth : Nat := 10

/-- How long a caller waits for room in the channel, in milliseconds. -/
def enqueueTimeout : Nat := 100

/-- How long a caller waits for its reply, in milliseconds. -/
def replyTimeout : Nat := 500

inductive Request
  /-- A command, and the number under which its reply is left. -/
  | command (id : Nat) (c : Command)
  /-- The end of the worker. -/
  | shutdown
deriving DecidableEq

inductive WorkerState
  | idle
  /-- It has taken a command and not executed it. -/
  | holding (id : Nat) (c : Command)
  /-- It has ended as asked. -/
  | stopped
  /-- The backend took it down. -/
  | broken
deriving DecidableEq

/-- A store over a backend. `isStalled` tells that the backend stands before its next command and
does not go on. -/
structure Store (σ : Type) where
  backend : σ
  channel : List Request
  worker : WorkerState
  isClosed : Bool
  isStalled : Bool
  replies : List (Nat × Reply)
  nextId : Nat

namespace Store

variable {σ : Type}

def spawn (backend : σ) : Store σ :=
  ⟨backend, [], .idle, false, false, [], 0⟩

/-! ## Steps -/

/-- Puts a request into the channel, if there is room. -/
def enqueue? (s : Store σ) (r : Request) : Option (Store σ) :=
  if s.channel.length < channelDepth then some { s with channel := s.channel ++ [r] } else none

/-- A caller puts a command into the channel, if there is room, and learns its number. -/
def admit? (s : Store σ) (c : Command) : Option (Nat × Store σ) :=
  ({ s with nextId := s.nextId + 1 }.enqueue? (.command s.nextId c)).map (s.nextId, ·)

def take? (s : Store σ) : Option (Store σ) :=
  match s.worker, s.channel with
  | .idle, .command id c :: channel => some { s with worker := .holding id c, channel }
  | .idle, .shutdown :: channel => some { s with worker := .stopped, channel }
  | _, _ => none

/-- The worker executes the command that it holds and leaves the reply. -/
def execute? [Backend σ] (s : Store σ) : Option (Store σ) :=
  match s.worker with
  | .holding id c =>
    match Backend.execute s.backend c with
    | (some reply, backend) =>
      some { s with backend, worker := .idle, replies := (id, reply) :: s.replies }
    | (none, backend) => some { s with backend, worker := .broken }
  | _ => none

/-- One step of the worker: what it holds comes before what it takes. A stalled backend executes
nothing. -/
def workerStep? [Backend σ] (s : Store σ) : Option (Store σ) :=
  if s.isStalled then s.take? else s.execute? <|> s.take?

/-- The worker runs for at most so many steps. -/
def runFor [Backend σ] : Nat → Store σ → Store σ
  | 0, s => s
  | steps + 1, s =>
    match s.workerStep? with
    | some s => runFor steps s
    | none => s

/-- The worker runs until it can do no more: two steps for each request at most, and one for what
it holds. -/
def settle [Backend σ] (s : Store σ) : Store σ :=
  s.runFor (2 * s.channel.length + 1)

/-! ## Callers -/

/-- Enqueues a command as a caller does who waits as long as it may while nobody else calls. -/
def offer [Backend σ] (s : Store σ) (c : Command) : Except KvError Nat × Store σ :=
  if s.isClosed then (.error .closed, s)
  else
    match s.admit? c with
    | some (id, s) => (.ok id, s.settle)
    | none => (.error .queueFull, s)

/-- The reply to a numbered command, or none in time. -/
def replyTo (s : Store σ) (id : Nat) : Reply :=
  (s.replies.lookup id).getD (.error .timeout)

/-- A whole request: enqueue the command and wait for its reply. -/
def request [Backend σ] (s : Store σ) (c : Command) : Reply × Store σ :=
  match s.offer c with
  | (.ok id, s) => (s.replyTo id, s)
  | (.error e, s) => (.error e, s)

def set [Backend σ] (s : Store σ) (name : String) (value : Value) :
    Except KvError Unit × Store σ :=
  match Key.ofName? name with
  | none => (.error .invalidKey, s)
  | some key =>
    let (reply, s) := s.request (.set key value)
    (reply.map fun _ => (), s)

/-- Gets the value of a key. A reply without value, or with one of another kind, counts as
nothing found. -/
def get [Backend σ] (s : Store σ) (name : String) (kind : Kind) :
    Except KvError Value × Store σ :=
  match Key.ofName? name with
  | none => (.error .invalidKey, s)
  | some key =>
    match s.request (.get key kind) with
    | (.ok (some value), s) =>
      (if value.kind = kind then .ok value else .error .notFound, s)
    | (.ok none, s) => (.error .notFound, s)
    | (.error e, s) => (.error e, s)

def getStr [Backend σ] (s : Store σ) (name : String) : Except KvError String × Store σ :=
  match s.get name .str with
  | (.ok (.str text), s) => (.ok text, s)
  | (.ok _, s) => (.error .notFound, s)
  | (.error e, s) => (.error e, s)

def getU32 [Backend σ] (s : Store σ) (name : String) : Except KvError UInt32 × Store σ :=
  match s.get name .u32 with
  | (.ok (.u32 n), s) => (.ok n, s)
  | (.ok _, s) => (.error .notFound, s)
  | (.error e, s) => (.error e, s)

def getBlob [Backend σ] (s : Store σ) (name : String) : Except KvError Octets × Store σ :=
  match s.get name .blob with
  | (.ok (.blob octets), s) => (.ok octets, s)
  | (.ok _, s) => (.error .notFound, s)
  | (.error e, s) => (.error e, s)

def reset [Backend σ] (s : Store σ) : Except KvError Unit × Store σ :=
  let (reply, s) := s.request .erase
  (reply.map fun _ => (), s)

/-- Closes the store to new requests and ends the worker. The worker is told through the channel;
when there is no room for that in time, it is left to itself. -/
def shutdown [Backend σ] (s : Store σ) : Store σ :=
  if s.isClosed then s
  else
    let s := { s with isClosed := true }
    match s.enqueue? .shutdown with
    | some s => s.settle
    | none => s

/-- The backend stops before its next command. -/
def stall (s : Store σ) : Store σ :=
  { s with isStalled := true }

/-- The backend goes on, and the worker with it. -/
def resume [Backend σ] (s : Store σ) : Store σ :=
  { s with isStalled := false }.settle

/-- Enqueues commands of as many callers, one after the other. -/
def offerAll [Backend σ] (s : Store σ) : List Command → List (Except KvError Nat) × Store σ
  | [] => ([], s)
  | c :: cs =>
    let (offered, s) := s.offer c
    let (rest, s) := s.offerAll cs
    (offered :: rest, s)

def answers (s : Store σ) (offered : List (Except KvError Nat)) : List Reply :=
  offered.map fun
    | .ok id => s.replyTo id
    | .error e => .error e

/-- Many callers at once, each setting the number `i` under the key `k` with `i` appended; with a
shutdown while they wait, if wanted. -/
def flood [Backend σ] (s : Store σ) (count : Nat) (shuttingDown : Bool) :
    List (Except KvError Unit) × Store σ :=
  let commands := (List.range count).filterMap fun i =>
    (Key.ofName? ("k" ++ Nat.repr i)).map fun key => .set key (.u32 i.toUInt32)
  let (offered, s) := s.offerAll commands
  let s := if shuttingDown then s.shutdown else s
  ((s.answers offered).map fun reply => reply.map fun _ => (), s)

end Store

end Uplink.Kv
