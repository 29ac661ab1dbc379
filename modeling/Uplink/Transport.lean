import Uplink.Error
import Uplink.Queue.Pending
import Uplink.Worker

/-! # Transports

A transport runs at most one worker at a time, each over a block of its own, and holds one target
at a time. Two places under a lock say which run is in progress and which was left behind by a
stop that could not wait any longer. Starting and stopping are procedures of several steps, since
both wait for a worker without holding the lock; whatever else happens may come between two
steps. -/

namespace Uplink

/-- One run: a worker and the block that it shares with the callers. -/
structure Run where
  worker : Worker
  shared : Shared

/-- A transport. Runs are numbered from zero in order of their start, and stay in the list. -/
structure Transport where
  config : LinkConfig
  outboundCapacity : Nat
  inboundCapacity : Nat
  runs : List Run
  /-- The run in progress. -/
  running : Option Nat
  /-- A run that a stop has left behind. -/
  detached : Option Nat

namespace Transport

/-- A stopped transport. The configuration has to be valid. -/
def create (config : LinkConfig) (outbound inbound : Nat) : Except TransportError Transport :=
  match config.validate with
  | .ok () => .ok ⟨config, outbound, inbound, [], none, none⟩
  | .error e => .error (.ofConfigError e)

def updateRun (t : Transport) (id : Nat) (f : Run → Run) : Transport :=
  { t with runs := t.runs.modify id f }

def updateShared (t : Transport) (id : Nat) (f : Shared → Shared) : Transport :=
  t.updateRun id fun run => { run with shared := f run.shared }

def launch (t : Transport) (uri : String) (now : Instant) : Transport :=
  let shared := Shared.fresh t.outboundCapacity t.inboundCapacity now
  { t with
    runs := t.runs ++ [⟨.fresh uri t.config now, shared⟩]
    running := some t.runs.length }

def stepWorker {σ : Type} [Connector σ] (t : Transport) (net : σ) (now : Instant) (id : Nat) :
    Transport × σ :=
  match t.runs[id]? with
  | none => (t, net)
  | some run =>
    let (worker, shared, net) := run.worker.step run.shared net now
    (t.updateRun id fun _ => ⟨worker, shared⟩, net)

/-! ## Starting and stopping -/

/-- How far a caller has looked who waits for an exit. -/
inductive ExitStage
  /-- At the flag next. -/
  | flag
  /-- At the signal next. -/
  | signal
  /-- At the grace timer next. -/
  | timer
  /-- It has seen nothing and sleeps until it is woken. -/
  | asleep
deriving DecidableEq

/-- What is left to do of a start or a stop; each step is atomic. -/
inductive Procedure
  /-- Takes up a run that was left behind. -/
  | reap (uri : String)
  /-- Starts a run unless one is in progress. -/
  | launch (uri : String)
  /-- Takes the run in progress. -/
  | take
  /-- Writes to the block of a run. -/
  | write (run : Nat) (writes : List Write) (next : Procedure)
  /-- Waits for the exit of a run's worker, for the grace period at most. -/
  | await (run : Nat) (alarm : Option Instant) (stage : ExitStage) (exited late : Procedure)
  /-- Leaves a run behind. -/
  | detach (run : Nat) (next : Procedure)
  | finished (result : Except TransportError Unit)

namespace Procedure

def awaitExit (run : Nat) (exited late : Procedure) : Procedure :=
  .await run none .flag exited late

/-- Starts a run. One that was left behind has to exit first. -/
def start (uri : String) : Procedure :=
  .reap uri

/-- The end of a stop: both queues are cleared, and the run is published as stopped. -/
def conclude (run : Nat) : Procedure :=
  .write run ([.clearOutbound, .clearInbound] ++ Write.publish .stopped) (.finished (.ok ()))

/-- Stops a run: its worker is asked to end, and left behind if it does not in time. -/
def stopRun (run : Nat) : Procedure :=
  .write run (Write.publish .stopping ++ [.requested, .request])
    (awaitExit run (conclude run) (.detach run (conclude run)))

def stop : Procedure :=
  .take

end Procedure

def grace (t : Transport) : Nat :=
  Worker.duration t.config.shutdownGrace

/-- A caller who waits for an exit looks at the next thing that may end the wait. -/
def lookForExit (t : Transport) (now : Instant) (caller : Waker) (run : Nat) (shared : Shared)
    (alarm : Option Instant) (exited late : Procedure) : ExitStage → Transport × Procedure
  | .flag =>
    if shared.stop.hasExited then (t, exited) else (t, .await run alarm .signal exited late)
  | .signal =>
    let (seen, stop, _) := shared.stop.pollExit caller
    (t.updateShared run fun shared => { shared with stop },
      if seen then exited else .await run alarm .timer exited late)
  | .timer =>
    let due := alarm.getD (now + t.grace)
    (t, if due ≤ now then late else .await run (some due) .asleep exited late)
  | .asleep => (t, .await run alarm .signal exited late)

def stepCall (t : Transport) (now : Instant) (caller : Waker) : Procedure → Transport × Procedure
  | .reap uri =>
    match t.detached with
    | none => (t, .launch uri)
    | some run =>
      ({ t with detached := none },
        .awaitExit run (.launch uri) (.detach run (.finished (.error .busy))))
  | .launch uri =>
    match t.running with
    | some _ => (t, .finished (.error .alreadyStarted))
    | none => (t.launch uri now, .finished (.ok ()))
  | .take =>
    match t.running with
    | none => (t, .finished (.ok ()))
    | some run => ({ t with running := none }, .stopRun run)
  | .write _ [] next => (t, next)
  | .write run (w :: ws) next => (t.updateShared run (·.write w), .write run ws next)
  | .await run alarm stage exited late =>
    match t.runs[run]? with
    | none => (t, late)
    | some r => t.lookForExit now caller run r.shared alarm exited late stage
  | .detach run next => ({ t with detached := some run }, next)
  | .finished result => (t, .finished result)

/-! ## What callers see -/

def run? (t : Transport) : Option Run :=
  t.running >>= fun id => t.runs[id]?

def shared? (t : Transport) : Option Shared :=
  t.run?.map (·.shared)

def isRunning (t : Transport) : Bool :=
  t.running.isSome

def isConnected (t : Transport) : Bool :=
  t.shared?.elim false (·.status.isConnected)

def state (t : Transport) : TransportState :=
  t.shared?.elim .stopped (·.status.state)

def stats (t : Transport) : LinkStats :=
  t.shared?.elim .zero (·.status.stats)

/-- The time of the last sign of life in the run in progress. -/
def lastActivity? (t : Transport) : Option Instant :=
  t.shared? >>= (·.status.lastActivity?)

def uri? (t : Transport) : Option String :=
  t.run?.map (·.worker.uri)

def outboundDepth (t : Transport) : Nat :=
  t.shared?.elim 0 (·.outbound.length)

def inboundDepth (t : Transport) : Nat :=
  t.shared?.elim 0 (·.inbound.length)

/-! ## Sending and receiving

A caller takes up the block of the run in progress once and works on that block from then on. -/

/-- Looks once for room in the outbound queue of a run. -/
def trySend (t : Transport) (run : Nat) (m : Message) : Bool × Transport :=
  match t.runs[run]? >>= fun r => r.shared.outbound.tryPush? m with
  | some (outbound, _) => (true, t.updateShared run fun shared => { shared with outbound })
  | none => (false, t)

/-- Looks once for a message in the inbound queue of a run. -/
def tryReceive (t : Transport) (run : Nat) : Option Message × Transport :=
  match t.runs[run]? >>= fun r => r.shared.inbound.tryPop? with
  | some (m, inbound, _) => (some m, t.updateShared run fun shared => { shared with inbound })
  | none => (none, t)

/-- Polls a send to a run at a moment when its time limit has or has not passed. -/
def pollSend (t : Transport) (run : Nat) (pending : Queue.Pending Message) (expired : Bool) :
    Queue.Progress Message × Transport × Queue.Pending Message :=
  match t.runs[run]? with
  | none => (.late, t, pending)
  | some r =>
    let (progress, outbound, pending, _) := pending.poll r.shared.outbound expired
    (progress, t.updateShared run fun shared => { shared with outbound }, pending)

def pollReceive (t : Transport) (run : Nat) (pending : Queue.Pending Message) (expired : Bool) :
    Queue.Progress Message × Transport × Queue.Pending Message :=
  match t.runs[run]? with
  | none => (.late, t, pending)
  | some r =>
    let (progress, inbound, pending, _) := pending.poll r.shared.inbound expired
    (progress, t.updateShared run fun shared => { shared with inbound }, pending)

end Transport

end Uplink
