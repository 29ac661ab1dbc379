import Uplink.Network
import Uplink.Transport

/-! # A transport over time

A transport on a scripted network, with a clock that moves only while everybody waits. Steps take
no time. A worker that waits with a timer is carried to it when little is missing; otherwise it
stands until somebody sleeps past the timer. -/

namespace Uplink

structure Timeline where
  transport : Transport
  net : Network
  now : Instant

namespace Timeline

/-- How late a timer fires. -/
def lateness : Nat := 1

/-- The waits that pass by themselves are shorter than this. -/
def patience : Nat := milliseconds 1000

/-! ## Workers -/

/-- Whether a worker would get on at this moment. A connect has to have an outcome, and no link is
polled while the network is held. -/
def canStep (net : Network) (now : Instant) (run : Run) : Bool :=
  match run.worker.todo, run.worker.phase with
  | _ :: _, _ => true
  | [], .connecting => !net.isDialing || !net.outcomes.isEmpty
  | [], .pumping left => !(net.isHeld && left != 0 && run.worker.session.isSome)
  | [], .waiting purpose _ (some alarm) .asleep =>
    alarm ≤ now || run.shared.stop.isRequested
      || purpose == .work && !run.shared.outbound.isEmpty
  | [], .exited => false
  | [], _ => true

/-- What the record says of a step that a worker is about to make. -/
def remark? (run : Run) : Option Entry :=
  match run.worker.todo, run.worker.phase with
  | .write (.count .staleDisconnects) :: _, _ => some .stale
  | .write .exit :: _, _ => some .exit
  | .write (.count .connectFailures) :: _, .waiting .retry bound _ _ =>
    some (.retryIn (bound / milliseconds 1))
  | _, _ => none

/-- Whether a worker is about to begin a connect. -/
def isAtDial (net : Network) (run : Run) : Bool :=
  match run.worker.todo, run.worker.phase with
  | [], .connecting => !net.isDialing
  | _, _ => false

/-- A worker makes one step, or begins a connect. -/
def stepRun (l : Timeline) (id : Nat) (run : Run) : Timeline :=
  if isAtDial l.net run then
    { l with net := l.net.dial run.worker.uri run.worker.config.connectTimeout.toNat }
  else
    let net := match remark? run with
      | some entry => l.net.note entry
      | none => l.net
    let (transport, net) := l.transport.stepWorker net l.now id
    { l with transport, net }

/-- The first worker that gets on at this moment makes one step. -/
def stepFrom (l : Timeline) (id : Nat) : List Run → Option Timeline
  | [] => none
  | run :: runs =>
    if canStep l.net l.now run then some (l.stepRun id run) else l.stepFrom (id + 1) runs

/-- The workers run for at most so many steps, until none gets on at this moment. -/
def runFor : Nat → Timeline → Timeline
  | 0, l => l
  | steps + 1, l =>
    match l.stepFrom 0 l.transport.runs with
    | some l => runFor steps l
    | none => l

/-! ## Timers -/

def alarm? (run : Run) : Option Instant :=
  match run.worker.todo, run.worker.phase with
  | [], .waiting _ _ alarm .asleep => alarm
  | _, _ => none

/-- The timer of a sleeping worker that is not left standing: a short delay, or the next look at a
link for which something is there. -/
def nearAlarm? (net : Network) (run : Run) : Option Instant :=
  match run.worker.todo, run.worker.phase with
  | [], .waiting .retry bound alarm .asleep => if bound < patience then alarm else none
  | [], .waiting .work _ alarm .asleep => if net.isHeld || !net.events.isEmpty then alarm else none
  | _, _ => none

def earliest? (moments : List Instant) : Option Instant :=
  moments.min?

/-- Moves the clock to a moment, unless it is past. -/
def advanceTo (l : Timeline) (moment : Instant) : Timeline :=
  { l with now := max l.now moment }

/-- Carries the clock to the earliest near timer, as long as there is one; `budget` bounds the
steps in all. -/
def settleFor : Nat → Timeline → Timeline
  | 0, l => l
  | budget + 1, l =>
    let l := l.runFor (budget + 1)
    match earliest? (l.transport.runs.filterMap (nearAlarm? l.net)) with
    | some alarm => settleFor budget (l.advanceTo (alarm + lateness))
    | none => l

/-- More steps than the script, the queues and the waits of an operation can need. -/
def budget (l : Timeline) : Nat :=
  let queued := l.transport.runs.foldl (fun n run => n + run.shared.outbound.length) 0
  100 * (10 + l.net.outcomes.length + l.net.events.length + queued)

/-- Everything happens that happens by itself. -/
def settle (l : Timeline) : Timeline :=
  l.settleFor l.budget

/-- Carries the clock through the timers up to a moment, until `enough` holds or the moment has
come. -/
def passUntil (enough : Timeline → Bool) (moment : Instant) : Nat → Timeline → Timeline
  | 0, l => l
  | budget + 1, l =>
    let l := l.runFor l.budget
    if enough l || moment ≤ l.now then l
    else
      match earliest? (l.transport.runs.filterMap alarm?) with
      | some alarm => passUntil enough moment budget (l.advanceTo (min (alarm + lateness) moment))
      | none => l.advanceTo moment

/-- More timers than fire in a stretch of time: a timer is set for a millisecond at least. -/
def timersWithin (stretch : Nat) : Nat :=
  2 * (stretch / milliseconds 1) + 10

def sleep (l : Timeline) (ms : Nat) : Timeline :=
  (l.passUntil (fun _ => false) (l.now + milliseconds ms) (timersWithin (milliseconds ms))).settle

/-- How long somebody waits for the network to have seen enough. -/
def horizon : Nat := milliseconds 30000

/-- Lets time pass until links have been given so many frames and so many were closed, and tells
whether that came about. -/
def awaitTraffic (l : Timeline) (sends closes : Nat) : Bool × Timeline :=
  let enough (l : Timeline) : Bool := sends ≤ l.net.sends && closes ≤ l.net.closes
  let l := l.passUntil enough (l.now + horizon) (timersWithin horizon)
  (enough l, l.settle)

/-! ## Callers -/

/-- The waker of the one thread that calls. -/
def caller : Waker := .thread 1

/-- Whether a caller would get on at this moment. -/
def callCanStep (l : Timeline) : Transport.Procedure → Bool
  | .await run (some alarm) .asleep _ _ =>
    alarm ≤ l.now || (l.transport.runs[run]?).elim true (·.shared.stop.hasExited)
  | .finished _ => false
  | _ => true

/-- The timer of a caller who waits for an exit. -/
def callAlarm? : Transport.Procedure → Option Instant
  | .await _ alarm .asleep _ _ => alarm
  | _ => none

/-- Carries out a start or a stop: the workers go first wherever the caller has to wait, and the
clock moves when nobody gets on. -/
def callFor : Nat → Timeline → Transport.Procedure →
    Except TransportError Unit × Timeline
  | _, l, .finished result => (result, l)
  | 0, l, _ => (.ok (), l)
  | budget + 1, l, call =>
    if l.callCanStep call then
      let (transport, call) := l.transport.stepCall l.now caller call
      callFor budget { l with transport } call
    else
      let l := l.runFor l.budget
      if l.callCanStep call then callFor budget l call
      else
        match earliest? ((callAlarm? call).toList ++ l.transport.runs.filterMap alarm?) with
        | some alarm => callFor budget (l.advanceTo (alarm + lateness)) call
        | none => (.ok (), l)

/-- Carries out a start or a stop, and whatever happens by itself afterwards. -/
def call (l : Timeline) (procedure : Transport.Procedure) :
    Except TransportError Unit × Timeline :=
  let (result, l) := l.callFor (100 + timersWithin l.transport.grace) procedure
  (result, l.settle)

/-- Polls a send or receive of the run in progress until it is over or its time limit has passed.
Nothing when there is no run. -/
def queueCallFor
    (poll : Transport → Nat → Queue.Pending Message → Bool →
      Queue.Progress Message × Transport × Queue.Pending Message)
    (run : Nat) (deadline : Instant) :
    Nat → Timeline → Queue.Pending Message → Queue.Progress Message × Timeline
  | 0, l, _ => (.late, l)
  | budget + 1, l, pending =>
    let (progress, transport, pending) := poll l.transport run pending (deadline ≤ l.now)
    let l := { l with transport }
    match progress with
    | .waiting =>
      let l := l.runFor l.budget
      let timers := deadline :: (l.transport.runs.filterMap alarm?).map (· + lateness)
      let moment := (earliest? timers).getD deadline
      queueCallFor poll run deadline budget (l.advanceTo (min moment deadline)) pending
    | progress => (progress, l)

/-- Sends a message with a time limit in milliseconds. With the limit zero a full queue is refused
at once. -/
def send (l : Timeline) (m : Message) (limit : Nat) : Except TransportError Unit × Timeline :=
  match l.transport.running with
  | none => (.error .notRunning, l)
  | some run =>
    if limit = 0 then
      let (sent, transport) := l.transport.trySend run m
      let l := { l with transport }
      (if sent then .ok () else .error (.ofQueueError .full), l.settle)
    else
      let pending := Queue.Pending.start (.send m) true caller
      let (progress, l) := queueCallFor Transport.pollSend run (l.now + milliseconds limit)
        (timersWithin (milliseconds limit)) l pending
      match progress with
      | .sent => (.ok (), l.settle)
      | _ => (.error (.ofQueueError .timedOut), l.settle)

def receive (l : Timeline) (limit : Nat) : Option Message × Timeline :=
  match l.transport.running with
  | none => (none, l)
  | some run =>
    if limit = 0 then
      let (m?, transport) := l.transport.tryReceive run
      (m?, { l with transport }.settle)
    else
      let pending := Queue.Pending.start .receive true caller
      let (progress, l) := queueCallFor Transport.pollReceive run (l.now + milliseconds limit)
        (timersWithin (milliseconds limit)) l pending
      match progress with
      | .received m => (some m, l.settle)
      | _ => (none, l.settle)

def create (config : LinkConfig) (outbound inbound : Nat) : Except TransportError Timeline :=
  (Transport.create config outbound inbound).map fun transport => ⟨transport, .silent, 0⟩

/-- Changes the script of the network, and lets happen what follows from it. -/
def script (l : Timeline) (f : Network → Network) : Timeline :=
  { l with net := f l.net }.settle

end Timeline

end Uplink
