import Uplink.Envelope
import Uplink.Shared

/-! # The worker

The single loop behind a running transport. It connects, waits out the backoff after a failure,
and once connected handles events, drops a link that was silent for two heartbeat intervals,
probes after one, and else waits a little for something to send. A stop request ends it from
wherever it stands: it closes its session, publishes the last state and gives notice.

The worker is a machine that makes one atomic step at a time: it carries out the next of the
effects it has decided on, or, when none is left, reads what it needs for its next decision. All
that differs between two runs is the network, the clock, and what others do between two steps. -/

namespace Uplink

/-- The most events handled before the worker turns to other work. -/
def maxEventsPerTick : Nat := 8

/-- What a worker has decided to do. -/
inductive Effect
  | write (w : Write)
  /-- A frame for the inbound queue, dropped and counted when that is full. -/
  | deliver (m : Message)
  | dropSession
deriving DecidableEq

def Effect.publish (s : TransportState) : List Effect :=
  (Write.publish s).map .write

/-- What a worker waits for, beside its timer and a stop request. -/
inductive Purpose
  /-- Nothing: it waits out a delay. -/
  | retry
  /-- A message to send. -/
  | work
deriving DecidableEq

/-- How far a waiting worker has looked. -/
inductive Stage
  /-- At the outbound queue next. -/
  | outbound
  /-- At its timer next. -/
  | timer
  /-- At the flag of a stop request next. -/
  | requested
  /-- At the signal of a stop request next. -/
  | request
  /-- It has seen nothing and sleeps until it is woken. -/
  | asleep
deriving DecidableEq

/-- Where a round of looking begins. -/
def Purpose.firstStage : Purpose → Stage
  | .retry => .timer
  | .work => .outbound

/-- Where a round of looking goes on after the timer. The flag of a stop request is looked at in the
first round only, in which the timer starts. A wait that has slept goes on where it was, at the
signal. -/
def Stage.afterTimer (alarm : Option Instant) : Stage :=
  if alarm.isNone then .requested else .request

/-- What a worker does next, once its effects are carried out. -/
inductive Phase
  /-- It looks whether a stop is requested, and begins a tick or a connect otherwise. -/
  | choosing
  | connecting
  | connected (result : Except ConnectError Session)
  | greeting (session : Session)
  /-- It asks the link for up to `left` more events. -/
  | pumping (left : Nat)
  /-- It weighs how long the peer has been silent. -/
  | judging
  | probing
  /-- It waits for at most `bound` nanoseconds; the timer starts when it is first looked at. -/
  | waiting (purpose : Purpose) (bound : Nat) (alarm : Option Instant) (stage : Stage)
  /-- It sends a message from the outbound queue. -/
  | transmitting (m : Message)
  | exited

/-- A worker between two steps. -/
structure Worker where
  uri : String
  config : LinkConfig
  backoff : Backoff
  session : Option Session
  /-- The time of the latest probe, or of the connect. -/
  lastProbe : Instant
  /-- The effects still to be carried out, first one first. -/
  todo : List Effect
  phase : Phase

namespace Worker

def fresh (uri : String) (config : LinkConfig) (now : Instant) : Worker :=
  ⟨uri, config, .ofSchedule config.backoffSchedule, none, now, [], .choosing⟩

def waker : Waker := .thread 0

/-- The duration of a configured number of milliseconds. -/
def duration (ms : UInt32) : Nat :=
  milliseconds ms.toNat

/-- What follows an event that the session has handled. -/
def eventEffects (session : Session) (event : LinkEvent) : List Effect :=
  let life := if event.isActivity then [Effect.write (.touch session.lastActivity)] else []
  match event with
  | .data m => life ++ [.write (.count .framesReceived), .deliver m]
  | .connected | .keepAlive => life
  | .disconnected | .failed _ => life ++ .dropSession :: Effect.publish .disconnected

/-- The last effects of a worker. -/
def farewell : List Effect :=
  .dropSession :: Effect.publish .stopped ++ [.write .exited, .write .exit]

variable {σ : Type} [Connector σ]

def perform (w : Worker) (shared : Shared) (net : σ) : Effect → Worker × Shared × σ
  | .write write => (w, shared.write write, net)
  | .deliver m =>
    match shared.inbound.tryPush? m with
    | some (inbound, _) => (w, { shared with inbound }, net)
    | none => ({ w with todo := .write (.count .inboundDropped) :: w.todo }, shared, net)
  | .dropSession =>
    match w.session with
    | some session => ({ w with session := none }, shared, (session.close net).2)
    | none => (w, shared, net)

/-- Decides how to go on from the head of the loop. -/
def choose (w : Worker) (shared : Shared) : Worker :=
  if shared.stop.isRequested then { w with todo := farewell, phase := .exited }
  else if w.session.isSome then { w with phase := .pumping maxEventsPerTick }
  else
    { w with
      todo := Effect.publish .connecting ++ [.write (.count .connectAttempts)]
      phase := .connecting }

/-- Decides what to do with the outcome of a connect. A stop request that came meanwhile wins:
the link is closed without ever having been published. -/
def settleConnect (w : Worker) (shared : Shared) (net : σ) (result : Except ConnectError Session) :
    Worker × σ :=
  match result with
  | .ok session =>
    if shared.stop.isRequested then ({ w with phase := .choosing }, (session.close net).2)
    else ({ w with phase := .greeting session }, net)
  | .error _ =>
    if shared.stop.isRequested then ({ w with phase := .choosing }, net)
    else
      let (delay, backoff) := w.backoff.nextDelay
      ({ w with
        backoff
        todo := Effect.publish .disconnected ++ [.write (.count .connectFailures)]
        phase := .waiting .retry (duration delay) none Purpose.retry.firstStage }, net)

def greet (w : Worker) (session : Session) (now : Instant) : Worker :=
  { w with
    backoff := w.backoff.reset
    session := some session
    lastProbe := now
    todo := .write (.touch now) :: Effect.publish .connected
    phase := .choosing }

/-- Asks the link for an event, if any more are to be handled in this tick. -/
def pump (w : Worker) (net : σ) (now : Instant) : Nat → Worker × σ
  | 0 => ({ w with phase := if w.session.isSome then .judging else .choosing }, net)
  | left + 1 =>
    match w.session with
    | none => ({ w with phase := .choosing }, net)
    | some session =>
      match session.poll net now with
      | (none, session, net) => ({ w with session := some session, phase := .judging }, net)
      | (some event, session, net) =>
        ({ w with
          session := some session
          todo := eventEffects session event
          phase := .pumping left }, net)

/-- Weighs the silence of the peer: a link silent for too long is dropped, a probe is due one
interval after the latest, and else there is time to wait. -/
def judge (w : Worker) (now : Instant) : Worker :=
  match w.session with
  | none => { w with phase := .choosing }
  | some session =>
    let heartbeat := duration w.config.heartbeatInterval
    let since := now - w.lastProbe
    if 2 * heartbeat < now - session.lastActivity then
      { w with
        todo := .write (.count .staleDisconnects) :: .dropSession :: Effect.publish .disconnected
        phase := .choosing }
    else if heartbeat ≤ since then { w with lastProbe := now, phase := .probing }
    else
      let bound := min (duration w.config.pollInterval) (heartbeat - since)
      { w with phase := .waiting .work bound none Purpose.work.firstStage }

/-- Sends a frame over the session, and counts as told. -/
def transmit (w : Worker) (net : σ) (frame : Octets) (onSuccess onFailure : List Effect) :
    Worker × σ :=
  match w.session with
  | none => ({ w with phase := .choosing }, net)
  | some session =>
    let (result, net) := session.send net frame w.config.sendTimeout.toNat
    ({ w with
      todo := match result with
        | .ok () => onSuccess
        | .error _ => onFailure
      phase := .choosing }, net)

/-- Looks for a stop request while it waits. -/
def heed (w : Worker) (shared : Shared) (purpose : Purpose) (bound : Nat) (alarm : Option Instant)
    (lookout : Lookout) : Worker × Shared :=
  let (sight, stop, _) := shared.stop.lookForRequest waker lookout
  let phase := match sight with
    | .requested => .choosing
    | .more .flag => .waiting purpose bound alarm .requested
    | .more .signal => .waiting purpose bound alarm .request
    | .nothing => .waiting purpose bound alarm .asleep
  ({ w with phase }, { shared with stop })

/-- Looks at the next thing that may end a wait. -/
def look (w : Worker) (shared : Shared) (now : Instant) (purpose : Purpose) (bound : Nat)
    (alarm : Option Instant) : Stage → Worker × Shared
  | .outbound =>
    match shared.outbound.tryPop? with
    | some (m, outbound, _) => ({ w with phase := .transmitting m }, { shared with outbound })
    | none =>
      ({ w with phase := .waiting purpose bound alarm .timer },
        { shared with outbound := (shared.outbound.parkReceiver waker).1 })
  | .timer =>
    let due := alarm.getD (now + bound)
    if due ≤ now then ({ w with phase := .choosing }, shared)
    else ({ w with phase := .waiting purpose bound (some due) (.afterTimer alarm) }, shared)
  | .requested => w.heed shared purpose bound alarm .flag
  | .request => w.heed shared purpose bound alarm .signal
  | .asleep => ({ w with phase := .waiting purpose bound alarm purpose.firstStage }, shared)

def decide (w : Worker) (shared : Shared) (net : σ) (now : Instant) : Worker × Shared × σ :=
  match w.phase with
  | .choosing => (w.choose shared, shared, net)
  | .connecting =>
    let (result, net) := Session.establish net w.uri w.config.connectTimeout.toNat now
    ({ w with phase := .connected result }, shared, net)
  | .connected result =>
    let (w, net) := w.settleConnect shared net result
    (w, shared, net)
  | .greeting session => (w.greet session now, shared, net)
  | .pumping left =>
    let (w, net) := w.pump net now left
    (w, shared, net)
  | .judging => (w.judge now, shared, net)
  | .probing =>
    let (w, net) := w.transmit net heartbeatProbe.octets [.write (.count .heartbeatsSent)] []
    (w, shared, net)
  | .waiting purpose bound alarm stage =>
    let (w, shared) := w.look shared now purpose bound alarm stage
    (w, shared, net)
  | .transmitting m =>
    let (w, net) := w.transmit net m.octets [.write (.count .framesSent)]
      [.write (.count .sendFailures)]
    (w, shared, net)
  | .exited => (w, shared, net)

/-- One step: the next effect, or the next decision when no effect is left. -/
def step (w : Worker) (shared : Shared) (net : σ) (now : Instant) : Worker × Shared × σ :=
  match w.todo with
  | effect :: todo => { w with todo }.perform shared net effect
  | [] => w.decide shared net now

end Worker

end Uplink
