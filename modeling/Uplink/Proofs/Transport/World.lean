import Uplink.Proofs.Worker.Course

/-! # Threads around a transport

A transport with its network and with the threads that call it. One move is made at a time: a
worker makes a step, a thread makes a step or begins a call, or the network changes by itself.
Nothing is assumed of the order of the moves or of the clock. -/

namespace Uplink

/-- What a thread may ask of a transport. A send or a receive has a time limit or does not wait. -/
inductive Request
  | start (uri : String)
  | stop
  | send (m : Message) (timed : Bool)
  | receive (timed : Bool)

/-- What a thread is about. -/
inductive Activity
  | idle
  | starting (call : Transport.Procedure)
  | stopping (call : Transport.Procedure)
  /-- It has taken up the block of a run, and looks at a queue next. -/
  | trying (run : Nat) (action : Queue.Action Message) (timed : Bool)
  /-- It waits at a queue of the block that it has taken up. -/
  | waiting (run : Nat) (action : Queue.Action Message)

/-- What may happen next. -/
inductive Move (σ : Type)
  /-- The network changes by itself. -/
  | drift (net : σ)
  /-- The worker of a run makes a step. -/
  | work (run : Nat) (now : Instant)
  /-- A thread that is free begins a call. -/
  | ask (thread : Nat) (request : Request)
  /-- A thread goes on with its call, at a moment when its time limit has or has not passed. -/
  | go (thread : Nat) (now : Instant) (expired : Bool)

/-- A transport, what is around it, and what happened to each of its runs. -/
structure World (σ : Type) where
  transport : Transport
  net : σ
  threads : List Activity
  log : List (Nat × Happening)

/-- What is seen of a step of a start or a stop. -/
def Transport.Procedure.marks : Procedure → List (Nat × Happening)
  | .write run (x :: _) _ => x.marks.map (run, ·)
  | _ => []

namespace World

variable {σ : Type}

/-- A transport that was just created, and threads that have not begun. -/
def fresh (config : LinkConfig) (outbound inbound threads : Nat) (net : σ) : World σ :=
  ⟨⟨config, outbound, inbound, [], none, none⟩, net, .replicate threads .idle, []⟩

/-- What happened to a run. -/
def history (w : World σ) (id : Nat) : History :=
  w.log.filterMap fun entry => if entry.1 = id then some entry.2 else none

/-- A run with what happened to it. -/
def course? (w : World σ) (id : Nat) : Option Course :=
  w.transport.runs[id]?.map fun run => ⟨run.worker, run.shared, w.history id⟩

/-- Records what happened to a run. -/
def record (w : World σ) (id : Nat) (h : History) : World σ :=
  { w with log := w.log ++ h.map (id, ·) }

/-- A thread turns to something else. -/
def turn (w : World σ) (thread : Nat) (activity : Activity) : World σ :=
  { w with threads := w.threads.set thread activity }

def updateShared (w : World σ) (id : Nat) (f : Shared → Shared) : World σ :=
  { w with transport := w.transport.updateShared id f }

/-- A thread that turns to something else counts for what it was and what it becomes. -/
theorem countP_turn (p : Activity → Bool) {threads : List Activity} {thread : Nat}
    {old : Activity} (new : Activity) (hthread : threads[thread]? = some old) :
    (threads.set thread new).countP p + (if p old then 1 else 0) =
      threads.countP p + if p new then 1 else 0 := by
  obtain ⟨hlt, rfl⟩ := List.getElem?_eq_some_iff.mp hthread
  rw [List.countP_set hlt]
  by_cases hold : p threads[thread] = true
  · have hpos : 0 < threads.countP p :=
      List.countP_pos_iff.mpr ⟨_, List.getElem_mem hlt, hold⟩
    rw [if_pos hold]
    omega
  · rw [if_neg hold, Nat.sub_zero, Nat.add_zero]

def waker (thread : Nat) : Waker :=
  .thread (thread + 1)

/-- A thread begins a call. A send or a receive takes up the run in progress. -/
def begin (w : World σ) (thread : Nat) : Request → World σ
  | .start uri => w.turn thread (.starting (.start uri))
  | .stop => w.turn thread (.stopping .stop)
  | .send m timed =>
    match w.transport.running with
    | none => w
    | some run => w.turn thread (.trying run (.send m) timed)
  | .receive timed =>
    match w.transport.running with
    | none => w
    | some run => w.turn thread (.trying run .receive timed)

/-- A thread makes the next step of a start or a stop. -/
def proceed (w : World σ) (now : Instant) (thread : Nat) (resume : Transport.Procedure → Activity)
    (call : Transport.Procedure) : World σ :=
  let (transport, next) := w.transport.stepCall now (waker thread) call
  { w.turn thread (resume next) with transport, log := w.log ++ call.marks }

/-- A thread looks at a queue for the first time. -/
def attempt (w : World σ) (thread run : Nat) (timed : Bool) : Queue.Action Message → World σ
  | .send m =>
    match w.transport.trySend run m with
    | (true, transport) => ({ w with transport }.turn thread .idle).record run [.passed .accepted m]
    | (false, _) => w.turn thread (if timed then .waiting run (.send m) else .idle)
  | .receive =>
    match w.transport.tryReceive run with
    | (some m, transport) =>
      ({ w with transport }.turn thread .idle).record run [.passed .received m]
    | (none, _) => w.turn thread (if timed then .waiting run .receive else .idle)

/-- A thread that waits at a queue looks at it again. -/
def poll (w : World σ) (thread run : Nat) (expired : Bool) (action : Queue.Action Message) :
    World σ :=
  let pending := Queue.Pending.start action true (waker thread)
  match action with
  | .send m =>
    match w.transport.pollSend run pending expired with
    | (.sent, transport, _) =>
      ({ w with transport }.turn thread .idle).record run [.passed .accepted m]
    | (.waiting, transport, _) => { w with transport }.turn thread (.waiting run action)
    | (_, transport, _) => { w with transport }.turn thread .idle
  | .receive =>
    match w.transport.pollReceive run pending expired with
    | (.received m, transport, _) =>
      ({ w with transport }.turn thread .idle).record run [.passed .received m]
    | (.waiting, transport, _) => { w with transport }.turn thread (.waiting run action)
    | (_, transport, _) => { w with transport }.turn thread .idle

/-- A thread goes on with what it is about. -/
def advance (w : World σ) (now : Instant) (thread : Nat) (expired : Bool) : Activity → World σ
  | .idle | .starting (.finished _) | .stopping (.finished _) => w.turn thread .idle
  | .starting call => w.proceed now thread .starting call
  | .stopping call => w.proceed now thread .stopping call
  | .trying run action timed => w.attempt thread run timed action
  | .waiting run action => w.poll thread run expired action

def work [Connector σ] (w : World σ) (now : Instant) (id : Nat) : World σ :=
  match w.transport.runs[id]? with
  | none => w
  | some run =>
    let (transport, recorded) := w.transport.stepWorker (Recorded.blank w.net) now id
    { w with transport, net := recorded.net }.record id
      (recorded.calls.map Happening.called ++ run.worker.marks run.shared)

/-- The record that is kept of a worker's step changes nothing. -/
theorem work_eq [Connector σ] (w : World σ) (now : Instant) (id : Nat) :
    ((w.work now id).transport, (w.work now id).net) = w.transport.stepWorker w.net now id := by
  cases hrun : w.transport.runs[id]? with
  | none => simp [work, Transport.stepWorker, hrun]
  | some run =>
      have hnet : (_, _, _) = run.worker.step run.shared w.net now :=
        (Recorded.blank w.net).step_net run.worker run.shared now
      simp only [work, Transport.stepWorker, hrun, ← hnet]
      rfl

/-- Makes a move. A move that is not possible changes nothing. -/
def step [Connector σ] (w : World σ) : Move σ → World σ
  | .drift net => { w with net }
  | .work id now => w.work now id
  | .ask thread request =>
    match w.threads[thread]? with
    | some .idle => w.begin thread request
    | _ => w
  | .go thread now expired =>
    match w.threads[thread]? with
    | some activity => w.advance now thread expired activity
    | none => w

def run [Connector σ] (w : World σ) (moves : List (Move σ)) : World σ :=
  moves.foldl step w

theorem run_append [Connector σ] (w : World σ) (front back : List (Move σ)) :
    w.run (front ++ back) = (w.run front).run back :=
  List.foldl_append

theorem run_concat [Connector σ] (w : World σ) (moves : List (Move σ)) (move : Move σ) :
    w.run (moves ++ [move]) = (w.run moves).step move :=
  run_append w moves [move]

/-- What holds at the beginning and is kept by every move holds ever after. -/
theorem run_induction [Connector σ] {P : World σ → Prop} {w : World σ} (hw : P w)
    (hstep : ∀ w move, P w → P (w.step move)) (moves : List (Move σ)) : P (w.run moves) := by
  induction moves generalizing w with
  | nil => exact hw
  | cons move moves ih => exact ih (hstep w move hw)

end World

end Uplink
