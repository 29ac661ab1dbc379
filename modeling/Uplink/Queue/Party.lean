import Uplink.Queue.Pending
import Uplink.Timers

/-! # A queue and those who use it

One thread calls the queue directly; numbered tasks poll their operations when they are told to.
Every task's wakes are counted. Other threads join for a single blocking call. Every operation with
a time limit that does not go through at once starts a timer in the shared table. -/

namespace Uplink.Queue

variable {α : Type}

/-- The queue, the shared timers, the operation of each task unless it was dropped, the wakes of
each task, and how many other threads have called so far. -/
structure Party (α : Type) where
  queue : Queue α
  timers : Timers
  tasks : List (Option (Pending α))
  wakes : List Nat
  threads : Nat

namespace Party

/-- A fresh queue beside timers that already run. -/
def start (capacity : Nat) (timers : Timers) : Party α :=
  ⟨.empty capacity, timers, [], [], 0⟩

def caller : Waker := .thread 0

/-- The queue after a step, with its wakes counted. -/
def settle (p : Party α) (queue : Queue α) (woken : List Waker) : Party α :=
  { p with queue, wakes := countWakes p.wakes woken }

/-- Starts the timer of a wait. -/
def limit (p : Party α) (w : Waker) : Party α :=
  let (timers, woken) := p.timers.schedule w
  { p with timers, wakes := countWakes p.wakes woken }

/-- The calling thread waits until its time limit passes. -/
def sleep (p : Party α) : Party α :=
  let p := p.limit caller
  { p with timers := p.timers.expire caller }

def push (p : Party α) (item : α) (limit : Nat) : Except QueueError Unit × Party α :=
  let (result, queue, woken) := p.queue.push caller item limit
  let p := p.settle queue woken
  (result, if result.isOk || limit = 0 then p else p.sleep)

def pop (p : Party α) (limit : Nat) : Option α × Party α :=
  let (item?, queue, woken) := p.queue.pop caller limit
  let p := p.settle queue woken
  (item?, if item?.isSome || limit = 0 then p else p.sleep)

def clear (p : Party α) : Party α :=
  let (queue, woken) := p.queue.clear
  p.settle queue woken

/-- Polls an operation within its time limit. -/
def attempt (p : Party α) (pending : Pending α) : Progress α × Pending α × Party α :=
  let (progress, queue, next, woken) := pending.poll p.queue false
  let p := p.settle queue woken
  match progress with
  | .waiting => (.waiting, next, if pending.timed then p.limit pending.waker else p)
  | done => (done, next, p)

/-- Polls the operation of a task. A task that is done or dropped answers that it is over. -/
def poll (p : Party α) (id : Nat) : Progress α × Party α :=
  match p.tasks[id]? with
  | some (some pending) =>
    let (progress, pending, p) := p.attempt pending
    (progress, { p with tasks := p.tasks.set id (some pending) })
  | _ => (.over, p)

/-- Adds a task with an operation and polls it once. -/
def spawn (p : Party α) (action : Action α) (timed : Bool) : Progress α × Party α :=
  let id := p.tasks.length
  let p := { p with
    tasks := p.tasks ++ [some (Pending.start action timed (.task id))]
    wakes := p.wakes ++ [0] }
  p.poll id

/-- Drops the operation of a task, and tells whether it was still waiting. Its waker stays
registered. -/
def forget (p : Party α) (id : Nat) : Bool × Party α :=
  match p.tasks[id]? with
  | some (some pending) => (!pending.isDone, { p with tasks := p.tasks.set id none })
  | _ => (false, p)

/-- Another thread makes a blocking call, then the calling thread acts, then the other thread
finishes if it had to wait. -/
def beside (p : Party α) (action : Action α) {β : Type} (act : Party α → β × Party α) :
    Progress α × β × Party α :=
  let p := { p with threads := p.threads + 1 }
  let (first, pending, p) := p.attempt (Pending.start action true (.thread p.threads))
  let (b, p) := act p
  match first with
  | .waiting =>
    let (second, _, p) := p.attempt pending
    (second, b, p)
  | done => (done, b, p)

def pushBeside (p : Party α) (item : α) : Progress α × Option α × Party α :=
  p.beside (.send item) fun p => p.pop 0

def popBeside (p : Party α) (item : α) : Progress α × Except QueueError Unit × Party α :=
  p.beside .receive fun p => p.push item 0

end Party

end Uplink.Queue
