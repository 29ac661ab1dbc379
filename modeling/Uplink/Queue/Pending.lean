import Uplink.Queue

/-! # Operations that wait

A send or receive that may have to wait is polled until it is done. A poll is one atomic step: it
goes through at once, or leaves the waker registered. With a time limit the clock is looked at
only after that, so an operation that could go through is never reported as late. -/

namespace Uplink.Queue

variable {α : Type}

/-- What an operation is about: an item that has not been handed over yet, or any item. -/
inductive Action (α : Type)
  | send (item : α)
  | receive

/-- An operation in progress, with or without a time limit, and the waker of its task. -/
structure Pending (α : Type) where
  action : Action α
  timed : Bool
  waker : Waker
  isDone : Bool

/-- What a poll reports. -/
inductive Progress (α : Type)
  | waiting
  | sent
  /-- An item came out of the queue. -/
  | received (item : α)
  | late
  /-- The operation ended in an earlier poll. -/
  | over

def Pending.start (action : Action α) (timed : Bool) (waker : Waker) : Pending α :=
  ⟨action, timed, waker, false⟩

/-- The end of a poll that could not go through: late if there is a limit and it has passed. -/
def Pending.wait (p : Pending α) (expired : Bool) : Progress α × Pending α :=
  if p.timed && expired then (.late, { p with isDone := true }) else (.waiting, p)

/-- Polls an operation at a moment when its time limit has or has not passed, and names the wakers
that are woken. -/
def Pending.poll (q : Queue α) (p : Pending α) (expired : Bool) :
    Progress α × Queue α × Pending α × List Waker :=
  if p.isDone then (.over, q, p, [])
  else
    match p.action with
    | .send item =>
      match q.tryPush? item with
      | some (q, woken) => (.sent, q, { p with isDone := true }, woken)
      | none =>
        let (q, woken) := q.parkSender p.waker
        let (progress, p) := p.wait expired
        (progress, q, p, woken)
    | .receive =>
      match q.tryPop? with
      | some (item, q, woken) => (.received item, q, { p with isDone := true }, woken)
      | none =>
        let (q, woken) := q.parkReceiver p.waker
        let (progress, p) := p.wait expired
        (progress, q, p, woken)

/-- Pushes with a time limit while nobody else acts: at once if there is room, else late, after
waiting, unless the limit is zero. -/
def push (q : Queue α) (w : Waker) (item : α) (limit : Nat) :
    Except QueueError Unit × Queue α × List Waker :=
  match q.tryPush? item with
  | some (q, woken) => (.ok (), q, woken)
  | none =>
    if limit = 0 then (.error .full, q, [])
    else
      let (_, q, _, woken) := (Pending.start (.send item) true w).poll q true
      (.error .timedOut, q, woken)

/-- Pops with a time limit while nobody else acts. -/
def pop (q : Queue α) (w : Waker) (limit : Nat) : Option α × Queue α × List Waker :=
  match q.tryPop? with
  | some (item, q, woken) => (some item, q, woken)
  | none =>
    if limit = 0 then (none, q, [])
    else
      let (_, q, _, woken) := (Pending.start .receive true w).poll q true
      (none, q, woken)

end Uplink.Queue
