import Uplink.Proofs.Queue.Laws

/-! # Queues in use

A queue with the operations that are carried out on it. One move is made at a time: somebody calls
the queue, begins an operation that waits, polls one or drops one. Nothing is assumed of the order
of the moves, of the wakers or of the clock. The wakes are those by the queue. A timer of an
operation with a time limit wakes its task as well, which may poll at any time. -/

namespace Uplink.Queue

variable {α : Type}

/-- How an operation stands. -/
inductive Status
  /-- It was not polled yet, or was woken after its last poll. -/
  | roused
  /-- Its last poll left it waiting, and its waker was not woken since. -/
  | asleep (w : Waker)
  /-- It has ended or was dropped. -/
  | over
deriving DecidableEq

/-- How an operation stands after some wakers were woken. -/
def Status.hear (woken : List Waker) : Status → Status
  | .asleep w => if w ∈ woken then .roused else .asleep w
  | .roused => .roused
  | .over => .over

@[simp] theorem Status.hear_nil (status : Status) : status.hear [] = status := by
  cases status <;> rfl

theorem Status.hear_eq_over_iff {woken : List Waker} {status : Status} :
    status.hear woken = .over ↔ status = .over := by
  cases status with
  | asleep w => by_cases hw : w ∈ woken <;> simp [hear, hw]
  | _ => rfl

/-- Only who was not woken sleeps on. -/
theorem Status.hear_eq_asleep_iff {woken : List Waker} {status : Status} {w : Waker} :
    status.hear woken = .asleep w ↔ status = .asleep w ∧ w ∉ woken := by
  cases status with
  | asleep v => by_cases hv : v ∈ woken <;> simp [hear, hv] <;> grind
  | _ => simp [hear]

/-- An operation on a queue. -/
structure Operation (α : Type) where
  action : Action α
  timed : Bool
  status : Status

namespace Operation

/-- The operation for a poll by the task with the given waker. -/
def pending (o : Operation α) (w : Waker) : Pending α :=
  ⟨o.action, o.timed, w, o.status = .over⟩

@[simp] theorem pending_action (o : Operation α) (w : Waker) : (o.pending w).action = o.action :=
  rfl

@[simp] theorem pending_waker (o : Operation α) (w : Waker) : (o.pending w).waker = w :=
  rfl

def hear (woken : List Waker) (o : Operation α) : Operation α :=
  { o with status := o.status.hear woken }

@[simp] theorem hear_nil (o : Operation α) : o.hear [] = o := by
  simp [hear]

end Operation

/-- What comes of the operations, and what a clear does. -/
inductive Event (α : Type)
  /-- The item of an operation is put into the queue. -/
  | accepted (id : Nat) (item : α)
  /-- An item is taken out of the queue and handed to an operation. -/
  | handed (id : Nat) (item : α)
  /-- An operation that does not wait ends in vain. -/
  | refused (id : Nat) (action : Action α)
  /-- An operation ends in vain at its time limit. -/
  | late (id : Nat) (action : Action α)
  /-- An operation is dropped before it has ended. -/
  | dropped (id : Nat)
  /-- A clear removes these items. -/
  | cleared (items : List α)

/-- What may happen next. -/
inductive Move (α : Type)
  /-- Somebody pushes or pops, and begins to wait if that is wanted and has to be. -/
  | call (action : Action α) (waits : Bool)
  | clear
  /-- An operation that waits is set up. -/
  | begin (action : Action α) (timed : Bool)
  /-- A task polls an operation, at a moment when its time limit has or has not passed. -/
  | poll (id : Nat) (w : Waker) (expired : Bool)
  | drop (id : Nat)

/-- A queue, the operations on it in the order of their beginning, and what came of them. -/
structure Usage (α : Type) where
  queue : Queue α
  operations : List (Operation α)
  log : List (Event α)

/-- What a poll brings about. -/
def Progress.events (id : Nat) (action : Action α) : Progress α → List (Event α)
  | .sent =>
    match action with
    | .send item => [.accepted id item]
    | .receive => []
  | .received item => [.handed id item]
  | .late => [.late id action]
  | .waiting | .over => []

/-- How an operation stands after a poll. -/
def Progress.status (w : Waker) : Progress α → Status
  | .waiting => .asleep w
  | .sent | .received _ | .late | .over => .over

namespace Usage

/-- A queue that nobody has used. -/
def fresh (capacity : Nat) : Usage α :=
  ⟨.empty capacity, [], []⟩

/-- The queue after a step, with the wakers that were woken by it. -/
def settle (u : Usage α) (queue : Queue α) (woken : List Waker) : Usage α :=
  { u with queue, operations := u.operations.map (·.hear woken) }

/-- Adds an operation that was not polled yet. -/
def add (u : Usage α) (action : Action α) (timed : Bool) : Usage α :=
  { u with operations := u.operations ++ [⟨action, timed, .roused⟩] }

/-- An operation comes to stand in another way. -/
def turn (u : Usage α) (id : Nat) (status : Status) : Usage α :=
  { u with operations := u.operations.modify id fun o => { o with status } }

def record (u : Usage α) (events : List (Event α)) : Usage α :=
  { u with log := u.log ++ events }

@[simp] theorem record_nil (u : Usage α) : u.record [] = u := by
  simp [record]

/-! ### What the parts of a step leave alone -/

def action? (u : Usage α) (id : Nat) : Option (Action α) :=
  u.operations[id]?.map (·.action)

def status? (u : Usage α) (id : Nat) : Option Status :=
  u.operations[id]?.map (·.status)

/-- Whether an operation has ended or was dropped. -/
def isOver (u : Usage α) (id : Nat) : Bool :=
  u.status? id = some .over

section Frame

variable (u : Usage α) (queue : Queue α) (woken : List Waker) (id j : Nat) (status : Status)
  (action : Action α) (timed : Bool) (events : List (Event α))

@[simp] theorem log_settle : (u.settle queue woken).log = u.log := rfl

@[simp] theorem log_add : (u.add action timed).log = u.log := rfl

@[simp] theorem log_turn : (u.turn id status).log = u.log := rfl

@[simp] theorem log_record : (u.record events).log = u.log ++ events := rfl

@[simp] theorem queue_settle : (u.settle queue woken).queue = queue := rfl

@[simp] theorem queue_add : (u.add action timed).queue = u.queue := rfl

@[simp] theorem queue_turn : (u.turn id status).queue = u.queue := rfl

@[simp] theorem queue_record : (u.record events).queue = u.queue := rfl

@[simp] theorem action?_settle : (u.settle queue woken).action? j = u.action? j := by
  simp [action?, settle, Function.comp_def, Operation.hear]

@[simp] theorem action?_turn : (u.turn id status).action? j = u.action? j := by
  simp only [action?, turn, List.getElem?_modify]
  split <;> simp [Function.comp_def]

@[simp] theorem action?_record : (u.record events).action? j = u.action? j := rfl

theorem action?_add :
    (u.add action timed).action? j =
      if j = u.operations.length then some action else u.action? j := by
  simp only [action?, add, List.getElem?_append, List.getElem?_singleton]
  grind

@[simp] theorem status?_settle :
    (u.settle queue woken).status? j = (u.status? j).map (Status.hear woken) := by
  simp [status?, settle, Function.comp_def, Operation.hear]

@[simp] theorem status?_turn :
    (u.turn id status).status? j =
      if id = j then (u.status? j).map fun _ => status else u.status? j := by
  simp only [status?, turn, List.getElem?_modify]
  split <;> simp [Function.comp_def]

@[simp] theorem status?_record : (u.record events).status? j = u.status? j := rfl

theorem status?_add :
    (u.add action timed).status? j =
      if j = u.operations.length then some .roused else u.status? j := by
  simp only [status?, add, List.getElem?_append, List.getElem?_singleton]
  grind

@[simp] theorem isOver_settle : (u.settle queue woken).isOver j = u.isOver j := by
  simp [isOver, Status.hear_eq_over_iff]

@[simp] theorem isOver_add : (u.add action timed).isOver j = u.isOver j := by
  rw [isOver, status?_add]
  split
  · next hj => simp [isOver, status?, hj]
  · rfl

@[simp] theorem isOver_turn :
    (u.turn id status).isOver j =
      if id = j then (u.status? id).isSome && status = .over else u.isOver j := by
  rw [isOver, status?_turn]
  split
  · next hj => subst hj; cases u.status? id <;> simp
  · rfl

@[simp] theorem isOver_record : (u.record events).isOver j = u.isOver j := rfl

end Frame

/-! ### Steps -/

/-- The first look of an operation that was called directly. -/
def look (u : Usage α) (id : Nat) (waits : Bool) : Action α → Usage α
  | .send item =>
    match u.queue.tryPush? item with
    | some (queue, woken) => ((u.settle queue woken).turn id .over).record [.accepted id item]
    | none => if waits then u else (u.turn id .over).record [.refused id (.send item)]
  | .receive =>
    match u.queue.tryPop? with
    | some (item, queue, woken) =>
      ((u.settle queue woken).turn id .over).record [.handed id item]
    | none => if waits then u else (u.turn id .over).record [.refused id .receive]

def poll (u : Usage α) (id : Nat) (w : Waker) (expired : Bool) : Usage α :=
  match u.operations[id]? with
  | none => u
  | some o =>
    let (progress, queue, _, woken) := (o.pending w).poll u.queue expired
    ((u.settle queue woken).turn id (progress.status w)).record (progress.events id o.action)

/-- Drops an operation, unless it has ended. -/
def drop (u : Usage α) (id : Nat) : Usage α :=
  match u.operations[id]? with
  | none => u
  | some o => if o.status = .over then u else (u.turn id .over).record [.dropped id]

/-- Makes a move. A move that is not possible changes nothing. -/
def step (u : Usage α) : Move α → Usage α
  | .call action waits => (u.add action true).look u.operations.length waits action
  | .clear => (u.settle u.queue.clear.1 u.queue.clear.2).record [.cleared u.queue.items]
  | .begin action timed => u.add action timed
  | .poll id w expired => u.poll id w expired
  | .drop id => u.drop id

def run (u : Usage α) (moves : List (Move α)) : Usage α :=
  moves.foldl step u

end Usage

end Uplink.Queue
