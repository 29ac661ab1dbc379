import Mathlib.Data.List.Induction
import Uplink.Proofs.Queue.Usage
import Uplink.Readiness

/-! # Flags in use

Flags with those who wait for them. One move is made at a time, in any order. A set is two moves,
and anything may come between them. A poll is one: it reads the flags once, and nobody else comes
to the registration until it has put in its waker.

The timers of the waits are left out. All waits of a device share one table of timers, and when it
is full a new timer wakes the task of another one; such a wake is not counted here. -/

namespace Uplink.Readiness

/-- A wait for all flags of a mask, and how it stands. -/
structure Wait where
  mask : UInt8
  status : Queue.Status

def Wait.hear (woken : List Waker) (o : Wait) : Wait :=
  { o with status := o.status.hear woken }

/-- What may happen next. -/
inductive Move
  /-- The first step of a set: the flags. -/
  | raise (mask : UInt8)
  /-- The second step of a set: everybody who waits is woken. -/
  | wake
  | clear (mask : UInt8)
  /-- A wait with a time limit is set up. -/
  | begin (mask : UInt8)
  /-- A task polls a wait, at a moment when its time limit has or has not passed. -/
  | poll (id : Nat) (w : Waker) (expired : Bool)
  | drop (id : Nat)
deriving DecidableEq

/-- What comes of the moves. -/
inductive Event
  /-- A poll registers a waker, and wakes these to make room for it. -/
  | registered (id : Nat) (w : Waker) (woken : List Waker)
  /-- A wait ends: its flags were seen, or its time limit has passed. -/
  | answered (id : Nat) (seen : Bool)
  | dropped (id : Nat)
  /-- A set wakes these wakers. -/
  | woke (woken : List Waker)
deriving DecidableEq

/-- The waker that is registered. -/
def Event.waker? : Event → Option Waker
  | .registered _ w _ => some w
  | .answered _ _ | .dropped _ | .woke _ => none

/-- Flags, how many sets are between their two steps, the waits in the order of their beginning,
and what came of them. A wait is woken here by a set or by the poll of another wait. That a full
table of timers may wake it too, as for a `Party`, is not part of it. -/
structure Usage where
  readiness : Readiness
  sets : Nat
  waits : List Wait
  log : List Event

namespace Usage

/-- Flags that nobody has used. -/
def fresh : Usage :=
  ⟨.empty, 0, [], []⟩

/-- The flags after a step, with the wakers that were woken by it. -/
def settle (u : Usage) (readiness : Readiness) (woken : List Waker) : Usage :=
  { u with readiness, waits := u.waits.map (·.hear woken) }

/-- A wait comes to stand in another way. -/
def turn (u : Usage) (id : Nat) (o : Wait) (status : Queue.Status) : Usage :=
  { u with waits := u.waits.set id { o with status } }

def record (u : Usage) (events : List Event) : Usage :=
  { u with log := u.log ++ events }

/-- Polls a wait. Its limit is looked at only when the flags are not all there, after the waker has
been registered. -/
def poll (u : Usage) (id : Nat) (w : Waker) (expired : Bool) : Usage :=
  match u.waits[id]? with
  | none => u
  | some o =>
    if o.status = .over then u
    else
      let (seen, readiness, woken) := u.readiness.poll o.mask w
      let u := u.settle readiness woken
      if seen then (u.turn id o .over).record [.answered id true]
      else if expired then
        (u.turn id o .over).record [.registered id w woken, .answered id false]
      else (u.turn id o (.asleep w)).record [.registered id w woken]

/-- Wakes everybody who waits, on behalf of a set that has made its first step. -/
def wake (u : Usage) : Usage :=
  match u.sets with
  | 0 => u
  | sets + 1 =>
    let (readiness, woken) := u.readiness.wakeWaiters
    ({ u with sets }.settle readiness woken).record [.woke woken]

/-- Drops a wait, unless it has ended. -/
def drop (u : Usage) (id : Nat) : Usage :=
  match u.waits[id]? with
  | none => u
  | some o => if o.status = .over then u else (u.turn id o .over).record [.dropped id]

/-- Makes a move. A move that is not possible changes nothing. -/
def step (u : Usage) : Move → Usage
  | .raise mask => { u with readiness := u.readiness.setBits mask, sets := u.sets + 1 }
  | .wake => u.wake
  | .clear mask => { u with readiness := u.readiness.clear mask }
  | .begin mask => { u with waits := u.waits ++ [⟨mask, .roused⟩] }
  | .poll id w expired => u.poll id w expired
  | .drop id => u.drop id

def run (u : Usage) (moves : List Move) : Usage :=
  moves.foldl step u

/-! ## Rules -/

/-- A wait that is in progress. -/
structure Active (u : Usage) (id : Nat) (o : Wait) : Prop where
  get : u.waits[id]? = some o
  open_ : o.status ≠ .over

/-- The flags with one more waker in the registration. -/
def enrolled (u : Usage) (w : Waker) : Readiness :=
  { u.readiness with waiters := (u.readiness.waiters.register maxReadinessWaiters w).1 }

/-- The wakers that are woken to make room for one more. -/
def displaced (u : Usage) (w : Waker) : List Waker :=
  (u.readiness.waiters.register maxReadinessWaiters w).2

/-- What may happen next to flags in use. -/
inductive Rule (u : Usage) : Usage → Prop
  | rest : Rule u u
  | raise (mask) :
      Rule u { u with readiness := u.readiness.setBits mask, sets := u.sets + 1 }
  | wake {sets} (hsets : u.sets = sets + 1) :
      Rule u
        (({ u with sets }.settle { u.readiness with waiters := .empty }
            u.readiness.waiters.wakers).record [.woke u.readiness.waiters.wakers])
  | clear (mask) : Rule u { u with readiness := u.readiness.clear mask }
  | begin (mask) : Rule u { u with waits := u.waits ++ [⟨mask, .roused⟩] }
  | see {id o} (ho : u.Active id o) (hseen : u.readiness.contains o.mask = true) :
      Rule u ((u.turn id o .over).record [.answered id true])
  | park {id o} (w) (ho : u.Active id o) (hblocked : u.readiness.contains o.mask = false) :
      Rule u
        (((u.settle (u.enrolled w) (u.displaced w)).turn id o (.asleep w)).record
          [.registered id w (u.displaced w)])
  | late {id o} (w) (ho : u.Active id o) (hblocked : u.readiness.contains o.mask = false) :
      Rule u
        (((u.settle (u.enrolled w) (u.displaced w)).turn id o .over).record
          [.registered id w (u.displaced w), .answered id false])
  | drop {id o} (ho : u.Active id o) : Rule u ((u.turn id o .over).record [.dropped id])

@[simp] theorem settle_nil (u : Usage) (readiness : Readiness) :
    u.settle readiness [] = { u with readiness } := by
  have hsame : Wait.hear [] = id := by
    funext o
    simp [Wait.hear]
  simp [settle, hsame]

theorem poll_of_seen {u : Usage} {id : Nat} {o : Wait} (w : Waker) (expired : Bool)
    (ho : u.Active id o) (hseen : u.readiness.contains o.mask = true) :
    u.poll id w expired = (u.turn id o .over).record [.answered id true] := by
  simp [poll, ho.get, ho.open_, Readiness.poll, hseen]

theorem poll_of_blocked {u : Usage} {id : Nat} {o : Wait} (w : Waker) (expired : Bool)
    (ho : u.Active id o) (hblocked : u.readiness.contains o.mask = false) :
    u.poll id w expired =
      if expired then
        ((u.settle (u.enrolled w) (u.displaced w)).turn id o .over).record
          [.registered id w (u.displaced w), .answered id false]
      else
        ((u.settle (u.enrolled w) (u.displaced w)).turn id o (.asleep w)).record
          [.registered id w (u.displaced w)] := by
  simp [poll, ho.get, ho.open_, Readiness.poll, hblocked, enrolled, displaced]

/-- A poll finds its wait in progress, or changes nothing. -/
theorem active_or_poll_eq (u : Usage) (id : Nat) :
    (∃ o, u.Active id o) ∨ ∀ w expired, u.poll id w expired = u := by
  cases ho : u.waits[id]? with
  | none => exact .inr fun w expired => by simp [poll, ho]
  | some o =>
      by_cases hover : o.status = .over
      · exact .inr fun w expired => by simp [poll, ho, hover]
      · exact .inl ⟨o, ho, hover⟩

theorem poll_rule (u : Usage) (id : Nat) (w : Waker) (expired : Bool) :
    Rule u (u.poll id w expired) := by
  rcases u.active_or_poll_eq id with ⟨o, ho⟩ | hrest
  · cases hseen : u.readiness.contains o.mask with
    | true =>
        rw [poll_of_seen w expired ho hseen]
        exact .see ho hseen
    | false =>
        rw [poll_of_blocked w expired ho hseen]
        cases expired with
        | true => exact .late w ho hseen
        | false => exact .park w ho hseen
  · rw [hrest]
    exact .rest

theorem drop_rule (u : Usage) (id : Nat) : Rule u (u.drop id) := by
  cases ho : u.waits[id]? with
  | none => simpa [drop, ho] using Rule.rest
  | some o =>
      by_cases hover : o.status = .over
      · simpa [drop, ho, hover] using Rule.rest
      · simpa [drop, ho, hover] using Rule.drop ⟨ho, hover⟩

/-- Every move follows a rule. -/
theorem step_rule (u : Usage) (move : Move) : Rule u (u.step move) := by
  cases move with
  | raise mask => exact .raise mask
  | wake =>
      cases hsets : u.sets with
      | zero => simpa [step, wake, hsets] using Rule.rest
      | succ sets =>
          simpa [step, wake, hsets, wakeWaiters, Waiters.wake] using Rule.wake hsets
  | clear mask => exact .clear mask
  | begin mask => exact .begin mask
  | poll id w expired => exact poll_rule u id w expired
  | drop id => exact drop_rule u id

/-- What holds of fresh flags and is kept by every rule holds ever after. -/
theorem rule_induction {P : Usage → Prop} (hfresh : P fresh)
    (hrule : ∀ u v, P u → Rule u v → P v) (moves : List Move) : P (fresh.run moves) := by
  induction moves using List.reverseRecOn with
  | nil => exact hfresh
  | append_singleton moves move ih =>
      rw [run, List.foldl_append]
      exact hrule _ _ ih (step_rule _ move)

end Usage

end Uplink.Readiness
