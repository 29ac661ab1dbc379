import Uplink.Proofs.Queue.Usage

/-! # The rules of using a queue

One rule for each thing that may happen next. A call of the queue is two of them, the beginning of
an operation and its first look. -/

namespace Uplink.Queue

variable {α : Type}

namespace Usage

/-- An operation that is in progress. -/
structure Active (u : Usage α) (id : Nat) (o : Operation α) : Prop where
  get : u.operations[id]? = some o
  open_ : o.status ≠ .over

namespace Active

variable {u : Usage α} {id : Nat} {o : Operation α}

theorem action? (ho : u.Active id o) : u.action? id = some o.action := by
  simp [Usage.action?, ho.get]

theorem status? (ho : u.Active id o) : u.status? id = some o.status := by
  simp [Usage.status?, ho.get]

theorem isOver (ho : u.Active id o) : u.isOver id = false := by
  simp [Usage.isOver, ho.status?, ho.open_]

end Active

/-- What may happen next to a queue in use. -/
inductive Rule (u : Usage α) : Usage α → Prop
  | rest : Rule u u
  | add (action timed) : Rule u (u.add action timed)
  | accept {id o item} (ho : u.Active id o) (haction : o.action = .send item)
      (hroom : u.queue.isFull = false) :
      Rule u
        (((u.settle { u.queue with items := u.queue.items ++ [item], receivers := .empty }
            u.queue.receivers.wakers).turn id .over).record [.accepted id item])
  | hand {id o item items} (ho : u.Active id o) (haction : o.action = .receive)
      (hitems : u.queue.items = item :: items) :
      Rule u
        (((u.settle { u.queue with items, senders := .empty } u.queue.senders.wakers).turn id
            .over).record [.handed id item])
  | refuse {id o} (ho : u.Active id o) (hblocks : u.queue.blocks o.action = true) :
      Rule u ((u.turn id .over).record [.refused id o.action])
  | park {id o} (w : Waker) (ho : u.Active id o) (hblocks : u.queue.blocks o.action = true) :
      Rule u
        ((u.settle (u.queue.park o.action w).1 (u.queue.park o.action w).2).turn id (.asleep w))
  | late {id o} (w : Waker) (ho : u.Active id o) (hblocks : u.queue.blocks o.action = true)
      (htimed : o.timed = true) :
      Rule u
        (((u.settle (u.queue.park o.action w).1 (u.queue.park o.action w).2).turn id
            .over).record [.late id o.action])
  | drop {id o} (ho : u.Active id o) : Rule u ((u.turn id .over).record [.dropped id])
  | clear :
      Rule u
        ((u.settle { u.queue with items := [], senders := .empty }
            u.queue.senders.wakers).record [.cleared u.queue.items])

/-- What may become of a queue of a given capacity that nobody has used yet. -/
inductive Reachable (capacity : Nat) : Usage α → Prop
  | fresh : Reachable capacity (fresh capacity)
  | next {u u'} : Reachable capacity u → Rule u u' → Reachable capacity u'

/-! ## Every move follows the rules -/

theorem look_rule {u : Usage α} {id : Nat} {o : Operation α} (waits : Bool) (ho : u.Active id o) :
    Rule u (u.look id waits o.action) := by
  have hfail (hblocks : u.queue.blocks o.action = true) :
      Rule u (if waits then u else (u.turn id .over).record [.refused id o.action]) := by
    cases waits with
    | true => exact .rest
    | false => exact .refuse ho hblocks
  cases haction : o.action with
  | send item =>
      cases hpush : u.queue.tryPush? item with
      | none =>
          rw [haction] at hfail
          simpa only [look, hpush] using hfail (tryPush?_eq_none_iff.mp hpush)
      | some pair =>
          obtain ⟨hroom, hqueue, hwoken⟩ := tryPush?_eq_some_iff.mp hpush
          simp only [look, hpush, hqueue, hwoken]
          exact .accept ho haction hroom
  | receive =>
      cases hpop : u.queue.tryPop? with
      | none =>
          rw [haction] at hfail
          simpa only [look, hpop] using hfail (tryPop?_eq_none_iff.mp hpop)
      | some triple =>
          obtain ⟨items, hitems, hqueue, hwoken⟩ := tryPop?_eq_some_iff.mp hpop
          simp only [look, hpop, hqueue, hwoken]
          exact .hand ho haction hitems

/-- A poll of an operation that has ended changes nothing. -/
theorem poll_of_over {u : Usage α} {id : Nat} {o : Operation α} (w : Waker) (expired : Bool)
    (ho : u.operations[id]? = some o) (hover : o.status = .over) : u.poll id w expired = u := by
  have hdone : (o.pending w).isDone = true := decide_eq_true hover
  -- The poll wakes nobody, and puts the operation into the state that it is in.
  have hturn : u.operations.modify id (fun o => { o with status := .over }) = u.operations := by
    refine List.ext_getElem? fun j => ?_
    rw [List.getElem?_modify]
    split
    · next hj =>
        subst hj
        rw [ho]
        cases o
        cases hover
        rfl
    · simp
  simp [poll, ho, Pending.poll_of_isDone expired hdone, settle, turn, Progress.events,
    Progress.status, hturn]

theorem poll_rule (u : Usage α) (id : Nat) (w : Waker) (expired : Bool) :
    Rule u (u.poll id w expired) := by
  cases ho : u.operations[id]? with
  | none => simpa [poll, ho] using Rule.rest
  | some o =>
      by_cases hover : o.status = .over
      · rw [poll_of_over w expired ho hover]
        exact .rest
      · have hactive : u.Active id o := ⟨ho, hover⟩
        have hdone : (o.pending w).isDone = false := decide_eq_false hover
        cases hblocks : u.queue.blocks o.action with
        | true =>
            have hpoll := Pending.poll_of_blocks (p := o.pending w) expired hdone hblocks
            by_cases hlate : o.timed && expired
            · have hwait : (o.pending w).wait expired = (.late, _) := if_pos hlate
              simp only [poll, ho, hpoll, hwait]
              exact .late w hactive hblocks (Bool.and_eq_true_iff.mp hlate).1
            · have hwait : (o.pending w).wait expired = (.waiting, _) := if_neg hlate
              simp only [poll, ho, hpoll, hwait]
              simpa [Progress.events, Progress.status] using Rule.park w hactive hblocks
        | false =>
            cases haction : o.action with
            | send item =>
                rw [haction] at hblocks
                simp only [poll, ho, Pending.poll_of_send expired hdone haction hblocks]
                simpa [Progress.events, Progress.status, haction] using
                  Rule.accept hactive haction hblocks
            | receive =>
                rw [haction] at hblocks
                obtain ⟨item, items, hitems⟩ :=
                  List.exists_cons_of_ne_nil (List.isEmpty_eq_false_iff.mp hblocks)
                simp only [poll, ho, Pending.poll_of_receive expired hdone haction hitems]
                exact .hand hactive haction hitems

theorem drop_rule (u : Usage α) (id : Nat) : Rule u (u.drop id) := by
  cases ho : u.operations[id]? with
  | none => simpa [drop, ho] using Rule.rest
  | some o =>
      by_cases hover : o.status = .over
      · simpa [drop, ho, hover] using Rule.rest
      · simpa [drop, ho, hover] using Rule.drop ⟨ho, hover⟩

theorem active_add (u : Usage α) (action : Action α) (timed : Bool) :
    (u.add action timed).Active u.operations.length ⟨action, timed, .roused⟩ :=
  ⟨by simp [add], by simp⟩

theorem reachable_step {capacity : Nat} {u : Usage α} (hu : Reachable capacity u)
    (move : Move α) : Reachable capacity (u.step move) := by
  cases move with
  | call action waits =>
      exact (hu.next (.add action true)).next (look_rule waits (active_add u action true))
  | clear => exact hu.next .clear
  | begin action timed => exact hu.next (.add action timed)
  | poll id w expired => exact hu.next (poll_rule u id w expired)
  | drop id => exact hu.next (drop_rule u id)

theorem reachable_run (capacity : Nat) (moves : List (Move α)) :
    Reachable capacity ((Usage.fresh capacity).run moves) := by
  suffices h : ∀ u, Reachable capacity u → Reachable capacity (run u moves) from h _ .fresh
  induction moves with
  | nil => exact fun _ hu => hu
  | cons move moves ih => exact fun u hu => ih _ (reachable_step hu move)

/-! ## A caller on its own -/

/-- What a push comes to. -/
def pushed (id : Nat) (item : α) : Except QueueError Unit → Event α
  | .ok () => .accepted id item
  | .error .full => .refused id (.send item)
  | .error .timedOut => .late id (.send item)

/-- What a pop comes to. -/
def popped (id limit : Nat) : Option α → Event α
  | some item => .handed id item
  | none => if limit = 0 then .refused id .receive else .late id .receive

theorem poll_of_isOver {u : Usage α} {id : Nat} (w : Waker) (expired : Bool)
    (h : u.status? id = some .over) : u.poll id w expired = u := by
  obtain ⟨o, ho, hover⟩ := Option.map_eq_some_iff.mp h
  exact poll_of_over w expired ho hover

/-- A push while nobody else acts is a call, and a poll at the time limit. -/
theorem run_push (u : Usage α) (w : Waker) (item : α) (limit : Nat) :
    let u' := u.run [.call (.send item) (decide (0 < limit)), .poll u.operations.length w true]
    u'.queue = (u.queue.push w item limit).2.1 ∧
      u'.log = u.log ++ [pushed u.operations.length item (u.queue.push w item limit).1] := by
  cases hpush : u.queue.tryPush? item with
  | some pair =>
      simp [run, step, look, push, hpush, poll_of_isOver, status?_add, pushed, Status.hear]
  | none =>
      cases limit with
      | zero => simp [run, step, look, push, hpush, poll_of_isOver, status?_add, pushed]
      | succ limit =>
          simp [run, step, look, push, hpush, pushed, poll, add, Operation.pending, Pending.start,
            Pending.poll, Pending.wait, Progress.events]

/-- A pop while nobody else acts is a call, and a poll at the time limit. -/
theorem run_pop (u : Usage α) (w : Waker) (limit : Nat) :
    let u' := u.run [.call .receive (decide (0 < limit)), .poll u.operations.length w true]
    u'.queue = (u.queue.pop w limit).2.1 ∧
      u'.log = u.log ++ [popped u.operations.length limit (u.queue.pop w limit).1] := by
  cases hpop : u.queue.tryPop? with
  | some triple =>
      simp [run, step, look, pop, hpop, poll_of_isOver, status?_add, popped, Status.hear]
  | none =>
      cases limit with
      | zero => simp [run, step, look, pop, hpop, poll_of_isOver, status?_add, popped]
      | succ limit =>
          simp [run, step, look, pop, hpop, popped, poll, add, Operation.pending, Pending.start,
            Pending.poll, Pending.wait, Progress.events]

end Usage

end Uplink.Queue
