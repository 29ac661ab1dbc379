import Uplink.Proofs.Queue.Semantics

/-! # Wake-ups

Who waits at a queue is registered there for as long as it has to wait and nobody has woken it.
So whatever ends the wait finds it and wakes it. -/

namespace Uplink.Queue

variable {α : Type}

/-! ## What a step of the queue does to those who wait -/

/-- Who was registered before a step still is, unless it was woken. -/
def Remembers (q : Queue α) (woken : List Waker) (q' : Queue α) : Prop :=
  ∀ action w, w ∈ (q.waiters action).wakers → w ∉ woken → w ∈ (q'.waiters action).wakers

theorem remembers_push (q : Queue α) (items : List α) :
    q.Remembers q.receivers.wakers { q with items, receivers := .empty } := by
  intro action w hw hwoken
  cases action with
  | send => exact hw
  | receive => exact absurd hw hwoken

/-- A pop and a clear wake whoever waits for room. -/
theorem remembers_pop (q : Queue α) (items : List α) :
    q.Remembers q.senders.wakers { q with items, senders := .empty } := by
  intro action w hw hwoken
  cases action with
  | send => exact absurd hw hwoken
  | receive => exact hw

theorem remembers_park (q : Queue α) (action : Action α) (w : Waker) :
    q.Remembers (q.park action w).2 (q.park action w).1 := by
  intro other v hv hwoken
  cases action with
  | send item =>
      cases other with
      | send => exact Waiters.mem_register_of_mem hv hwoken
      | receive => exact hv
  | receive =>
      cases other with
      | send => exact hv
      | receive => exact Waiters.mem_register_of_mem hv hwoken

theorem mem_waiters_park (q : Queue α) (action : Action α) (w : Waker) :
    w ∈ ((q.park action w).1.waiters action).wakers := by
  cases action <;> exact Waiters.mem_register _ _ _

/-- The registrations of a queue: each keeps to its bound, and is empty as soon as nobody has to
wait. -/
structure Watched (q : Queue α) : Prop where
  senders : q.senders.Sound maxQueueWaiters
  receivers : q.receivers.Sound maxQueueWaiters
  full : q.senders.wakers ≠ [] → q.isFull = true
  vacant : q.receivers.wakers ≠ [] → q.isEmpty = true

namespace Watched

variable {q : Queue α}

theorem empty (capacity : Nat) : (Queue.empty capacity : Queue α).Watched :=
  ⟨Waiters.sound_empty _, Waiters.sound_empty _, by simp [Queue.empty], by simp [Queue.empty]⟩

/-- A queue at which somebody is registered holds up all who come in this direction. -/
theorem blocks (h : q.Watched) {action : Action α} {w : Waker}
    (hw : w ∈ (q.waiters action).wakers) : q.blocks action = true := by
  cases action with
  | send => exact h.full (List.ne_nil_of_mem hw)
  | receive => exact h.vacant (List.ne_nil_of_mem hw)

theorem push (h : q.Watched) (item : α) (hroom : q.isFull = false) :
    Watched { q with items := q.items ++ [item], receivers := .empty } where
  senders := h.senders
  receivers := Waiters.sound_empty _
  full hne := by simp [h.full hne] at hroom
  vacant := by simp

theorem pop (h : q.Watched) {item : α} {items : List α} (hitems : q.items = item :: items) :
    Watched { q with items, senders := .empty } where
  senders := Waiters.sound_empty _
  receivers := h.receivers
  full := by simp
  vacant hne := by simpa [isEmpty, hitems] using h.vacant hne

theorem clear (h : q.Watched) :
    ({ q with items := [], senders := .empty } : Queue α).Watched where
  senders := Waiters.sound_empty _
  receivers := h.receivers
  full := by simp
  vacant _ := rfl

theorem park (h : q.Watched) {action : Action α} (hblocks : q.blocks action = true) (w : Waker) :
    (q.park action w).1.Watched := by
  have hpos : 0 < maxQueueWaiters := by decide
  cases action with
  | send item => exact ⟨h.senders.register hpos w, h.receivers, fun _ => hblocks, h.vacant⟩
  | receive => exact ⟨h.senders, h.receivers.register hpos w, h.full, fun _ => hblocks⟩

end Watched

namespace Usage

/-! ## Those who sleep -/

/-- Whoever sleeps at the queue is registered in its direction. -/
def Registered (u : Usage α) : Prop :=
  ∀ id action w, u.action? id = some action → u.status? id = some (.asleep w) →
    w ∈ (u.queue.waiters action).wakers

variable {u v : Usage α}

theorem Registered.settle (h : u.Registered) {queue : Queue α} {woken : List Waker}
    (hqueue : u.queue.Remembers woken queue) : (u.settle queue woken).Registered := by
  intro id action w haction hstatus
  rw [action?_settle] at haction
  rw [status?_settle, Option.map_eq_some_iff] at hstatus
  obtain ⟨status, hstatus, hasleep⟩ := hstatus
  obtain ⟨rfl, hwoken⟩ := Status.hear_eq_asleep_iff.mp hasleep
  exact hqueue action w (h id action w haction hstatus) hwoken

theorem Registered.add (h : u.Registered) (action : Action α) (timed : Bool) :
    (u.add action timed).Registered := by
  intro id tried w haction hstatus
  rw [action?_add] at haction
  rw [status?_add] at hstatus
  split at hstatus
  · cases hstatus
  · next hold =>
      rw [if_neg hold] at haction
      exact h id tried w haction hstatus

/-- Nobody comes to sleep without being registered. -/
theorem Registered.turn (h : u.Registered) {id : Nat} {status : Status}
    (hstatus : ∀ w action, status = .asleep w → u.action? id = some action →
      w ∈ (u.queue.waiters action).wakers) : (u.turn id status).Registered := by
  intro j action w haction hasleep
  rw [action?_turn] at haction
  rw [status?_turn] at hasleep
  split at hasleep
  · next hj =>
      subst hj
      obtain ⟨_, _, hasleep⟩ := Option.map_eq_some_iff.mp hasleep
      exact hstatus w action hasleep haction
  · exact h j action w haction hasleep

theorem Registered.finish (h : u.Registered) (id : Nat) (events : List (Event α)) :
    ((u.turn id .over).record events).Registered :=
  h.turn nofun

theorem registered_rule (hu : u.Registered) (hrule : Rule u v) : v.Registered := by
  cases hrule with
  | rest => exact hu
  | add action timed => exact hu.add action timed
  | accept => exact (hu.settle (remembers_push _ _)).finish _ _
  | hand => exact (hu.settle (remembers_pop _ _)).finish _ _
  | refuse | drop => exact hu.finish _ _
  | park w ho =>
      refine (hu.settle (remembers_park _ _ w)).turn ?_
      rintro v action ⟨⟩ haction
      rw [action?_settle, ho.action?] at haction
      obtain rfl := Option.some.inj haction
      exact mem_waiters_park _ _ _
  | late w => exact (hu.settle (remembers_park _ _ w)).finish _ _
  | clear => exact hu.settle (remembers_pop _ _)

theorem watched_rule (hu : u.queue.Watched) (hrule : Rule u v) : v.queue.Watched := by
  cases hrule with
  | rest | add | refuse | drop => exact hu
  | accept _ _ hroom => exact hu.push _ hroom
  | hand _ _ hitems => exact hu.pop hitems
  | park w _ hblocks | late w _ hblocks => exact hu.park hblocks w
  | clear => exact hu.clear

theorem Reachable.watched {capacity : Nat} (hu : Reachable capacity u) :
    u.queue.Watched ∧ u.Registered := by
  induction hu with
  | fresh => exact ⟨.empty capacity, by simp [Registered, Usage.fresh, action?]⟩
  | next _ hrule ih => exact ⟨watched_rule ih.1 hrule, registered_rule ih.2 hrule⟩

/-- No wake-up is lost, however many operations wait and whatever wakers they share: there are at
most eight wakers on either side and no waker twice, senders are registered only at a full queue
and receivers only at an empty one, and every operation whose last poll left it waiting and whose
waker was not woken since is registered in its direction. So no sender sleeps while there is room,
and no receiver while there is an item. -/
theorem no_lost_wakeup (capacity : Nat) (moves : List (Move α)) :
    let u := (fresh capacity).run moves
    (u.queue.senders.wakers.Nodup ∧ u.queue.senders.wakers.length ≤ maxQueueWaiters) ∧
      (u.queue.receivers.wakers.Nodup ∧ u.queue.receivers.wakers.length ≤ maxQueueWaiters) ∧
      (u.queue.senders.wakers ≠ [] → u.queue.isFull = true) ∧
      (u.queue.receivers.wakers ≠ [] → u.queue.isEmpty = true) ∧
      ∀ o ∈ u.operations, ∀ w, o.status = .asleep w →
        w ∈ (u.queue.waiters o.action).wakers ∧ u.queue.blocks o.action = true := by
  intro u
  obtain ⟨hwatched, hregistered⟩ := (reachable_run capacity moves).watched
  refine ⟨⟨hwatched.senders.nodup, hwatched.senders.length_le⟩,
    ⟨hwatched.receivers.nodup, hwatched.receivers.length_le⟩, hwatched.full, hwatched.vacant, ?_⟩
  intro o ho w hasleep
  obtain ⟨id, hid⟩ := List.mem_iff_getElem?.mp ho
  have hmem : w ∈ (u.queue.waiters o.action).wakers :=
    hregistered id o.action w (by simp [u, action?, hid]) (by simp [u, status?, hid, hasleep])
  exact ⟨hmem, hwatched.blocks hmem⟩

end Usage

end Uplink.Queue
