import Uplink.Queue.Pending

/-! # The laws of queues

What each of the atomic operations does, and when it goes through. -/

namespace Uplink

namespace Waiters

/-- Nobody is registered twice, and there are no more than `limit`. -/
structure Sound (limit : Nat) (t : Waiters) : Prop where
  nodup : t.wakers.Nodup
  length_le : t.wakers.length ≤ limit

@[simp] theorem wakers_empty : empty.wakers = [] := rfl

theorem sound_empty (limit : Nat) : empty.Sound limit :=
  ⟨List.nodup_nil, Nat.zero_le _⟩

variable {limit : Nat} {t : Waiters}

/-- A registration finds the waker there, or finds no room for it, or adds it. -/
theorem register_cases (limit : Nat) (w : Waker) (t : Waiters) :
    (w ∈ t.wakers ∧ t.register limit w = (t, [])) ∨
      (limit ≤ t.wakers.length ∧ t.register limit w = (⟨[w]⟩, t.wakers)) ∨
      (w ∉ t.wakers ∧ t.wakers.length < limit ∧
        t.register limit w = (⟨t.wakers ++ [w]⟩, [])) := by
  by_cases hmem : w ∈ t.wakers
  · exact .inl ⟨hmem, by simp [register, hmem]⟩
  · by_cases hfull : limit ≤ t.wakers.length
    · exact .inr (.inl ⟨hfull, by simp [register, hmem, hfull]⟩)
    · exact .inr (.inr ⟨hmem, Nat.lt_of_not_le hfull, by simp [register, hmem, hfull]⟩)

theorem Sound.register (ht : t.Sound limit) (hlimit : 0 < limit) (w : Waker) :
    (t.register limit w).1.Sound limit := by
  obtain ⟨_, heq⟩ | ⟨_, heq⟩ | ⟨habsent, hroom, heq⟩ := register_cases limit w t <;> rw [heq]
  · exact ht
  · exact ⟨by simp, hlimit⟩
  · refine ⟨List.nodup_append.mpr ⟨ht.nodup, by simp, ?_⟩, by simpa using Nat.succ_le_of_lt hroom⟩
    rintro v hv _ hw rfl
    exact habsent (List.mem_singleton.mp hw ▸ hv)

/-- A registration wakes nobody twice. -/
theorem Sound.nodup_woken (ht : t.Sound limit) (w : Waker) : (t.register limit w).2.Nodup := by
  obtain ⟨_, heq⟩ | ⟨_, heq⟩ | ⟨_, _, heq⟩ := register_cases limit w t <;> rw [heq]
  · exact List.nodup_nil
  · exact ht.nodup
  · exact List.nodup_nil

/-- A registration does not wake who registers. -/
theorem not_mem_woken (limit : Nat) (w : Waker) (t : Waiters) : w ∉ (t.register limit w).2 := by
  by_cases hmem : w ∈ t.wakers
  · simp [register, hmem]
  · obtain ⟨_, heq⟩ | ⟨_, heq⟩ | ⟨_, _, heq⟩ := register_cases limit w t <;> rw [heq]
    · exact List.not_mem_nil
    · exact hmem
    · exact List.not_mem_nil

theorem mem_register (limit : Nat) (w : Waker) (t : Waiters) :
    w ∈ (t.register limit w).1.wakers := by
  obtain ⟨hmem, heq⟩ | ⟨_, heq⟩ | ⟨_, _, heq⟩ := register_cases limit w t <;> rw [heq]
  · exact hmem
  · exact List.mem_singleton_self w
  · exact List.mem_append_right _ (List.mem_singleton_self w)

/-- Whoever was registered still is, unless it has been woken. -/
theorem mem_register_of_mem {v w : Waker} (hv : v ∈ t.wakers)
    (hwoken : v ∉ (t.register limit w).2) : v ∈ (t.register limit w).1.wakers := by
  obtain ⟨_, heq⟩ | ⟨_, heq⟩ | ⟨_, _, heq⟩ := register_cases limit w t <;> rw [heq] at hwoken ⊢
  · exact hv
  · exact absurd hv hwoken
  · exact List.mem_append_left _ hv

end Waiters

namespace Queue

variable {α : Type} {q q' : Queue α} {a : α} {woken : List Waker}

theorem tryPush?_eq_none_iff : q.tryPush? a = none ↔ q.isFull = true := by
  cases hfull : q.isFull <;> simp [tryPush?, hfull]

theorem tryPush?_eq_some_iff :
    q.tryPush? a = some (q', woken) ↔
      q.isFull = false ∧ q' = { q with items := q.items ++ [a], receivers := .empty } ∧
        woken = q.receivers.wakers := by
  cases hfull : q.isFull <;> simp [tryPush?, hfull, Waiters.wake, eq_comm]

theorem tryPop?_eq_none_iff : q.tryPop? = none ↔ q.isEmpty = true := by
  cases hitems : q.items <;> simp [tryPop?, isEmpty, hitems]

theorem tryPop?_eq_some_iff :
    q.tryPop? = some (a, q', woken) ↔
      ∃ items, q.items = a :: items ∧ q' = { q with items, senders := .empty } ∧
        woken = q.senders.wakers := by
  cases hitems : q.items with
  | nil => simp [tryPop?, hitems]
  | cons b items => simp [tryPop?, hitems, Waiters.wake, eq_comm, and_assoc]

theorem items_of_tryPush (h : q.tryPush? a = some (q', woken)) : q'.items = q.items ++ [a] := by
  obtain ⟨-, rfl, -⟩ := tryPush?_eq_some_iff.mp h
  rfl

theorem items_of_tryPop (h : q.tryPop? = some (a, q', woken)) : q.items = a :: q'.items := by
  obtain ⟨items, hitems, rfl, -⟩ := tryPop?_eq_some_iff.mp h
  exact hitems

/-! ## Either direction -/

/-- Whether an action has to wait. -/
def blocks (q : Queue α) : Action α → Bool
  | .send _ => q.isFull
  | .receive => q.isEmpty

/-- Who waits in the direction of an action. -/
def waiters (q : Queue α) : Action α → Waiters
  | .send _ => q.senders
  | .receive => q.receivers

/-- Registers a task in the direction of an action that has to wait. -/
def park (q : Queue α) (action : Action α) (w : Waker) : Queue α × List Waker :=
  match action with
  | .send _ => q.parkSender w
  | .receive => q.parkReceiver w

section Park

variable (q) (action : Action α) (w : Waker)

@[simp] theorem items_park : (q.park action w).1.items = q.items := by
  cases action <;> rfl

@[simp] theorem capacity_park : (q.park action w).1.capacity = q.capacity := by
  cases action <;> rfl

end Park

/-! ## Polls -/

namespace Pending

variable {p : Pending α} (expired : Bool)

theorem poll_of_isDone (hdone : p.isDone = true) : p.poll q expired = (.over, q, p, []) := by
  simp [poll, hdone]

theorem poll_of_send {item : α} (hdone : p.isDone = false) (haction : p.action = .send item)
    (hroom : q.isFull = false) :
    p.poll q expired =
      (.sent, { q with items := q.items ++ [item], receivers := .empty },
        { p with isDone := true }, q.receivers.wakers) := by
  have hpush : q.tryPush? item = some (_, _) := tryPush?_eq_some_iff.mpr ⟨hroom, rfl, rfl⟩
  simp [poll, hdone, haction, hpush]

theorem poll_of_receive {item : α} {items : List α} (hdone : p.isDone = false)
    (haction : p.action = .receive) (hitems : q.items = item :: items) :
    p.poll q expired =
      (.received item, { q with items, senders := .empty }, { p with isDone := true },
        q.senders.wakers) := by
  have hpop : q.tryPop? = some (_, _, _) := tryPop?_eq_some_iff.mpr ⟨items, hitems, rfl, rfl⟩
  simp [poll, hdone, haction, hpop]

theorem poll_of_blocks (hdone : p.isDone = false) (hblocks : q.blocks p.action = true) :
    p.poll q expired =
      ((p.wait expired).1, (q.park p.action p.waker).1, (p.wait expired).2,
        (q.park p.action p.waker).2) := by
  cases haction : p.action with
  | send item =>
      rw [haction] at hblocks
      simp [poll, hdone, haction, tryPush?_eq_none_iff.mpr hblocks, park]
  | receive =>
      rw [haction] at hblocks
      simp [poll, hdone, haction, tryPop?_eq_none_iff.mpr hblocks, park]

/-- A poll reports that the limit has passed only of an operation that has to wait just then. -/
theorem late_of_poll (hlate : (p.poll q expired).1 = .late) :
    p.timed = true ∧ expired = true ∧ q.blocks p.action = true := by
  cases hdone : p.isDone with
  | true => simp [poll_of_isDone expired hdone] at hlate
  | false =>
      cases hblocks : q.blocks p.action with
      | true =>
          rw [poll_of_blocks expired hdone hblocks] at hlate
          by_cases hpassed : p.timed && expired
          · exact ⟨(Bool.and_eq_true_iff.mp hpassed).1, (Bool.and_eq_true_iff.mp hpassed).2, rfl⟩
          · simp [wait, hpassed] at hlate
      | false =>
          cases haction : p.action with
          | send item =>
              rw [haction] at hblocks
              simp [poll_of_send expired hdone haction hblocks] at hlate
          | receive =>
              rw [haction] at hblocks
              obtain ⟨item, items, hitems⟩ :=
                List.exists_cons_of_ne_nil (List.isEmpty_eq_false_iff.mp hblocks)
              simp [poll_of_receive expired hdone haction hitems] at hlate

end Pending

end Queue

end Uplink
