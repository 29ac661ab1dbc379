import Mathlib.Algebra.BigOperators.Group.List.Lemmas
import Mathlib.Algebra.Order.BigOperators.Group.List
import Mathlib.Algebra.Order.Ring.Nat
import Mathlib.Data.List.Nodup
import Uplink.Proofs.Queue.Crowd

/-! # Churn

Where more than eight operations are in progress in a direction, they cannot all have a place in
its registration. One of them is always awake, and as it looks again it may take the places of all
others. So they wake one another for ever, with no message moving. -/

namespace Uplink.Queue

variable {α : Type}

namespace Usage

variable {u : Usage α} {action : Action α} {crew : List Nat} {id j : Nat}

/-- The arrival of an operation and what comes of it, until messages move or the next one arrives,
wakes each of those who were in progress at most once. -/
def Settles (u : Usage α) (action : Action α) (timed : Bool) : Prop :=
  ∀ acts, (u.act (.arrive action timed)).isLull acts = true →
    ∀ id ∈ u.crew action, (u.wakes (.arrive action timed :: acts)).count (.task id) ≤ 1

/-- More operations are held up in a direction than there are places. -/
structure Crowded (u : Usage α) (action : Action α) (crew : List Nat) : Prop where
  proper : u.Proper
  blocks : u.queue.blocks action = true
  waits : ∀ id ∈ crew, u.waits action id = true
  nodup : crew.Nodup
  many : maxQueueWaiters < crew.length

theorem active_of_waits (h : u.waits action id = true) :
    ∃ o, u.Active id o ∧ o.action.isSend = action.isSend := by
  obtain ⟨hopen, hjoins⟩ := Bool.and_eq_true_iff.mp h
  obtain ⟨other, hother, hsend⟩ := (Option.any_eq_true _ _).mp hjoins
  obtain ⟨o, ho, rfl⟩ := Option.map_eq_some_iff.mp hother
  refine ⟨o, ⟨ho, ?_⟩, of_decide_eq_true hsend⟩
  simpa [isOver, status?, ho] using hopen

/-! ## An arrival -/

/-- What an arrival does that has to wait. -/
theorem act_arrive (timed : Bool) (hblocks : u.queue.blocks action = true) :
    u.act (.arrive action timed) =
        (((u.add action timed).settle (u.queue.park action (.task u.operations.length)).1
          (u.queue.park action (.task u.operations.length)).2).turn u.operations.length
            (.asleep (.task u.operations.length))) ∧
      u.woken (.arrive action timed) = (u.queue.park action (.task u.operations.length)).2 := by
  have hnew := active_add u action timed
  have hpoll := poll_of_blocks (.task u.operations.length) false hnew hblocks
  rw [Bool.and_false] at hpoll
  exact ⟨hpoll.trans (record_nil _), wokenByPoll_of_blocks false hnew hblocks⟩

theorem traffic_arrive (timed : Bool) (hblocks : u.queue.blocks action = true) :
    (u.act (.arrive action timed)).traffic = u.traffic := by
  rw [(act_arrive timed hblocks).1]
  rfl

theorem mem_crew : id ∈ u.crew action ↔ u.waits action id = true := by
  rw [crew, List.mem_filter, List.mem_range, and_iff_right_iff_imp]
  intro h
  obtain ⟨o, ho, -⟩ := active_of_waits h
  exact (List.getElem?_eq_some_iff.mp ho.get).1

theorem nodup_crew : (u.crew action).Nodup :=
  List.nodup_range.filter _

theorem lt_of_mem_crew (h : id ∈ u.crew action) : id < u.operations.length :=
  List.mem_range.mp (List.mem_filter.mp h).1

theorem waits_add (timed : Bool) :
    (u.add action timed).waits action id = true ↔
      id = u.operations.length ∨ u.waits action id = true := by
  simp only [waits, joins, isOver_add, action?_add]
  by_cases hnew : id = u.operations.length
  · simp [hnew, isOver, status?]
  · simp [hnew]

/-- An operation that falls asleep still waits, and so does everybody else. -/
theorem waits_turn_asleep {w : Waker} (queue : Queue α) (woken : List Waker)
    (h : u.waits action id = true) :
    ((u.settle queue woken).turn j (.asleep w)).waits action id = true := by
  simp only [waits, joins, Bool.and_eq_true, isOver_turn, isOver_settle, action?_turn,
    action?_settle] at h ⊢
  refine ⟨?_, h.2⟩
  split
  · simp
  · exact h.1

theorem crowded_arrive (hu : u.Proper) (timed : Bool) (hblocks : u.queue.blocks action = true)
    (hmany : maxQueueWaiters ≤ (u.crew action).length) :
    (u.act (.arrive action timed)).Crowded action (u.operations.length :: u.crew action) where
  proper := hu.act _
  blocks := by
    rw [(act_arrive timed hblocks).1]
    simpa using hblocks
  waits id hid := by
    have hbefore : (u.add action timed).waits action id = true :=
      (waits_add timed).mpr ((List.mem_cons.mp hid).imp_right mem_crew.mp)
    rw [(act_arrive timed hblocks).1]
    exact waits_turn_asleep _ _ hbefore
  nodup := List.nodup_cons.mpr ⟨fun hmem => Nat.lt_irrefl _ (lt_of_mem_crew hmem), nodup_crew⟩
  many := Nat.lt_succ_of_le hmany

/-! ## One is always awake -/

theorem Crowded.exists_roused (h : u.Crowded action crew) :
    ∃ id ∈ crew, u.status? id = some .roused := by
  by_contra hnone
  have hall : crew.map .task ⊆ (u.queue.waiters action).wakers := by
    intro w hw
    obtain ⟨id, hid, rfl⟩ := List.mem_map.mp hw
    obtain ⟨o, ho, -⟩ := active_of_waits (h.waits id hid)
    have hjoins : u.joins action id = true := (Bool.and_eq_true_iff.mp (h.waits id hid)).2
    cases hstatus : o.status with
    | roused => exact absurd ⟨id, hid, hstatus ▸ ho.status?⟩ hnone
    | asleep w => exact (h.proper.mem_waiters hjoins (hstatus ▸ ho.status?)).2
    | _ => exact absurd hstatus ho.open_
  have hnodup : (crew.map Waker.task).Nodup :=
    h.nodup.map fun _ _ heq => Waker.task.inj heq
  have hlength : crew.length ≤ maxQueueWaiters :=
    calc crew.length = (crew.map Waker.task).length := (List.length_map _).symm
      _ ≤ (u.queue.waiters action).wakers.length := (List.subperm_of_subset hnodup hall).length_le
      _ ≤ maxQueueWaiters := (sound_waiters h.proper.watched action).length_le
  exact Nat.not_lt_of_le hlength h.many

/-- Who is awake was so before, or was woken with its own waker. -/
theorem Proper.roused_of_settle (h : u.Proper) {queue : Queue α} {woken : List Waker}
    (hroused : (u.settle queue woken).status? id = some .roused) :
    u.status? id = some .roused ∨ .task id ∈ woken := by
  rw [status?_settle] at hroused
  obtain ⟨status, hstatus, hhear⟩ := Option.map_eq_some_iff.mp hroused
  cases status with
  | roused => exact .inl hstatus
  | asleep w =>
      obtain rfl := h.owned id w hstatus
      right
      by_contra hmem
      simp [Status.hear, hmem] at hhear
  | _ => cases hhear

/-- What is left of a crowd when one that is awake looks again. -/
structure Relapse (u : Usage α) (action : Action α) (crew : List Nat) (id : Nat) : Prop where
  allows : u.allows (.again id) = true
  quiet : (u.act (.again id)).traffic = u.traffic
  crowded : (u.act (.again id)).Crowded action crew
  asleep : (u.act (.again id)).status? id ≠ some .roused
  /-- Who is awake after that was so before, or was woken. -/
  others : ∀ j, (u.act (.again id)).status? j = some .roused →
    u.status? j = some .roused ∨ .task j ∈ u.woken (.again id)
  once : (u.woken (.again id)).Nodup
  spared : .task id ∉ u.woken (.again id)

theorem Crowded.relapse (h : u.Crowded action crew) (hid : id ∈ crew)
    (hroused : u.status? id = some .roused) : u.Relapse action crew id := by
  obtain ⟨o, ho, hsend⟩ := active_of_waits (h.waits id hid)
  have hblocks : u.queue.blocks o.action = true := (blocks_of_isSend hsend).trans h.blocks
  have hpoll : u.act (.again id) =
      (u.settle (u.queue.park o.action (.task id)).1 (u.queue.park o.action (.task id)).2).turn id
        (.asleep (.task id)) := by
    have hpoll := poll_of_blocks (.task id) false ho hblocks
    rw [Bool.and_false] at hpoll
    exact hpoll.trans (record_nil _)
  have hwoken : u.woken (.again id) =
      ((u.queue.waiters o.action).register maxQueueWaiters (.task id)).2 :=
    (wokenByPoll_of_blocks false ho hblocks).trans (woken_park _ _)
  constructor
  · exact decide_eq_true hroused
  · rw [hpoll]
    rfl
  · refine ⟨h.proper.act _, ?_, ?_, h.nodup, h.many⟩
    · rw [hpoll]
      simpa using h.blocks
    · intro k hk
      rw [hpoll]
      exact waits_turn_asleep _ _ (h.waits k hk)
  · rw [hpoll]
    simp [ho.status?]
  · intro k hk
    rw [hpoll, status?_turn] at hk
    split at hk
    · obtain ⟨_, _, hasleep⟩ := Option.map_eq_some_iff.mp hk
      cases hasleep
    · exact hwoken ▸ woken_park _ _ ▸ h.proper.roused_of_settle hk
  · rw [hwoken]
    exact (sound_waiters h.proper.watched o.action).nodup_woken _
  · rw [hwoken]
    exact Waiters.not_mem_woken _ _ _

/-! ## For ever -/

/-- A crowd may go on for as long as one likes. Nobody looks more often than it is woken, but for
once; and nobody wakes itself. -/
theorem Crowded.exists_lull (h : u.Crowded action crew) (length : Nat) :
    ∃ ids : List Nat, ids.length = length ∧ (∀ id ∈ ids, id ∈ crew) ∧
      u.isLull (ids.map .again) = true ∧
      (∀ j, ids.count j ≤ (u.wakes (ids.map .again)).count (.task j) +
        if u.status? j = some .roused then 1 else 0) ∧
      ∀ j, (u.wakes (ids.map .again)).count (.task j) ≤ ids.countP (· ≠ j) := by
  induction length generalizing u with
  | zero => exact ⟨[], rfl, nofun, rfl, fun _ => Nat.zero_le _, fun _ => Nat.zero_le _⟩
  | succ length ih =>
      obtain ⟨id, hid, hroused⟩ := h.exists_roused
      have hrelapse := h.relapse hid hroused
      obtain ⟨ids, hlength, hcrew, hlull, hlooks, hwakes⟩ := ih hrelapse.crowded
      refine ⟨id :: ids, by simp [hlength], List.forall_mem_cons.mpr ⟨hid, hcrew⟩, ?_, ?_, ?_⟩
      · simp [isLull, Act.isArrival, hrelapse.allows, hrelapse.quiet, hlull]
      · intro j
        have hrest := hlooks j
        rw [List.map_cons, wakes, List.count_append, List.count_cons]
        by_cases hj : id = j
        · subst hj
          rw [if_neg hrelapse.asleep] at hrest
          simp only [beq_self_eq_true, if_true, hroused]
          omega
        · have hother : (id == j) = false := by simpa using hj
          rw [hother, if_neg Bool.false_ne_true]
          by_cases hnow : (u.act (.again id)).status? j = some .roused
          · rw [if_pos hnow] at hrest
            rcases hrelapse.others j hnow with hbefore | hwoken
            · rw [if_pos hbefore]
              omega
            · have := List.count_pos_iff.mpr hwoken
              omega
          · rw [if_neg hnow] at hrest
            omega
      · intro j
        have hrest := hwakes j
        rw [List.map_cons, wakes, List.count_append, List.countP_cons]
        by_cases hj : id = j
        · subst hj
          rw [List.count_eq_zero.mpr hrelapse.spared]
          omega
        · have := List.nodup_iff_count.mp hrelapse.once (.task j)
          rw [if_pos (decide_eq_true hj)]
          omega

/-- Where many are named, somebody is named often. -/
theorem exists_count_lt {ids : List Nat} {k : Nat} (hcrew : ∀ id ∈ ids, id = j ∨ id ∈ crew)
    (hmany : crew.length * k < ids.countP (· ≠ j)) : ∃ id ∈ crew, k < ids.count id := by
  by_contra hnone
  have hfew : ∀ id ∈ crew, ids.count id ≤ k :=
    fun id hid => Nat.le_of_not_lt fun hlt => hnone ⟨id, hid, hlt⟩
  have hsubset : (ids.filter (· ≠ j)).dedup ⊆ crew := by
    intro id hid
    obtain ⟨hmem, hne⟩ := List.mem_filter.mp (List.mem_dedup.mp hid)
    exact (hcrew id hmem).resolve_left (by simpa using hne)
  refine Nat.not_le_of_lt hmany ?_
  calc ids.countP (· ≠ j) = (ids.filter (· ≠ j)).length := List.countP_eq_length_filter
    _ = ((ids.filter (· ≠ j)).dedup.map fun id => (ids.filter (· ≠ j)).count id).sum :=
        (List.sum_map_count_dedup_eq_length _).symm
    _ ≤ ((ids.filter (· ≠ j)).dedup.map fun id =>
          (ids.filter (· ≠ j)).count id).length • k := by
        refine List.sum_le_card_nsmul _ _ ?_
        intro count hcount
        obtain ⟨id, hid, rfl⟩ := List.mem_map.mp hcount
        exact (List.filter_sublist.count_le id).trans (hfew id (hsubset hid))
    _ ≤ crew.length * k := by
        rw [List.length_map]
        exact Nat.mul_le_mul_right k
          (List.subperm_of_subset (List.nodup_dedup _) hsubset).length_le

theorem exists_churn (hu : u.Proper) (timed : Bool) (hblocks : u.queue.blocks action = true)
    (hmany : maxQueueWaiters ≤ (u.crew action).length) (n : Nat) :
    ∃ acts, (u.act (.arrive action timed)).isLull acts = true ∧
      ∃ id ∈ u.crew action, n ≤ (u.wakes (.arrive action timed :: acts)).count (.task id) := by
  obtain ⟨ids, hlength, hcrew, hlull, hlooks, hwakes⟩ :=
    (crowded_arrive hu timed hblocks hmany).exists_lull (2 * ((u.crew action).length * n) + 2)
  -- The newcomer looks in at most every other poll, as only the others wake it.
  have hnew := hlooks u.operations.length
  have hself := hwakes u.operations.length
  have htotal := List.length_eq_countP_add_countP (· ≠ u.operations.length) (l := ids)
  have hcount : ids.countP (fun id => decide ¬(decide (id ≠ u.operations.length) = true)) =
      ids.count u.operations.length := by
    rw [List.count_eq_countP]
    exact List.countP_congr fun id _ => by simp
  have hothers : (u.crew action).length * n < ids.countP (· ≠ u.operations.length) := by
    split at hnew <;> omega
  obtain ⟨id, hid, hoften⟩ :=
    exists_count_lt (fun id hid => List.mem_cons.mp (hcrew id hid)) hothers
  refine ⟨ids.map .again, hlull, id, hid, ?_⟩
  have hlooked := hlooks id
  rw [wakes, List.count_append]
  split at hlooked <;> omega

/-- Tasks with wakers of their own use a queue, and one more comes that has to wait. However its
arrival goes on, until a message moves or the next one arrives it wakes each of those in progress
in its direction at most once, exactly if these are fewer than eight. Otherwise it may wake one of
them as often as one likes, though each looks only once for every wake. The wakes are those by the
queue; those by a full table of timers are not counted. -/
theorem settles_iff (capacity : Nat) (before : List (Act α)) (action : Action α) (timed : Bool)
    (hblocks : ((fresh capacity).play before).queue.blocks action = true) :
    let u := (fresh capacity).play before
    (u.Settles action timed ↔ (u.crew action).length < maxQueueWaiters) ∧
      (maxQueueWaiters ≤ (u.crew action).length →
        ∀ n, ∃ acts, (u.act (.arrive action timed)).isLull acts = true ∧
          ∃ id ∈ u.crew action,
            n ≤ (u.wakes (.arrive action timed :: acts)).count (.task id)) := by
  intro u
  have hu : u.Proper := proper_play capacity before
  have hchurn (hmany : maxQueueWaiters ≤ (u.crew action).length) :=
    exists_churn hu timed hblocks hmany
  refine ⟨⟨?_, ?_⟩, hchurn⟩
  · intro hsettles
    by_contra hmany
    obtain ⟨acts, hlull, id, hid, htwice⟩ := hchurn (Nat.le_of_not_lt hmany) 2
    have := hsettles acts hlull id hid
    omega
  · intro hfew acts hlull id hid
    have hadded := hu.add action timed
    have heffect := effect_arrive u action timed
    have hquiet : (u.act (.arrive action timed)).traffic = (u.add action timed).traffic :=
      traffic_arrive timed hblocks
    have hfits : (u.add action timed).Fits action (u.operations.length :: u.crew action) := by
      intro k hk
      exact List.mem_cons.mpr (((waits_add timed).mp hk).imp_right mem_crew.mpr)
    have hjoins : (u.add action timed).joins action id = true :=
      joins_of_action (fun _ _ => action?_of_add timed)
        (Bool.and_eq_true_iff.mp (mem_crew.mp hid)).2
    have hlength : (u.operations.length :: u.crew action).length ≤ maxQueueWaiters := hfew
    refine heffect.count_append_le hlength hadded (hu.act _) hquiet hfits hjoins hlull ?_
    exact count_wakes_le hlength (hu.act _) (fun k hk => hfits k (heffect.waits hquiet hk))
      (joins_of_action heffect.action? hjoins) hlull

/-- Two senders wait at a full queue, one of them with a time limit, and a third arrives. -/
theorem settles_for_three :
    let u : Usage Nat := (fresh 1).play
      [.attempt (.send 0), .arrive (.send 1) false, .arrive (.send 2) true]
    u.queue.blocks (.send 3) = true ∧ u.crew (.send 3) = [1, 2] ∧ u.Settles (.send 3) false := by
  have hblocks : ((fresh 1 : Usage Nat).play
      [.attempt (.send 0), .arrive (.send 1) false, .arrive (.send 2) true]).queue.blocks
        (.send 3) = true := by decide
  exact ⟨hblocks, by decide, ((settles_iff 1 _ (.send 3) false hblocks).1).mpr (by decide)⟩

/-- Eight senders wait at a full queue, and a ninth arrives: all of the eight lose their places and
look again, and the last of them takes the places of the others. -/
theorem churn_of_nine :
    let u : Usage Nat := (fresh 1).play
      (.attempt (.send 0) :: List.replicate 8 (.arrive (.send 1) false))
    let acts := (List.range' 1 8).map Act.again
    u.crew (.send 1) = List.range' 1 8 ∧
      (u.act (.arrive (.send 1) false)).isLull acts = true ∧
      (u.wakes (.arrive (.send 1) false :: acts)).count (.task 1) = 2 ∧
      ¬u.Settles (.send 1) false := by
  intro u acts
  have hlull : (u.act (.arrive (.send 1) false)).isLull acts = true := by decide
  have hcrew : u.crew (.send 1) = List.range' 1 8 := by decide
  have htwice : (u.wakes (.arrive (.send 1) false :: acts)).count (.task 1) = 2 := by decide
  refine ⟨hcrew, hlull, htwice, ?_⟩
  intro hsettles
  have := hsettles acts hlull 1 (by rw [hcrew]; decide)
  omega

end Usage

end Uplink.Queue
