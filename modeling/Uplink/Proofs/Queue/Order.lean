import Uplink.Proofs.Queue.Semantics

/-! # Order

A queue in use behaves as a bounded first-in first-out list, whoever waits at it and in whatever
way the operations overlap. -/

namespace Uplink.Queue

variable {α : Type}

/-! ## The specification -/

/-- Whether an action is held up at a list of items with a bound on its length. -/
def Action.IsHeldUp (capacity : Nat) (items : List α) : Action α → Prop
  | .send _ => capacity ≤ items.length
  | .receive => items = []

/-- The histories of a bounded first-in first-out list, each with the items that it leaves: an
item is added at the end while there is room, the first one is handed out, a clear removes all,
and an operation ends in vain only while it is held up. -/
inductive Fifo (capacity : Nat) : List (Event α) → List α → Prop
  | start : Fifo capacity [] []
  | accept {log items} (h : Fifo capacity log items) (id : Nat) (item : α)
      (hroom : items.length < capacity) :
      Fifo capacity (log ++ [.accepted id item]) (items ++ [item])
  | hand {log item items} (h : Fifo capacity log (item :: items)) (id : Nat) :
      Fifo capacity (log ++ [.handed id item]) items
  | refuse {log items} (h : Fifo capacity log items) (id : Nat) (action : Action α)
      (hheld : action.IsHeldUp capacity items) :
      Fifo capacity (log ++ [.refused id action]) items
  | late {log items} (h : Fifo capacity log items) (id : Nat) (action : Action α)
      (hheld : action.IsHeldUp capacity items) :
      Fifo capacity (log ++ [.late id action]) items
  | drop {log items} (h : Fifo capacity log items) (id : Nat) :
      Fifo capacity (log ++ [.dropped id]) items
  | clear {log items} (h : Fifo capacity log items) :
      Fifo capacity (log ++ [.cleared items]) []

namespace Event

/-- The operation that an event is the outcome of. -/
def operation? : Event α → Option Nat
  | .accepted id _ | .handed id _ | .refused id _ | .late id _ | .dropped id => some id
  | .cleared _ => none

/-- The items that an event puts into the queue. -/
def entering : Event α → List α
  | .accepted _ item => [item]
  | .handed _ _ | .refused _ _ | .late _ _ | .dropped _ | .cleared _ => []

/-- The items that an event takes out of the queue. -/
def leaving : Event α → List α
  | .handed _ item => [item]
  | .cleared items => items
  | .accepted _ _ | .refused _ _ | .late _ _ | .dropped _ => []

/-- Whether an event can be the outcome of an operation with the given action. -/
def suits (action : Action α) : Event α → Prop
  | .accepted _ item => action = .send item
  | .handed _ _ => action = .receive
  | .refused _ tried | .late _ tried => action = tried
  | .dropped _ => True
  | .cleared _ => False

end Event

namespace Fifo

variable {capacity : Nat} {log : List (Event α)} {items : List α}

theorem length_le (h : Fifo capacity log items) : items.length ≤ capacity := by
  induction h with
  | start | clear => exact Nat.zero_le _
  | accept _ _ _ hroom => simpa using Nat.succ_le_of_lt hroom
  | hand _ _ ih => exact Nat.le_of_succ_le ih
  | refuse _ _ _ _ ih | late _ _ _ _ ih | drop _ _ ih => exact ih

/-- What was put in is what was taken out, in the same order, and then what is left. -/
theorem entering_eq (h : Fifo capacity log items) :
    log.flatMap Event.entering = log.flatMap Event.leaving ++ items := by
  induction h with
  | start => rfl
  | _ => simp_all [Event.entering, Event.leaving]

end Fifo

namespace Usage

/-! ## The outcome of an operation -/

/-- What came of an operation. -/
def outcomes (u : Usage α) (id : Nat) : List (Event α) :=
  u.log.filter (·.operation? = some id)

/-- Every operation that is over has one outcome, and no other one has any. -/
def Accounted (u : Usage α) : Prop :=
  ∀ id, (u.outcomes id).length = (u.isOver id).toNat

variable {u v : Usage α}

/-- Nothing changes as long as no operation ends. -/
theorem Accounted.of_same (h : u.Accounted) (hlog : v.log = u.log)
    (hover : ∀ j, v.isOver j = u.isOver j) : v.Accounted := by
  intro j
  rw [outcomes, hlog, ← outcomes, h j, hover]

/-- An operation in progress ends with its outcome. -/
theorem Accounted.of_end {id : Nat} {o : Operation α} {e : Event α} (h : u.Accounted)
    (ho : u.Active id o) (hlog : v.log = u.log ++ [e]) (he : e.operation? = some id)
    (hover : ∀ j, v.isOver j = if id = j then true else u.isOver j) : v.Accounted := by
  intro j
  have hj := h j
  rw [outcomes] at hj
  rw [outcomes, hlog, List.filter_append, List.length_append, hj, hover]
  by_cases hid : id = j
  · subst hid
    simp [he, ho.isOver]
  · simp [he, hid]

/-- No operation has two outcomes. -/
theorem Accounted.eq_of_mem {id : Nat} {e e' : Event α} (h : u.Accounted) (he : e ∈ u.log)
    (hid : e.operation? = some id) (he' : e' ∈ u.log) (hid' : e'.operation? = some id) :
    e = e' := by
  have hmem : e ∈ u.outcomes id := List.mem_filter.mpr ⟨he, by simpa using hid⟩
  have hmem' : e' ∈ u.outcomes id := List.mem_filter.mpr ⟨he', by simpa using hid'⟩
  obtain ⟨x, hx⟩ : ∃ x, u.outcomes id = [x] := by
    have hle : (u.outcomes id).length ≤ 1 := h id ▸ Bool.toNat_le _
    exact List.length_eq_one_iff.mp (Nat.le_antisymm hle (List.length_pos_of_mem hmem))
  rw [hx, List.mem_singleton] at hmem hmem'
  rw [hmem, hmem']

theorem accounted_rule (hu : u.Accounted) (hrule : Rule u v) : v.Accounted := by
  cases hrule with
  | rest => exact hu
  | add => exact hu.of_same rfl (by simp)
  | accept ho | hand ho | refuse ho | late w ho | drop ho =>
      exact hu.of_end ho rfl rfl (by simp [ho.status?])
  | @park id o w ho =>
      refine hu.of_same rfl fun j => ?_
      by_cases hj : id = j
      · subst hj
        simp [ho.isOver]
      · simp [hj]
  | clear =>
      intro id
      simpa [outcomes, Event.operation?] using hu id

/-- The outcome of an operation is one that its action may have. -/
def Suited (u : Usage α) : Prop :=
  ∀ e ∈ u.log, ∀ id, e.operation? = some id → ∃ action, u.action? id = some action ∧ e.suits action

theorem Suited.of_end {id : Nat} {o : Operation α} {e : Event α} (h : u.Suited)
    (ho : u.Active id o) (hlog : v.log = u.log ++ [e]) (he : e.operation? = some id)
    (hsuits : e.suits o.action) (haction : ∀ j, v.action? j = u.action? j) : v.Suited := by
  intro e' he' j hj
  rw [hlog, List.mem_append, List.mem_singleton] at he'
  rw [haction]
  rcases he' with he' | rfl
  · exact h e' he' j hj
  · obtain rfl : id = j := Option.some.inj (he.symm.trans hj)
    exact ⟨o.action, ho.action?, hsuits⟩

theorem suited_rule (hu : u.Suited) (hrule : Rule u v) : v.Suited := by
  cases hrule with
  | rest => exact hu
  | add action timed =>
      intro e he id hid
      obtain ⟨tried, htried, hsuits⟩ := hu e he id hid
      refine ⟨tried, ?_, hsuits⟩
      -- What has an outcome is not the operation that is new.
      have hne : id ≠ u.operations.length := by
        rintro rfl
        simp [action?] at htried
      simpa [action?_add, hne] using htried
  | accept ho haction | hand ho haction => exact hu.of_end ho rfl rfl haction (by simp)
  | refuse ho | late w ho => exact hu.of_end ho rfl rfl rfl (by simp)
  | drop ho => exact hu.of_end ho rfl rfl trivial (by simp)
  | park =>
      intro e he id hid
      simpa using hu e he id hid
  | clear =>
      intro e he id hid
      rcases List.mem_append.mp he with he | he
      · simpa using hu e he id hid
      · obtain rfl := List.mem_singleton.mp he
        cases hid

/-! ## The queue follows the specification -/

theorem fifo_rule {capacity : Nat} (hcapacity : u.queue.capacity = capacity)
    (hu : Fifo capacity u.log u.queue.items) (hrule : Rule u v) :
    Fifo capacity v.log v.queue.items := by
  have hheld {action : Action α} (hblocks : u.queue.blocks action = true) :
      action.IsHeldUp capacity u.queue.items := by
    subst hcapacity
    cases action with
    | send item => simpa [blocks, isFull, Action.IsHeldUp] using hblocks
    | receive => simpa [blocks, isEmpty, Action.IsHeldUp] using hblocks
  cases hrule with
  | rest | add => exact hu
  | accept ho haction hroom => exact hu.accept _ _ (by simpa [isFull, hcapacity] using hroom)
  | hand ho haction hitems =>
      rw [hitems] at hu
      exact hu.hand _
  | refuse ho hblocks => exact hu.refuse _ _ (hheld hblocks)
  | park => simpa using hu
  | late w ho hblocks => simpa using hu.late _ _ (hheld hblocks)
  | drop => exact hu.drop _
  | clear => exact hu.clear

theorem capacity_rule (hrule : Rule u v) : v.queue.capacity = u.queue.capacity := by
  cases hrule with
  | park | late => simp
  | _ => rfl

/-- What is known of the history of a queue in use. -/
structure Orderly (capacity : Nat) (u : Usage α) : Prop where
  capacity_eq : u.queue.capacity = capacity
  fifo : Fifo capacity u.log u.queue.items
  accounted : u.Accounted
  suited : u.Suited

theorem Reachable.orderly {capacity : Nat} (hu : Reachable capacity u) : u.Orderly capacity := by
  induction hu with
  | fresh =>
      exact ⟨rfl, .start, fun id => by simp [outcomes, Usage.fresh, isOver, status?], by
        simp [Suited, Usage.fresh]⟩
  | next _ hrule ih =>
      exact ⟨(capacity_rule hrule).trans ih.capacity_eq, fifo_rule ih.capacity_eq ih.fifo hrule,
        accounted_rule ih.accounted hrule, suited_rule ih.suited hrule⟩

/-! ## Time limits -/

/-- Nothing that is called directly is ended by a time limit at once. -/
theorem late_notMem_look (u : Usage α) (id : Nat) (waits : Bool) (action : Action α) :
    ∃ events, (u.look id waits action).log = u.log ++ events ∧
      ∀ id action, .late id action ∉ events := by
  cases action with
  | send item =>
      cases hpush : u.queue.tryPush? item with
      | some pair => exact ⟨[.accepted id item], by simp [look, hpush], by simp⟩
      | none =>
          cases waits with
          | true => exact ⟨[], by simp [look, hpush], by simp⟩
          | false => exact ⟨[.refused id (.send item)], by simp [look, hpush], by simp⟩
  | receive =>
      cases hpop : u.queue.tryPop? with
      | some triple => exact ⟨[.handed id triple.1], by simp [look, hpop], by simp⟩
      | none =>
          cases waits with
          | true => exact ⟨[], by simp [look, hpop], by simp⟩
          | false => exact ⟨[.refused id .receive], by simp [look, hpop], by simp⟩

/-- A time limit ends an operation only in a poll that sees it passed, and at a moment when the
operation has to wait. -/
theorem late_of_step {move : Move α} {id : Nat} {action : Action α}
    (hlog : (u.step move).log = u.log ++ [.late id action]) :
    ∃ w o, move = .poll id w true ∧ u.operations[id]? = some o ∧ o.timed = true ∧
      o.action = action ∧ u.queue.blocks action = true := by
  cases move with
  | call tried waits =>
      obtain ⟨events, hlook, hnot⟩ :=
        (u.add tried true).late_notMem_look u.operations.length waits tried
      rw [step, hlook] at hlog
      exact absurd (List.append_cancel_left hlog ▸ List.mem_singleton_self _) (hnot id action)
  | clear => simp [step] at hlog
  | begin tried timed => simp [step] at hlog
  | drop j =>
      cases ho : u.operations[j]? with
      | none => simp [step, drop, ho] at hlog
      | some o => by_cases hover : o.status = .over <;> simp [step, drop, ho, hover] at hlog
  | poll j w expired =>
      cases ho : u.operations[j]? with
      | none => simp [step, poll, ho] at hlog
      | some o =>
          simp only [step, poll, ho, log_record, log_turn, log_settle,
            List.append_cancel_left_eq] at hlog
          have hprogress : ((o.pending w).poll u.queue expired).1 = .late ∧ j = id ∧
              o.action = action := by
            cases hp : ((o.pending w).poll u.queue expired).1 <;>
              simp [hp, Progress.events] at hlog
            · split at hlog <;> simp at hlog
            · exact ⟨rfl, hlog⟩
          obtain ⟨hlate, rfl, rfl⟩ := hprogress
          obtain ⟨htimed, rfl, hblocks⟩ := Pending.late_of_poll expired hlate
          exact ⟨w, o, rfl, ho, htimed, rfl, hblocks⟩

/-- However operations on a queue overlap, wait and are given up, it is a bounded first-in
first-out list: the items that were accepted are, in this order, those that were handed out or
cleared and those that are left. Each operation comes to at most one end: what was accepted is
accepted once, and who was refused, was late or was dropped has neither put in nor taken out
anything. A time limit ends an operation only in a poll that finds it passed while the operation
has to wait. -/
theorem bounded_fifo (capacity : Nat) (moves : List (Move α)) :
    let u := (fresh capacity).run moves
    Fifo capacity u.log u.queue.items ∧ u.queue.length ≤ capacity ∧
      u.log.flatMap Event.entering = u.log.flatMap Event.leaving ++ u.queue.items ∧
      (∀ id, (u.outcomes id).length = (u.isOver id).toNat) ∧
      (∀ e ∈ u.log, ∀ id, e.operation? = some id →
        ∃ action, u.action? id = some action ∧ e.suits action) ∧
      (∀ id action, .refused id action ∈ u.log ∨ .late id action ∈ u.log ∨ .dropped id ∈ u.log →
        ∀ item, .accepted id item ∉ u.log ∧ .handed id item ∉ u.log) ∧
      ∀ move id action, (u.step move).log = u.log ++ [.late id action] →
        ∃ w o, move = .poll id w true ∧ u.operations[id]? = some o ∧ o.timed = true ∧
          o.action = action ∧ u.queue.blocks action = true := by
  intro u
  have hu : u.Orderly capacity := (reachable_run capacity moves).orderly
  refine ⟨hu.fifo, hu.fifo.length_le, hu.fifo.entering_eq, hu.accounted, hu.suited, ?_,
    fun move id action => late_of_step⟩
  intro id action hvain item
  obtain ⟨e, he, hid, hne⟩ : ∃ e ∈ u.log, e.operation? = some id ∧
      e ≠ .accepted id item ∧ e ≠ .handed id item := by
    rcases hvain with h | h | h <;> exact ⟨_, h, rfl, nofun, nofun⟩
  exact ⟨fun h => hne.1 (hu.accounted.eq_of_mem he hid h rfl),
    fun h => hne.2 (hu.accounted.eq_of_mem he hid h rfl)⟩

end Usage

end Uplink.Queue
