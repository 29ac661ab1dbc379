import Mathlib.Data.List.Perm.Subperm
import Uplink.Proofs.Queue.Wakeups

/-! # Crowds

Tasks with wakers of their own poll their operations when these begin, when they were woken, and
at their time limits. The registration of a queue has eight places in each direction, and whoever
finds no room there wakes all who have one, so that they look again. As long as no more than eight
operations are in progress in a direction, that happens at most once before the next one begins. -/

namespace Uplink.Queue

variable {α : Type}

def Action.isSend : Action α → Bool
  | .send _ => true
  | .receive => false

/-- Whether messages are added, removed or cleared. -/
def Event.isTraffic : Event α → Bool
  | .accepted _ _ | .handed _ _ | .cleared _ => true
  | .refused _ _ | .late _ _ | .dropped _ => false

/-- What may happen next where every task polls with a waker of its own. -/
inductive Act (α : Type)
  /-- A task begins an operation that waits, and polls it. -/
  | arrive (action : Action α) (timed : Bool)
  /-- A task polls its operation once more. -/
  | again (id : Nat)
  /-- The time limit of an operation has passed, and its task polls it. -/
  | expire (id : Nat)
  | drop (id : Nat)
  /-- Somebody pushes or pops without waiting. -/
  | attempt (action : Action α)
  | clear

def Act.isArrival : Act α → Bool
  | .arrive _ _ => true
  | .again _ | .expire _ | .drop _ | .attempt _ | .clear => false

/-! ## Directions -/

section Direction

variable {q : Queue α} {action other : Action α}

theorem waiters_of_isSend (h : other.isSend = action.isSend) :
    q.waiters other = q.waiters action := by
  cases action <;> cases other <;> first | rfl | cases h

theorem blocks_of_isSend (h : other.isSend = action.isSend) :
    q.blocks other = q.blocks action := by
  cases action <;> cases other <;> first | rfl | cases h

theorem waiters_park (action : Action α) (w : Waker) :
    (q.park action w).1.waiters action = ((q.waiters action).register maxQueueWaiters w).1 := by
  cases action <;> rfl

theorem woken_park (action : Action α) (w : Waker) :
    (q.park action w).2 = ((q.waiters action).register maxQueueWaiters w).2 := by
  cases action <;> rfl

/-- Who parks leaves the other direction alone. -/
theorem waiters_park_of_ne (w : Waker) (h : other.isSend ≠ action.isSend) :
    (q.park other w).1.waiters action = q.waiters action := by
  cases action <;> cases other <;> first | rfl | exact absurd rfl h

@[simp] theorem blocks_park (w : Waker) : (q.park other w).1.blocks action = q.blocks action := by
  cases action <;> cases other <;> rfl

theorem sound_waiters (h : q.Watched) (action : Action α) :
    (q.waiters action).Sound maxQueueWaiters := by
  cases action with
  | send => exact h.senders
  | receive => exact h.receivers

end Direction

theorem mem_of_mem_register {limit : Nat} {v w : Waker} {t : Waiters}
    (h : v ∈ (t.register limit w).1.wakers) : v ∈ t.wakers ∨ v = w := by
  obtain ⟨-, heq⟩ | ⟨-, heq⟩ | ⟨-, -, heq⟩ := Waiters.register_cases limit w t <;> rw [heq] at h
  · exact .inl h
  · exact .inr (List.mem_singleton.mp h)
  · exact (List.mem_append.mp h).imp_right List.mem_singleton.mp

namespace Usage

/-! ## Acts and whom they wake -/

def act (u : Usage α) : Act α → Usage α
  | .arrive action timed =>
    (u.add action timed).poll u.operations.length (.task u.operations.length) false
  | .again id => u.poll id (.task id) false
  | .expire id => u.poll id (.task id) true
  | .drop id => u.drop id
  | .attempt action => u.step (.call action false)
  | .clear => u.step .clear

def play (u : Usage α) (acts : List (Act α)) : Usage α :=
  acts.foldl act u

/-- The wakers that are woken when a task polls its operation. -/
def wokenByPoll (u : Usage α) (id : Nat) (expired : Bool) : List Waker :=
  match u.operations[id]? with
  | none => []
  | some o => ((o.pending (.task id)).poll u.queue expired).2.2.2

/-- The wakers that are woken by an act. -/
def woken (u : Usage α) : Act α → List Waker
  | .arrive action timed => (u.add action timed).wokenByPoll u.operations.length false
  | .again id => u.wokenByPoll id false
  | .expire id => u.wokenByPoll id true
  | .drop _ => []
  | .attempt (.send item) => (u.queue.tryPush? item).elim [] (·.2)
  | .attempt .receive => u.queue.tryPop?.elim [] (·.2.2)
  | .clear => u.queue.clear.2

/-- The wakers that are woken by some acts, each as often as it is. -/
def wakes (u : Usage α) : List (Act α) → List Waker
  | [] => []
  | a :: acts => u.woken a ++ (u.act a).wakes acts

/-- Whether an act keeps to the rule of parked tasks, which poll once when they begin and then
once for every wake, be it by the queue or by a timer. -/
def allows (u : Usage α) : Act α → Bool
  | .again id => u.status? id = some .roused
  | .expire id => u.operations[id]?.any (·.timed)
  | .arrive _ _ | .drop _ | .attempt _ | .clear => true

/-- How often messages have been added, removed or cleared. -/
def traffic (u : Usage α) : Nat :=
  u.log.countP Event.isTraffic

/-- Whether tasks keep to the rule while no message moves and nobody arrives. -/
def isLull (u : Usage α) : List (Act α) → Bool
  | [] => true
  | a :: acts =>
    u.allows a && !a.isArrival && (u.act a).traffic = u.traffic && (u.act a).isLull acts

/-- Whether an operation goes in the direction of an action. -/
def joins (u : Usage α) (action : Action α) (id : Nat) : Bool :=
  (u.action? id).any (·.isSend = action.isSend)

/-- Whether an operation is in progress in the direction of an action. -/
def waits (u : Usage α) (action : Action α) (id : Nat) : Bool :=
  !u.isOver id && u.joins action id

/-- The operations in progress in the direction of an action. -/
def crew (u : Usage α) (action : Action α) : List Nat :=
  (List.range u.operations.length).filter (u.waits action)

/-! ## What an act brings about -/

/-- What comes of an act that is no arrival, and whom it wakes. -/
inductive Effect (u : Usage α) : Usage α → List Waker → Prop
  | rest : Effect u u []
  | drop {id o e} (ho : u.Active id o) (he : e.isTraffic = false) :
      Effect u ((u.turn id .over).record [e]) []
  | refuse (action timed) {e} (he : e.isTraffic = false) :
      Effect u (((u.add action timed).turn u.operations.length .over).record [e]) []
  /-- An operation has to wait, and is registered for it. -/
  | look {id o status events} (ho : u.Active id o) (hblocks : u.queue.blocks o.action = true)
      (hstatus : status = .asleep (.task id) ∨ status = .over)
      (hevents : events.countP Event.isTraffic = 0) :
      Effect u
        (((u.settle (u.queue.park o.action (.task id)).1 (u.queue.park o.action (.task id)).2).turn
          id status).record events)
        (u.queue.park o.action (.task id)).2
  /-- Messages move. Nobody registers or falls asleep. -/
  | move {v ws} (htraffic : u.traffic < v.traffic)
      (hwaiters : ∀ action, (v.queue.waiters action).wakers ⊆ (u.queue.waiters action).wakers)
      (hasleep : ∀ id w, v.status? id = some (.asleep w) → u.status? id = some (.asleep w))
      (haction : ∀ id action, u.action? id = some action → v.action? id = some action) :
      Effect u v ws

variable {u v : Usage α} {action : Action α} {id j : Nat} {ws : List Waker}

theorem status?_of_settle {queue : Queue α} {w : Waker}
    (h : (u.settle queue ws).status? id = some (.asleep w)) :
    u.status? id = some (.asleep w) ∧ w ∉ ws := by
  rw [status?_settle] at h
  obtain ⟨status, hstatus, hasleep⟩ := Option.map_eq_some_iff.mp h
  obtain ⟨rfl, hw⟩ := Status.hear_eq_asleep_iff.mp hasleep
  exact ⟨hstatus, hw⟩

theorem status?_of_turn_over {w : Waker}
    (h : (u.turn id .over).status? j = some (.asleep w)) : u.status? j = some (.asleep w) := by
  rw [status?_turn] at h
  split at h
  · obtain ⟨_, _, hover⟩ := Option.map_eq_some_iff.mp h
    cases hover
  · exact h

theorem action?_of_add {other : Action α} (timed : Bool) (h : u.action? id = some other) :
    (u.add action timed).action? id = some other := by
  have hlt : id < u.operations.length := by
    obtain ⟨o, ho, -⟩ := Option.map_eq_some_iff.mp h
    exact (List.getElem?_eq_some_iff.mp ho).1
  rw [action?_add, if_neg (Nat.ne_of_lt hlt), h]

theorem status?_of_add {timed : Bool} {w : Waker}
    (h : (u.add action timed).status? id = some (.asleep w)) :
    u.status? id = some (.asleep w) := by
  rw [status?_add] at h
  split at h
  · cases h
  · exact h

/-- A push or a pop that goes through. -/
theorem effect_serve {queue : Queue α} {e : Event α} (htraffic : e.isTraffic = true)
    (hwaiters : ∀ action, (queue.waiters action).wakers ⊆ (u.queue.waiters action).wakers) :
    Effect u (((u.settle queue ws).turn id .over).record [e]) ws := by
  refine .move ?_ hwaiters ?_ ?_
  · simp [traffic, htraffic]
  · exact fun j w h => (status?_of_settle (status?_of_turn_over h)).1
  · intro j other hother
    simpa using hother

theorem waiters_push_subset (q : Queue α) (items : List α) (action : Action α) :
    (({ q with items, receivers := .empty } : Queue α).waiters action).wakers ⊆
      (q.waiters action).wakers := by
  cases action with
  | send => exact List.Subset.refl _
  | receive => exact List.nil_subset _

theorem waiters_pop_subset (q : Queue α) (items : List α) (action : Action α) :
    (({ q with items, senders := .empty } : Queue α).waiters action).wakers ⊆
      (q.waiters action).wakers := by
  cases action with
  | send => exact List.nil_subset _
  | receive => exact List.Subset.refl _

/-- A poll of an operation that has to wait. -/
theorem poll_of_blocks {o : Operation α} (w : Waker) (expired : Bool) (ho : u.Active id o)
    (hblocks : u.queue.blocks o.action = true) :
    u.poll id w expired =
      ((u.settle (u.queue.park o.action w).1 (u.queue.park o.action w).2).turn id
        (if o.timed && expired then .over else .asleep w)).record
          (if o.timed && expired then [.late id o.action] else []) := by
  have hpoll := Pending.poll_of_blocks (p := o.pending w) expired (decide_eq_false ho.open_) hblocks
  cases hlate : o.timed && expired with
  | true =>
      have hwait : (o.pending w).wait expired = (.late, _) := if_pos hlate
      simp [poll, ho.get, hpoll, hwait, Progress.status, Progress.events]
  | false =>
      have hwait : (o.pending w).wait expired = (.waiting, _) :=
        if_neg (Bool.eq_false_iff.mp hlate)
      simp [poll, ho.get, hpoll, hwait, Progress.status, Progress.events]

theorem wokenByPoll_of_blocks {o : Operation α} (expired : Bool) (ho : u.Active id o)
    (hblocks : u.queue.blocks o.action = true) :
    u.wokenByPoll id expired = (u.queue.park o.action (.task id)).2 := by
  have hpoll := Pending.poll_of_blocks (p := o.pending (.task id)) expired
    (decide_eq_false ho.open_) hblocks
  simp [wokenByPoll, ho.get, hpoll]

theorem effect_poll (u : Usage α) (id : Nat) (expired : Bool) :
    Effect u (u.poll id (.task id) expired) (u.wokenByPoll id expired) := by
  cases hget : u.operations[id]? with
  | none => simpa [poll, wokenByPoll, hget] using Effect.rest
  | some o =>
      by_cases hover : o.status = .over
      · have hdone : (o.pending (.task id)).isDone = true := decide_eq_true hover
        rw [poll_of_over _ expired hget hover]
        simpa [wokenByPoll, hget, Pending.poll_of_isDone expired hdone] using Effect.rest
      · have ho : u.Active id o := ⟨hget, hover⟩
        have hdone : (o.pending (.task id)).isDone = false := decide_eq_false hover
        cases hblocks : u.queue.blocks o.action with
        | true =>
            rw [poll_of_blocks _ expired ho hblocks, wokenByPoll_of_blocks expired ho hblocks]
            refine .look ho hblocks ?_ ?_
            · split
              · exact .inr rfl
              · exact .inl rfl
            · split <;> rfl
        | false =>
            cases haction : o.action with
            | send item =>
                rw [haction] at hblocks
                have hpoll := Pending.poll_of_send (p := o.pending (.task id)) expired hdone
                  haction hblocks
                simp only [poll, wokenByPoll, hget, hpoll, Progress.status, Progress.events,
                  haction]
                exact effect_serve rfl (waiters_push_subset _ _)
            | receive =>
                rw [haction] at hblocks
                obtain ⟨item, items, hitems⟩ :=
                  List.exists_cons_of_ne_nil (List.isEmpty_eq_false_iff.mp hblocks)
                have hpoll := Pending.poll_of_receive (p := o.pending (.task id)) expired hdone
                  haction hitems
                simp only [poll, wokenByPoll, hget, hpoll, Progress.status, Progress.events]
                exact effect_serve rfl (waiters_pop_subset _ _)

/-- What somebody does who does not wait is to be done at once. -/
theorem effect_attempt (u : Usage α) (action : Action α) :
    Effect u (u.act (.attempt action)) (u.woken (.attempt action)) := by
  have hserve {queue : Queue α} {woken : List Waker} {e : Event α} (htraffic : e.isTraffic = true)
      (hwaiters : ∀ action, (queue.waiters action).wakers ⊆ (u.queue.waiters action).wakers) :
      Effect u
        ((((u.add action true).settle queue woken).turn u.operations.length .over).record [e])
        woken := by
    refine .move ?_ hwaiters ?_ ?_
    · simp [traffic, htraffic]
    · exact fun j w h => status?_of_add (status?_of_settle (status?_of_turn_over h)).1
    · intro j other hother
      simpa using action?_of_add true hother
  cases action with
  | send item =>
      cases hpush : u.queue.tryPush? item with
      | none => simpa [act, step, look, woken, hpush] using Effect.refuse (.send item) true rfl
      | some pair =>
          obtain ⟨-, hqueue, -⟩ := tryPush?_eq_some_iff.mp hpush
          have hwaiters := waiters_push_subset u.queue (u.queue.items ++ [item])
          rw [← hqueue] at hwaiters
          simpa [act, step, look, woken, hpush] using
            hserve (e := .accepted u.operations.length item) rfl hwaiters
  | receive =>
      cases hpop : u.queue.tryPop? with
      | none => simpa [act, step, look, woken, hpop] using Effect.refuse .receive true rfl
      | some triple =>
          obtain ⟨items, -, hqueue, -⟩ := tryPop?_eq_some_iff.mp hpop
          have hwaiters := waiters_pop_subset u.queue items
          rw [← hqueue] at hwaiters
          simpa [act, step, look, woken, hpop] using
            hserve (e := .handed u.operations.length triple.1) rfl hwaiters

theorem effect_clear (u : Usage α) : Effect u (u.act .clear) (u.woken .clear) := by
  refine .move ?_ (waiters_pop_subset u.queue []) ?_ ?_
  · simp [act, step, traffic, Event.isTraffic]
  · intro j w h
    rw [act, step, status?_record] at h
    exact (status?_of_settle h).1
  · intro j other hother
    simpa [act, step] using hother

theorem effect_drop (u : Usage α) (id : Nat) : Effect u (u.drop id) [] := by
  cases hget : u.operations[id]? with
  | none => simpa [drop, hget] using Effect.rest
  | some o =>
      by_cases hover : o.status = .over
      · simpa [drop, hget, hover] using Effect.rest
      · simpa [drop, hget, hover] using Effect.drop ⟨hget, hover⟩ rfl

theorem effect_act (u : Usage α) {a : Act α} (ha : a.isArrival = false) :
    Effect u (u.act a) (u.woken a) := by
  cases a with
  | arrive => cases ha
  | again id => exact effect_poll u id false
  | expire id => exact effect_poll u id true
  | drop id => exact effect_drop u id
  | attempt action => exact effect_attempt u action
  | clear => exact effect_clear u

theorem effect_arrive (u : Usage α) (action : Action α) (timed : Bool) :
    Effect (u.add action timed) (u.act (.arrive action timed)) (u.woken (.arrive action timed)) :=
  effect_poll _ _ false

/-! ## Wakers of their own -/

/-- Whoever sleeps has left the waker of its own task. -/
def Owned (u : Usage α) : Prop :=
  ∀ id w, u.status? id = some (.asleep w) → w = .task id

/-- Who is registered in a direction is a task whose operation goes there. -/
def Enrolled (u : Usage α) : Prop :=
  ∀ action, ∀ w ∈ (u.queue.waiters action).wakers, ∃ id, w = .task id ∧ u.joins action id = true

/-- A queue that was used by tasks with wakers of their own. -/
structure Proper (u : Usage α) : Prop where
  reachable : ∃ capacity, Reachable capacity u
  owned : u.Owned
  enrolled : u.Enrolled

theorem joins_of_action (haction : ∀ id action, u.action? id = some action →
    v.action? id = some action) (h : u.joins action j = true) : v.joins action j = true := by
  obtain ⟨other, hother, hsend⟩ := (Option.any_eq_true _ _).mp h
  exact (Option.any_eq_true _ _).mpr ⟨other, haction j other hother, hsend⟩

theorem Active.joins {o : Operation α} (ho : u.Active id o) (action : Action α) :
    u.joins action id = decide (o.action.isSend = action.isSend) := by
  simp [Usage.joins, ho.action?]

theorem Effect.action? (h : Effect u v ws) (id : Nat) (action : Action α)
    (haction : u.action? id = some action) : v.action? id = some action := by
  cases h with
  | rest => exact haction
  | drop | look => simpa using haction
  | refuse => simpa using action?_of_add _ haction
  | move _ _ _ hkept => exact hkept id action haction

theorem Effect.owned (h : Effect u v ws) (hu : u.Owned) : v.Owned := by
  intro j w hasleep
  cases h with
  | rest => exact hu j w hasleep
  | drop => exact hu j w (status?_of_turn_over hasleep)
  | refuse => exact hu j w (status?_of_add (status?_of_turn_over hasleep))
  | look _ _ hstatus =>
      rw [status?_record, status?_turn] at hasleep
      split at hasleep
      · next hj =>
          obtain ⟨_, _, heq⟩ := Option.map_eq_some_iff.mp hasleep
          rcases hstatus with rfl | rfl
          · rw [← hj, ← Status.asleep.inj heq]
          · cases heq
      · exact hu j w (status?_of_settle hasleep).1
  | move _ _ hkept _ => exact hu j w (hkept j w hasleep)

theorem Effect.enrolled (h : Effect u v ws) (hu : u.Enrolled) : v.Enrolled := by
  intro action w hw
  have hbefore (hold : w ∈ (u.queue.waiters action).wakers) :
      ∃ id, w = .task id ∧ v.joins action id = true := by
    obtain ⟨id, hid, hjoins⟩ := hu action w hold
    exact ⟨id, hid, joins_of_action h.action? hjoins⟩
  cases h with
  | rest | drop | refuse => exact hbefore hw
  | @look id o _ _ ho _ _ _ =>
      by_cases hsend : o.action.isSend = action.isSend
      · have hpark : w ∈ ((u.queue.park o.action (.task id)).1.waiters o.action).wakers := by
          rwa [waiters_of_isSend hsend]
        rw [waiters_park] at hpark
        rcases mem_of_mem_register hpark with hold | rfl
        · exact hbefore (waiters_of_isSend hsend ▸ hold)
        · exact ⟨id, rfl, by simp [Usage.joins, ho.action?, hsend]⟩
      · exact hbefore (waiters_park_of_ne _ hsend ▸ hw)
  | move _ hkept _ _ => exact hbefore (hkept action hw)

theorem Proper.add (hu : u.Proper) (action : Action α) (timed : Bool) :
    (u.add action timed).Proper where
  reachable :=
    let ⟨capacity, h⟩ := hu.reachable
    ⟨capacity, h.next (.add action timed)⟩
  owned id w hasleep := hu.owned id w (status?_of_add hasleep)
  enrolled other w hw :=
    let ⟨id, hid, hjoins⟩ := hu.enrolled other w hw
    ⟨id, hid, joins_of_action (fun _ _ => action?_of_add timed) hjoins⟩

theorem reachable_act {capacity : Nat} (hu : Reachable capacity u) (a : Act α) :
    Reachable capacity (u.act a) := by
  cases a with
  | arrive action timed =>
      exact reachable_step (hu.next (.add action timed)) (.poll _ _ false)
  | again id => exact reachable_step hu (.poll id _ false)
  | expire id => exact reachable_step hu (.poll id _ true)
  | drop id => exact reachable_step hu (.drop id)
  | attempt action => exact reachable_step hu (.call action false)
  | clear => exact reachable_step hu .clear

theorem Proper.act (hu : u.Proper) (a : Act α) : (u.act a).Proper := by
  obtain ⟨capacity, hreachable⟩ := hu.reachable
  have hlast := reachable_act hreachable a
  cases harrival : a.isArrival with
  | false =>
      have heffect := effect_act u harrival
      exact ⟨⟨capacity, hlast⟩, heffect.owned hu.owned, heffect.enrolled hu.enrolled⟩
  | true =>
      cases a with
      | arrive action timed =>
          have heffect := effect_arrive u action timed
          have hadded := hu.add action timed
          exact ⟨⟨capacity, hlast⟩, heffect.owned hadded.owned, heffect.enrolled hadded.enrolled⟩
      | _ => cases harrival

theorem proper_play (capacity : Nat) (acts : List (Act α)) :
    ((fresh capacity).play acts).Proper := by
  suffices h : ∀ u : Usage α, u.Proper → (u.play acts).Proper by
    refine h _ ⟨⟨capacity, .fresh⟩, ?_, ?_⟩
    · intro id w hasleep
      simp [status?, fresh] at hasleep
    · intro action w hw
      cases action <;> cases hw
  induction acts with
  | nil => exact fun _ hu => hu
  | cons a acts ih => exact fun u hu => ih _ (hu.act a)

namespace Proper

variable (hu : u.Proper)
include hu

theorem watched : u.queue.Watched :=
  let ⟨_, h⟩ := hu.reachable
  h.watched.1

/-- Who sleeps in a direction has a place in its registration. -/
theorem mem_waiters {w : Waker} (hjoins : u.joins action id = true)
    (hasleep : u.status? id = some (.asleep w)) :
    w = .task id ∧ .task id ∈ (u.queue.waiters action).wakers := by
  obtain ⟨capacity, hreachable⟩ := hu.reachable
  obtain ⟨other, hother, hsend⟩ := (Option.any_eq_true _ _).mp hjoins
  obtain rfl := hu.owned id w hasleep
  have hmem := hreachable.watched.2 id other _ hother hasleep
  exact ⟨rfl, waiters_of_isSend (of_decide_eq_true hsend) ▸ hmem⟩

end Proper

/-! ## Few enough -/

/-- All who are in progress in a direction belong to a crew. -/
def Fits (u : Usage α) (action : Action α) (crew : List Nat) : Prop :=
  ∀ id, u.waits action id = true → id ∈ crew

/-- All who have a place in a direction belong to a crew. -/
def Seated (q : Queue α) (action : Action α) (crew : List Nat) : Prop :=
  (q.waiters action).wakers ⊆ crew.map .task

variable {crew : List Nat}

theorem waits_of_turn_over (h : (u.turn id .over).waits action j = true) :
    u.waits action j = true := by
  simp only [waits, Bool.and_eq_true, Bool.not_eq_true', isOver_turn] at h ⊢
  obtain ⟨hopen, hjoins⟩ := h
  have hjoins : u.joins action j = true := by simpa [joins] using hjoins
  refine ⟨?_, hjoins⟩
  split at hopen
  · next hj =>
      subst hj
      cases hstatus : u.status? id with
      | none => simp [isOver, hstatus]
      | some => simp [hstatus] at hopen
  · exact hopen

/-- While no message moves, nobody joins those who are in progress. -/
theorem Effect.waits (h : Effect u v ws) (hquiet : v.traffic = u.traffic)
    (hj : v.waits action j = true) : u.waits action j = true := by
  cases h with
  | rest => exact hj
  | drop => exact waits_of_turn_over hj
  | refuse other timed =>
      have hold := waits_of_turn_over hj
      simp only [Usage.waits, isOver_add, Usage.joins, action?_add] at hold
      split at hold
      · next hnew =>
          -- The operation itself is over.
          simp only [Usage.waits, isOver_record, isOver_turn, if_pos hnew.symm] at hj
          simp [status?_add] at hj
      · exact hold
  | @look id o _ _ ho _ hstatus _ =>
      simp only [Usage.waits, isOver_record, isOver_turn, isOver_settle, Usage.joins,
        action?_record, action?_turn, action?_settle, Bool.and_eq_true, Bool.not_eq_true'] at hj ⊢
      refine ⟨?_, hj.2⟩
      by_cases hid : id = j
      · exact hid ▸ ho.isOver
      · simpa [hid] using hj.1
  | move hless => exact absurd hquiet (Nat.ne_of_gt hless)

/-- While no message moves, the registration of a direction stays as it is and wakes nobody, or
somebody of the crew registers there. -/
theorem Effect.cases_of_quiet (h : Effect u v ws) (hu : u.Proper) (hquiet : v.traffic = u.traffic)
    (hfits : u.Fits action crew) :
    (v.queue.waiters action = u.queue.waiters action ∧
        ∀ id, u.joins action id = true → .task id ∉ ws) ∨
      ∃ id ∈ crew,
        v.queue.waiters action =
            ((u.queue.waiters action).register maxQueueWaiters (.task id)).1 ∧
          ws = ((u.queue.waiters action).register maxQueueWaiters (.task id)).2 := by
  cases h with
  | rest | drop | refuse => exact .inl ⟨rfl, by simp⟩
  | @look id o _ _ ho _ _ _ =>
      by_cases hsend : o.action.isSend = action.isSend
      · refine .inr ⟨id, hfits id ?_, ?_, ?_⟩
        · simp [Usage.waits, ho.isOver, ho.joins, hsend]
        · rw [← waiters_of_isSend hsend, ← waiters_of_isSend hsend]
          exact waiters_park _ _
        · rw [← waiters_of_isSend hsend]
          exact woken_park _ _
      · refine .inl ⟨waiters_park_of_ne _ hsend, ?_⟩
        -- Only who goes in the other direction can be woken.
        intro j hjoins hwoken
        rw [woken_park] at hwoken
        have hmem : .task j ∈ (u.queue.waiters o.action).wakers := by
          obtain ⟨-, heq⟩ | ⟨-, heq⟩ | ⟨-, -, heq⟩ := Waiters.register_cases maxQueueWaiters
            (.task id) (u.queue.waiters o.action) <;> rw [heq] at hwoken
          · cases hwoken
          · exact hwoken
          · cases hwoken
        obtain ⟨k, hk, hother⟩ := hu.enrolled o.action _ hmem
        obtain rfl := Waker.task.inj hk
        obtain ⟨_, hj, hjsend⟩ := (Option.any_eq_true _ _).mp hjoins
        obtain ⟨_, hk, hksend⟩ := (Option.any_eq_true _ _).mp hother
        obtain rfl := Option.some.inj (hj.symm.trans hk)
        exact hsend ((of_decide_eq_true hksend).symm.trans (of_decide_eq_true hjsend))
  | move hless => exact absurd hquiet (Nat.ne_of_gt hless)

/-- Where all who have a place belong to a crew that fits in, another one of the crew finds
room. -/
theorem register_of_seated {t : Waiters} (ht : t.Sound maxQueueWaiters)
    (hseated : t.wakers ⊆ crew.map .task) (hfew : crew.length ≤ maxQueueWaiters)
    (hid : id ∈ crew) :
    (t.register maxQueueWaiters (.task id)).2 = [] := by
  obtain ⟨-, heq⟩ | ⟨hfull, heq⟩ | ⟨-, -, heq⟩ :=
    Waiters.register_cases maxQueueWaiters (.task id) t
  · rw [heq]
  · by_cases hmem : .task id ∈ t.wakers
    · simp [Waiters.register, hmem]
    · have hall : .task id :: t.wakers ⊆ crew.map .task :=
        List.cons_subset.mpr ⟨List.mem_map_of_mem hid, hseated⟩
      have hlength : (Waker.task id :: t.wakers).length ≤ (crew.map Waker.task).length :=
        (List.subperm_of_subset (List.nodup_cons.mpr ⟨hmem, ht.nodup⟩) hall).length_le
      simp only [List.length_cons, List.length_map] at hlength
      omega
  · rw [heq]

theorem seated_register {t : Waiters} (hseated : t.wakers ⊆ crew.map .task) (hid : id ∈ crew) :
    (t.register maxQueueWaiters (.task id)).1.wakers ⊆ crew.map .task := by
  intro w hw
  rcases mem_of_mem_register hw with hold | rfl
  · exact hseated hold
  · exact List.mem_map_of_mem hid

theorem isLull_cons {a : Act α} {acts : List (Act α)} (h : u.isLull (a :: acts) = true) :
    u.allows a = true ∧ a.isArrival = false ∧ (u.act a).traffic = u.traffic ∧
      (u.act a).isLull acts = true := by
  simpa [isLull, and_assoc] using h

/-- Once all who have a place belong to the crew, nobody loses it. -/
theorem wakes_of_seated (hfew : crew.length ≤ maxQueueWaiters) (hu : u.Proper)
    (hfits : u.Fits action crew) (hseated : Seated u.queue action crew) {acts : List (Act α)}
    (hlull : u.isLull acts = true) (hj : u.joins action j = true) :
    (u.wakes acts).count (.task j) = 0 := by
  induction acts generalizing u with
  | nil => rfl
  | cons a acts ih =>
      obtain ⟨-, harrival, hquiet, hlull⟩ := isLull_cons hlull
      have heffect := effect_act u harrival
      have hnext (hseated : Seated (u.act a).queue action crew) :=
        ih (hu.act a) (fun id hid => hfits id (heffect.waits hquiet hid)) hseated hlull
          (joins_of_action heffect.action? hj)
      rw [wakes, List.count_append]
      rcases heffect.cases_of_quiet hu hquiet hfits with ⟨hsame, hspared⟩ | ⟨id, hid, hnew, hwoken⟩
      · rw [hnext (by rwa [Seated, hsame]), List.count_eq_zero.mpr (hspared j hj)]
      · rw [hnext (by rw [Seated, hnew]; exact seated_register hseated hid), hwoken,
          register_of_seated (sound_waiters hu.watched action) hseated hfew hid]
        rfl

/-- While no message moves, an act wakes nobody of a direction, or each at most once and so that
all who then have a place there belong to the crew. -/
theorem Effect.count_le (h : Effect u v ws) (hu : u.Proper) (hquiet : v.traffic = u.traffic)
    (hfits : u.Fits action crew) (hj : u.joins action j = true) :
    ws.count (.task j) = 0 ∨ ws.count (.task j) ≤ 1 ∧ Seated v.queue action crew := by
  rcases h.cases_of_quiet hu hquiet hfits with ⟨-, hspared⟩ | ⟨id, hid, hnew, hwoken⟩
  · exact .inl (List.count_eq_zero.mpr (hspared j hj))
  · obtain ⟨-, heq⟩ | ⟨-, heq⟩ | ⟨-, -, heq⟩ := Waiters.register_cases maxQueueWaiters
      (.task id) (u.queue.waiters action) <;> rw [heq] at hnew hwoken
    · exact .inl (by rw [hwoken, List.count_nil])
    · refine .inr ⟨?_, ?_⟩
      · rw [hwoken]
        exact List.nodup_iff_count.mp (sound_waiters hu.watched action).nodup _
      · rw [Seated, hnew, List.cons_subset]
        exact ⟨List.mem_map_of_mem hid, List.nil_subset _⟩
    · exact .inl (by rw [hwoken, List.count_nil])

/-- An act and a lull after it. -/
theorem Effect.count_append_le (h : Effect u v ws) (hfew : crew.length ≤ maxQueueWaiters)
    (hu : u.Proper) (hv : v.Proper) (hquiet : v.traffic = u.traffic) (hfits : u.Fits action crew)
    (hj : u.joins action j = true) {acts : List (Act α)} (hlull : v.isLull acts = true)
    (hlater : (v.wakes acts).count (.task j) ≤ 1) :
    (ws ++ v.wakes acts).count (.task j) ≤ 1 := by
  rw [List.count_append]
  rcases h.count_le hu hquiet hfits hj with hnone | ⟨honce, hseated⟩
  · omega
  · have hrest : (v.wakes acts).count (.task j) = 0 :=
      wakes_of_seated hfew hv (fun id hid => hfits id (h.waits hquiet hid)) hseated hlull
        (joins_of_action h.action? hj)
    omega

theorem count_wakes_le (hfew : crew.length ≤ maxQueueWaiters) (hu : u.Proper)
    (hfits : u.Fits action crew) (hj : u.joins action j = true) {acts : List (Act α)}
    (hlull : u.isLull acts = true) : (u.wakes acts).count (.task j) ≤ 1 := by
  induction acts generalizing u with
  | nil => exact Nat.zero_le 1
  | cons a acts ih =>
      obtain ⟨-, harrival, hquiet, hlull⟩ := isLull_cons hlull
      have h := effect_act u harrival
      refine h.count_append_le hfew hu (hu.act a) hquiet hfits hj hlull ?_
      exact ih (hu.act a) (fun id hid => hfits id (h.waits hquiet hid))
        (joins_of_action h.action? hj) hlull

end Usage

end Uplink.Queue
