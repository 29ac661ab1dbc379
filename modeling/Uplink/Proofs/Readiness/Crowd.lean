import Mathlib.Data.List.Dedup
import Mathlib.Data.List.Infix
import Mathlib.Data.List.Perm.Subperm
import Uplink.Proofs.Readiness.Wakeups

/-! # Crowds

Whoever finds no room in the registration wakes all who are there, so tasks that wait for flags can
wake one another with no set at all. They do so as soon as a fifth task has to wait since a set
last woke everybody, and not before. -/

namespace Uplink.Readiness

namespace Event

/-- Those who lose their place in the registration and are woken for it. -/
def displaced : Event → List Waker
  | .registered _ _ woken => woken
  | .answered _ _ | .dropped _ | .woke _ => []

/-- Whether a set wakes everybody. -/
def isWoke : Event → Bool
  | .woke _ => true
  | .registered _ _ _ | .answered _ _ | .dropped _ => false

/-- What an event tells of the registration before and after it. -/
inductive Turns : Event → Waiters → Waiters → Prop
  | registered (id w t) :
      Turns (.registered id w (t.register maxReadinessWaiters w).2) t
        (t.register maxReadinessWaiters w).1
  | woke (t) : Turns (.woke t.wakers) t .empty
  | answered (id seen t) : Turns (.answered id seen) t t
  | dropped (id t) : Turns (.dropped id) t t

variable {e : Event} {t t' : Waiters}

theorem Turns.sound (h : e.Turns t t') (ht : t.Sound maxReadinessWaiters) :
    t'.Sound maxReadinessWaiters := by
  cases h with
  | registered id w => exact ht.register (by decide) w
  | woke => exact Waiters.sound_empty _
  | answered | dropped => exact ht

/-- Who is there after an event was there before it, or has just registered. -/
theorem Turns.mem_or (h : e.Turns t t') {w : Waker} (hw : w ∈ t'.wakers) :
    w ∈ t.wakers ∨ e.waker? = some w := by
  cases h with
  | registered id v =>
      obtain ⟨-, heq⟩ | ⟨-, heq⟩ | ⟨-, -, heq⟩ :=
        Waiters.register_cases maxReadinessWaiters v t <;> rw [heq] at hw
      · exact .inl hw
      · exact .inr (congrArg some (List.mem_singleton.mp hw).symm)
      · exact (List.mem_append.mp hw).imp_right fun hv =>
          congrArg some (List.mem_singleton.mp hv).symm
  | woke => cases hw
  | answered | dropped => exact .inl hw

/-- Where nobody is displaced and no set wakes anybody, all who were there stay, and who registers
joins them. -/
theorem Turns.mem_of (h : e.Turns t t') (halone : e.displaced = []) (hquiet : e.isWoke = false)
    {w : Waker} (hw : w ∈ t.wakers ∨ e.waker? = some w) : w ∈ t'.wakers := by
  cases h with
  | registered id v =>
      rcases hw with hw | hw
      · have hkept : (t.register maxReadinessWaiters v).2 = [] := halone
        exact Waiters.mem_register_of_mem hw (by simp [hkept])
      · obtain rfl : v = w := Option.some.inj hw
        exact Waiters.mem_register _ _ _
  | woke => cases hquiet
  | answered | dropped => exact hw.resolve_right nofun

/-- Who displaces others is new, and finds the registration full. -/
theorem Turns.of_displaced (h : e.Turns t t') (hdisplaced : e.displaced ≠ []) :
    maxReadinessWaiters ≤ t.wakers.length ∧ e.isWoke = false ∧
      ∃ w, e.waker? = some w ∧ w ∉ t.wakers := by
  cases h with
  | registered id w =>
      have hwoken : (t.register maxReadinessWaiters w).2 ≠ [] := hdisplaced
      obtain ⟨-, heq⟩ | ⟨hfull, -⟩ | ⟨-, -, heq⟩ :=
        Waiters.register_cases maxReadinessWaiters w t
      · exact absurd (by rw [heq]) hwoken
      · refine ⟨hfull, rfl, w, rfl, fun hmem => hwoken ?_⟩
        simp [Waiters.register, hmem]
      · exact absurd (by rw [heq]) hwoken
  | woke | answered | dropped => exact absurd rfl hdisplaced

end Event

/-- Those who are registered in a stretch of events, each named once. -/
def crowd (stretch : List Event) : List Waker :=
  (stretch.filterMap Event.waker?).dedup

theorem mem_crowd {stretch : List Event} {w : Waker} :
    w ∈ crowd stretch ↔ ∃ e ∈ stretch, e.waker? = some w := by
  rw [crowd, List.mem_dedup, List.mem_filterMap]

theorem mem_crowd_concat {stretch : List Event} {e : Event} {w : Waker} :
    w ∈ crowd (stretch ++ [e]) ↔ w ∈ crowd stretch ∨ e.waker? = some w := by
  simp [mem_crowd, or_and_right, exists_or]

/-! ## What the events tell of the registration -/

/-- After these events the registration is as given. -/
inductive Records : List Event → Waiters → Prop
  | none : Records [] .empty
  | next {log t e t'} (h : Records log t) (hturn : e.Turns t t') : Records (log ++ [e]) t'

namespace Records

variable {log stretch : List Event} {t : Waiters}

theorem sound (h : Records log t) : t.Sound maxReadinessWaiters := by
  induction h with
  | none => exact Waiters.sound_empty _
  | next _ hturn ih => exact hturn.sound ih

theorem exists_of_prefix (h : Records log t) {front : List Event} (hfront : front <+: log) :
    ∃ t, Records front t := by
  induction h with
  | none => exact ⟨_, List.prefix_nil.mp hfront ▸ none⟩
  | next h hturn ih =>
      rcases List.prefix_concat_iff.mp hfront with rfl | hbefore
      · exact ⟨_, h.next hturn⟩
      · exact ih hbefore

/-- As long as nobody is displaced, all who registered since the last wake are there. -/
theorem crowd_subset (h : Records log t) (halone : ∀ e ∈ log, e.displaced = [])
    (hsuffix : stretch <:+ log) (hquiet : ∀ e ∈ stretch, e.isWoke = false) :
    crowd stretch ⊆ t.wakers := by
  induction h generalizing stretch with
  | none =>
      rw [List.suffix_nil.mp hsuffix]
      nofun
  | @next log t e t' _ hturn ih =>
      obtain rfl | ⟨before, rfl, hbefore⟩ := List.suffix_concat_iff.mp hsuffix
      · nofun
      · obtain ⟨hlog, he⟩ := List.forall_mem_append.mp halone
        obtain ⟨hstretch, hnow⟩ := List.forall_mem_append.mp hquiet
        intro w hw
        refine hturn.mem_of (he e List.mem_cons_self) (hnow e List.mem_cons_self) ?_
        exact (mem_crowd_concat.mp hw).imp_left fun hw => ih hlog hbefore hstretch hw

/-- All who are there have registered since the last wake. -/
theorem exists_suffix (h : Records log t) :
    ∃ stretch, stretch <:+ log ∧ (∀ e ∈ stretch, e.isWoke = false) ∧
      t.wakers ⊆ crowd stretch := by
  induction h with
  | none => exact ⟨[], List.nil_suffix, nofun, nofun⟩
  | @next log t e t' _ hturn ih =>
      obtain ⟨stretch, hsuffix, hquiet, hsubset⟩ := ih
      cases hwoke : e.isWoke with
      | true =>
          cases hturn with
          | woke => exact ⟨[], List.nil_suffix, nofun, nofun⟩
          | registered | answered | dropped => cases hwoke
      | false =>
          refine ⟨stretch ++ [e], List.suffix_concat_iff.mpr (.inr ⟨stretch, rfl, hsuffix⟩),
            List.forall_mem_append.mpr ⟨hquiet, by simpa using hwoke⟩, fun w hw => ?_⟩
          exact mem_crowd_concat.mpr ((hturn.mem_or hw).imp_left fun hw => hsubset hw)

/-- As long as nobody is displaced, no stretch without a wake is crowded. -/
theorem length_crowd_le (h : Records log t) (halone : ∀ e ∈ log, e.displaced = [])
    (hwithin : stretch <:+: log) (hquiet : ∀ e ∈ stretch, e.isWoke = false) :
    (crowd stretch).length ≤ maxReadinessWaiters := by
  obtain ⟨front, hsuffix, hbegins⟩ := List.infix_iff_suffix_prefix.mp hwithin
  obtain ⟨t, hfront⟩ := h.exists_of_prefix hbegins
  have hsubset : crowd stretch ⊆ t.wakers :=
    hfront.crowd_subset (fun e he => halone e (hbegins.subset he)) hsuffix hquiet
  calc (crowd stretch).length ≤ t.wakers.length :=
        (List.subperm_of_subset (List.nodup_dedup _) hsubset).length_le
    _ ≤ maxReadinessWaiters := hfront.sound.length_le

/-- Whoever displaces others is one too many since the last wake. -/
theorem crowded_of_displaced (h : Records log t) {e : Event} {t' : Waiters}
    (hturn : e.Turns t t') (hdisplaced : e.displaced ≠ []) :
    ∃ stretch, stretch <:+: log ++ [e] ∧ (∀ e ∈ stretch, e.isWoke = false) ∧
      maxReadinessWaiters < (crowd stretch).length := by
  obtain ⟨hfull, hquiet, w, hw, habsent⟩ := hturn.of_displaced hdisplaced
  obtain ⟨stretch, hsuffix, hbefore, hsubset⟩ := h.exists_suffix
  refine ⟨stretch ++ [e], ?_, List.forall_mem_append.mpr ⟨hbefore, by simpa using hquiet⟩, ?_⟩
  · exact List.infix_concat_iff.mpr (.inl (List.suffix_concat_iff.mpr
      (.inr ⟨stretch, rfl, hsuffix⟩)))
  · have hnodup : (w :: t.wakers).Nodup := List.nodup_cons.mpr ⟨habsent, h.sound.nodup⟩
    have hall : w :: t.wakers ⊆ crowd (stretch ++ [e]) := by
      intro v hv
      rw [mem_crowd_concat]
      rcases List.mem_cons.mp hv with rfl | hv
      · exact .inr hw
      · exact .inl (hsubset hv)
    calc maxReadinessWaiters < (w :: t.wakers).length := Nat.lt_succ_of_le hfull
      _ ≤ (crowd (stretch ++ [e])).length := (List.subperm_of_subset hnodup hall).length_le

/-- Nobody is displaced exactly as long as no stretch without a wake is crowded. -/
theorem displaced_eq_nil_iff (h : Records log t) :
    (∀ e ∈ log, e.displaced = []) ↔
      ∀ stretch, stretch <:+: log → (∀ e ∈ stretch, e.isWoke = false) →
        (crowd stretch).length ≤ maxReadinessWaiters := by
  refine ⟨fun halone stretch hwithin hquiet => h.length_crowd_le halone hwithin hquiet, ?_⟩
  intro hcrowd
  induction h with
  | none => nofun
  | next h hturn ih =>
      refine List.forall_mem_append.mpr ⟨ih fun stretch hwithin =>
        hcrowd stretch (List.infix_concat_iff.mpr (.inr hwithin)), fun e he => ?_⟩
      obtain rfl := List.mem_singleton.mp he
      by_contra hdisplaced
      obtain ⟨stretch, hwithin, hquiet, hlength⟩ := h.crowded_of_displaced hturn hdisplaced
      exact Nat.not_le_of_lt hlength (hcrowd stretch hwithin hquiet)

end Records

/-! ## Schedules -/

/-- The waker of a wait that sleeps. -/
def Wait.sleeper? (o : Wait) : Option Waker :=
  match o.status with
  | .asleep w => some w
  | .roused | .over => none

theorem Wait.sleeper?_eq_some_iff {o : Wait} {w : Waker} :
    o.sleeper? = some w ↔ o.status = .asleep w := by
  cases hstatus : o.status <;> simp [sleeper?, hstatus]

/-- Whether a wait is polled before its time limit. -/
def Move.isLookOf (id : Nat) : Move → Bool
  | .poll other _ expired => other = id && !expired
  | .raise _ | .wake | .clear _ | .begin _ | .drop _ => false

namespace Usage

/-- The wakers of all who sleep. -/
def sleepers (u : Usage) : List Waker :=
  u.waits.filterMap Wait.sleeper?

/-- Whether a move keeps to the rule of parked tasks: each polls with a waker of its own, when it
was not polled yet, was woken since, or has reached its time limit. -/
def allows (u : Usage) : Move → Bool
  | .poll id w expired =>
    w = .task id && (expired || u.waits[id]?.any (·.status = .roused))
  | .raise _ | .wake | .clear _ | .begin _ | .drop _ => true

/-- Whether all moves keep to that rule. -/
def scheduled (u : Usage) : List Move → Bool
  | [] => true
  | move :: moves => u.allows move && (u.step move).scheduled moves

theorem scheduled_concat (u : Usage) (moves : List Move) (move : Move) :
    u.scheduled (moves ++ [move]) = (u.scheduled moves && (u.run moves).allows move) := by
  induction moves generalizing u with
  | nil => simp [scheduled, run]
  | cons first moves ih =>
      rw [List.cons_append, scheduled, ih, scheduled, Bool.and_assoc]
      rfl

variable {u v : Usage} {id j : Nat} {o : Wait}

/-- The events of a usage are a record of its registration. -/
theorem records_rule (h : Records u.log u.readiness.waiters) (hrule : Rule u v) :
    Records v.log v.readiness.waiters := by
  cases hrule with
  | rest | raise | clear | begin => exact h
  | wake => exact h.next (.woke _)
  | see => exact h.next (.answered _ _ _)
  | park w => exact h.next (.registered _ w _)
  | @late id o w =>
      have hnext := (h.next (.registered id w _)).next (.answered id false _)
      rwa [List.append_assoc] at hnext
  | drop => exact h.next (.dropped _ _)

theorem records_run (moves : List Move) :
    Records (fresh.run moves).log (fresh.run moves).readiness.waiters :=
  rule_induction (P := fun u => Records u.log u.readiness.waiters) .none
    (fun _ _ h hrule => records_rule h hrule) moves

/-! ## Sleepers -/

/-- A wait of a usage after a step and before it. -/
theorem getElem?_settle {readiness : Readiness} {woken : List Waker} :
    (u.settle readiness woken).waits[j]? = u.waits[j]?.map (·.hear woken) := by
  simp [settle]

/-- Whoever sleeps has left the waker of its own task. -/
def Owned (u : Usage) : Prop :=
  ∀ (id : Nat) (o : Wait) (w : Waker), u.waits[id]? = some o → o.status = .asleep w → w = .task id

theorem Owned.settle (hu : u.Owned) (readiness : Readiness) (woken : List Waker) :
    (u.settle readiness woken).Owned := by
  intro id o w ho hasleep
  rw [getElem?_settle, Option.map_eq_some_iff] at ho
  obtain ⟨before, hbefore, rfl⟩ := ho
  exact hu id before w hbefore (Queue.Status.hear_eq_asleep_iff.mp hasleep).1

/-- A wait comes to sleep with its own waker, or does not come to sleep. -/
theorem Owned.turn (hu : u.Owned) {status : Queue.Status}
    (hstatus : ∀ w, status = .asleep w → w = .task id) (events : List Event) :
    ((u.turn id o status).record events).Owned := by
  intro j p w hp hasleep
  rw [record, Usage.turn, List.getElem?_set] at hp
  split at hp
  · next hj =>
      split at hp
      · cases hp
        exact hj ▸ hstatus w hasleep
      · cases hp
  · exact hu j p w hp hasleep

theorem Owned.finish (hu : u.Owned) (events : List Event) :
    ((u.turn id o .over).record events).Owned := by
  refine hu.turn (fun w hover => ?_) events
  cases hover

theorem owned_poll (hu : u.Owned) (expired : Bool) :
    (u.poll id (.task id) expired).Owned := by
  rcases u.active_or_poll_eq id with ⟨o, ho⟩ | hrest
  · cases hseen : u.readiness.contains o.mask with
    | true =>
        rw [poll_of_seen _ expired ho hseen]
        exact hu.finish _
    | false =>
        rw [poll_of_blocked _ expired ho hseen]
        cases expired with
        | true => exact (hu.settle _ _).finish _
        | false => exact (hu.settle _ _).turn (fun _ hown => (Queue.Status.asleep.inj hown).symm) _
  · rwa [hrest]

theorem owned_step (hu : u.Owned) {move : Move} (hallowed : u.allows move = true) :
    (u.step move).Owned := by
  cases move with
  | raise | clear => exact hu
  | wake =>
      simp only [step, wake]
      split
      · exact hu
      · exact fun id o w => hu.settle u.readiness.wakeWaiters.1 u.readiness.wakeWaiters.2 id o w
  | begin mask =>
      intro id o w ho hasleep
      rw [step, List.getElem?_append] at ho
      split at ho
      · exact hu id o w ho hasleep
      · obtain rfl := List.mem_singleton.mp (List.mem_of_getElem? ho)
        cases hasleep
  | poll id w expired =>
      obtain rfl : w = .task id := of_decide_eq_true (Bool.and_eq_true_iff.mp hallowed).1
      exact owned_poll hu expired
  | drop id =>
      simp only [step, drop]
      split
      · exact hu
      · split
        · exact hu
        · exact hu.finish _

theorem owned_run {moves : List Move} (hscheduled : fresh.scheduled moves = true) :
    (fresh.run moves).Owned := by
  induction moves using List.reverseRecOn with
  | nil => nofun
  | append_singleton moves move ih =>
      rw [scheduled_concat, Bool.and_eq_true_iff] at hscheduled
      rw [run, List.foldl_append]
      exact owned_step (ih hscheduled.1) hscheduled.2

theorem Owned.nodup_sleepers (hu : u.Owned) : u.sleepers.Nodup := by
  rw [sleepers, List.Nodup, List.pairwise_filterMap, List.pairwise_iff_getElem]
  intro i j hi hj hij v hv w hw heq
  have hfirst : v = .task i :=
    hu i _ v (List.getElem?_eq_getElem hi) (Wait.sleeper?_eq_some_iff.mp hv)
  have hsecond : w = .task j :=
    hu j _ w (List.getElem?_eq_getElem hj) (Wait.sleeper?_eq_some_iff.mp hw)
  have htask : Waker.task i = .task j := by rw [← hfirst, ← hsecond, heq]
  exact Nat.ne_of_lt hij (Waker.task.inj htask)

/-- No more sleep than there is room for in the registration. -/
theorem Owned.length_sleepers_le (hu : u.Owned) (hheeded : u.Heeded)
    (hrecords : Records u.log u.readiness.waiters) :
    u.sleepers.length ≤ maxReadinessWaiters := by
  have hsubset : u.sleepers ⊆ u.readiness.waiters.wakers := by
    intro w hw
    obtain ⟨o, ho, hsleeper⟩ := List.mem_filterMap.mp hw
    refine hheeded.registered o.mask w ?_
    rw [Sleeps, ← Wait.sleeper?_eq_some_iff.mp hsleeper]
    exact ho
  calc u.sleepers.length ≤ u.readiness.waiters.wakers.length :=
        (List.subperm_of_subset hu.nodup_sleepers hsubset).length_le
    _ ≤ maxReadinessWaiters := hrecords.sound.length_le

/-! ## Polls -/

/-- No task has been polled more often than once, and once more for every wake by a set. -/
structure Paced (u : Usage) (moves : List Move) : Prop where
  absent : ∀ id, u.waits.length ≤ id → moves.countP (Move.isLookOf id) = 0
  roused : ∀ (id : Nat) (o : Wait), u.waits[id]? = some o → o.status = .roused →
    moves.countP (Move.isLookOf id) ≤ u.log.countP Event.isWoke
  bounded : ∀ id, moves.countP (Move.isLookOf id) ≤ 1 + u.log.countP Event.isWoke

variable {moves : List Move} {move : Move}

theorem looks_concat (moves : List Move) (move : Move) (id : Nat) :
    (moves ++ [move]).countP (Move.isLookOf id) =
      moves.countP (Move.isLookOf id) + if move.isLookOf id then 1 else 0 := by
  rw [List.countP_append, List.countP_singleton]

theorem looks_of_other (hmove : move.isLookOf id = false) :
    (moves ++ [move]).countP (Move.isLookOf id) = moves.countP (Move.isLookOf id) := by
  simp [hmove]

/-- A move that is no poll, and rouses nobody. -/
theorem Paced.of_same (hu : u.Paced moves) (hwaits : v.waits = u.waits)
    (hwoke : v.log.countP Event.isWoke = u.log.countP Event.isWoke)
    (hmove : ∀ id, move.isLookOf id = false) : v.Paced (moves ++ [move]) := by
  have hcount (id : Nat) : (moves ++ [move]).countP (Move.isLookOf id) =
      moves.countP (Move.isLookOf id) := looks_of_other (hmove id)
  constructor
  · simpa only [hcount, hwaits] using hu.absent
  · simpa only [hcount, hwaits, hwoke] using hu.roused
  · simpa only [hcount, hwoke] using hu.bounded

/-- A wait comes to stand in another way. If it was polled it had been roused. -/
theorem Paced.of_turn (hu : u.Paced moves) (ho : u.waits[id]? = some o) {status : Queue.Status}
    (hstatus : status ≠ .roused) (hwaits : v.waits = (u.turn id o status).waits)
    (hwoke : v.log.countP Event.isWoke = u.log.countP Event.isWoke)
    (hmove : ∀ j, move.isLookOf j = true → j = id ∧ o.status = .roused) :
    v.Paced (moves ++ [move]) := by
  obtain ⟨hlt, -⟩ := List.getElem?_eq_some_iff.mp ho
  have hother {j : Nat} (hj : j ≠ id) : move.isLookOf j = false :=
    Bool.eq_false_iff.mpr fun hlook => hj (hmove j hlook).1
  constructor
  · intro j hj
    have hlength : u.waits.length ≤ j := by simpa [hwaits, Usage.turn] using hj
    rw [looks_of_other (hother (by omega))]
    exact hu.absent j hlength
  · intro j p hp hroused
    rw [hwaits, Usage.turn, List.getElem?_set] at hp
    split at hp
    · cases hp
      exact absurd hroused hstatus
    · next hj =>
        rw [looks_of_other (hother (Ne.symm hj)), hwoke]
        exact hu.roused j p hp hroused
  · intro j
    rw [looks_concat, hwoke]
    split
    · next hlook =>
        obtain ⟨rfl, hroused⟩ := hmove j hlook
        have := hu.roused j o ho hroused
        omega
    · exact hu.bounded j

/-- A poll that displaces nobody leaves all other waits as they are. -/
theorem poll_alone {w : Waker} {expired : Bool} (ho : u.Active id o)
    (halone : ∀ e ∈ (u.poll id w expired).log, e.displaced = []) :
    ∃ status, status ≠ .roused ∧ (u.poll id w expired).waits = (u.turn id o status).waits ∧
      (u.poll id w expired).log.countP Event.isWoke = u.log.countP Event.isWoke := by
  cases hseen : u.readiness.contains o.mask with
  | true =>
      rw [poll_of_seen w expired ho hseen]
      exact ⟨.over, by simp, rfl, by simp [record, Usage.turn, Event.isWoke]⟩
  | false =>
      rw [poll_of_blocked w expired ho hseen] at halone ⊢
      have hkept : u.displaced w = [] := by
        refine halone (.registered id w (u.displaced w)) ?_
        cases expired <;> simp [record]
      rw [hkept, settle_nil]
      cases expired with
      | true => exact ⟨.over, by simp, rfl, by simp [record, Usage.turn, Event.isWoke]⟩
      | false => exact ⟨.asleep w, by simp, rfl, by simp [record, Usage.turn, Event.isWoke]⟩

/-- A wake by a set allows everybody one more poll. -/
theorem paced_wake (hu : u.Paced moves) : u.wake.Paced (moves ++ [.wake]) := by
  cases hsets : u.sets with
  | zero =>
      have hwake : u.wake = u := by simp [wake, hsets]
      rw [hwake]
      exact hu.of_same rfl rfl fun _ => rfl
  | succ sets =>
      have hwoke : u.wake.log.countP Event.isWoke = u.log.countP Event.isWoke + 1 := by
        simp [wake, hsets, record, settle, Event.isWoke]
      have hlook (id : Nat) : (moves ++ [Move.wake]).countP (Move.isLookOf id) =
          moves.countP (Move.isLookOf id) := looks_of_other rfl
      constructor
      · intro id hid
        rw [hlook]
        exact hu.absent id (by simpa [wake, hsets, record, settle] using hid)
      · intro id o _ _
        have := hu.bounded id
        rw [hlook, hwoke]
        omega
      · intro id
        have := hu.bounded id
        rw [hlook, hwoke]
        omega

theorem paced_begin (hu : u.Paced moves) (mask : UInt8) :
    (u.step (.begin mask)).Paced (moves ++ [.begin mask]) := by
  have hlook (id : Nat) : (moves ++ [Move.begin mask]).countP (Move.isLookOf id) =
      moves.countP (Move.isLookOf id) := looks_of_other rfl
  constructor
  · intro id hid
    rw [hlook]
    refine hu.absent id ?_
    simp only [step, List.length_append] at hid
    omega
  · intro id o ho hroused
    rw [hlook]
    rw [step, List.getElem?_append] at ho
    split at ho
    · exact hu.roused id o ho hroused
    · next hnew =>
        rw [hu.absent id (Nat.le_of_not_lt hnew)]
        exact Nat.zero_le _
  · intro id
    rw [hlook]
    exact hu.bounded id

theorem paced_drop (hu : u.Paced moves) (id : Nat) :
    (u.drop id).Paced (moves ++ [.drop id]) := by
  cases ho : u.waits[id]? with
  | none =>
      have hdrop : u.drop id = u := by simp [drop, ho]
      rw [hdrop]
      exact hu.of_same rfl rfl fun _ => rfl
  | some o =>
      by_cases hover : o.status = .over
      · have hdrop : u.drop id = u := by simp [drop, ho, hover]
        rw [hdrop]
        exact hu.of_same rfl rfl fun _ => rfl
      · have hended : Queue.Status.over ≠ .roused := by decide
        refine hu.of_turn ho hended ?_ ?_ fun j hlook => by cases hlook
        · simp [drop, ho, hover, record, Usage.turn]
        · simp [drop, ho, hover, record, Usage.turn, Event.isWoke]

/-- A task that keeps to the rule looks only where it has been roused. -/
theorem roused_of_allows {w : Waker} {expired : Bool}
    (hallowed : u.allows (.poll id w expired) = true)
    (hlook : (Move.poll id w expired).isLookOf j = true) :
    j = id ∧ ∃ o, u.waits[id]? = some o ∧ o.status = .roused := by
  simp only [Move.isLookOf, Bool.and_eq_true, decide_eq_true_eq, Bool.not_eq_true'] at hlook
  obtain ⟨rfl, rfl⟩ := hlook
  cases ho : u.waits[id]? with
  | none => simp [allows, ho] at hallowed
  | some o =>
      simp only [allows, ho, Bool.false_or, Option.any_some, Bool.and_eq_true,
        decide_eq_true_eq] at hallowed
      exact ⟨rfl, o, rfl, hallowed.2⟩

/-- A poll by the rule of parked tasks uses up what rousing allows. -/
theorem paced_poll (hu : u.Paced moves) {w : Waker} {expired : Bool}
    (hallowed : u.allows (.poll id w expired) = true)
    (halone : ∀ e ∈ (u.poll id w expired).log, e.displaced = []) :
    (u.poll id w expired).Paced (moves ++ [.poll id w expired]) := by
  cases ho : u.waits[id]? with
  | none =>
      have hrest : u.poll id w expired = u := by simp [poll, ho]
      rw [hrest]
      refine hu.of_same rfl rfl fun j => Bool.eq_false_iff.mpr fun hlook => ?_
      obtain ⟨-, p, hp, -⟩ := roused_of_allows hallowed hlook
      rw [ho] at hp
      cases hp
  | some o =>
      have hroused {j : Nat} (hlook : (Move.poll id w expired).isLookOf j = true) :
          j = id ∧ o.status = .roused := by
        obtain ⟨hj, p, hp, hroused⟩ := roused_of_allows hallowed hlook
        rw [ho] at hp
        cases hp
        exact ⟨hj, hroused⟩
      by_cases hover : o.status = .over
      · have hrest : u.poll id w expired = u := by simp [poll, ho, hover]
        rw [hrest]
        refine hu.of_same rfl rfl fun j => Bool.eq_false_iff.mpr fun hlook => ?_
        rw [hover] at hroused
        cases (hroused hlook).2
      · obtain ⟨status, hstatus, hwaits, hwoke⟩ := poll_alone ⟨ho, hover⟩ halone
        exact hu.of_turn ho hstatus hwaits hwoke fun j => hroused

theorem paced_step (hu : u.Paced moves) (hallowed : u.allows move = true)
    (halone : ∀ e ∈ (u.step move).log, e.displaced = []) :
    (u.step move).Paced (moves ++ [move]) := by
  cases move with
  | raise | clear => exact hu.of_same rfl rfl fun _ => rfl
  | wake => exact paced_wake hu
  | begin mask => exact paced_begin hu mask
  | drop id => exact paced_drop hu id
  | poll id w expired => exact paced_poll hu hallowed halone

theorem log_prefix_of_rule (hrule : Rule u v) : u.log <+: v.log := by
  cases hrule with
  | rest | raise | clear | begin => exact List.prefix_rfl
  | wake | see | park | late | drop => exact List.prefix_append _ _

theorem paced_run {moves : List Move} (hscheduled : fresh.scheduled moves = true)
    (halone : ∀ e ∈ (fresh.run moves).log, e.displaced = []) :
    (fresh.run moves).Paced moves := by
  induction moves using List.reverseRecOn with
  | nil =>
      exact ⟨fun _ _ => rfl, fun _ _ ho => absurd ho nofun, fun _ => Nat.zero_le _⟩
  | append_singleton moves move ih =>
      rw [scheduled_concat, Bool.and_eq_true_iff] at hscheduled
      rw [run, List.foldl_append] at halone ⊢
      have hfront : (fresh.run moves).log <+: ((fresh.run moves).step move).log :=
        log_prefix_of_rule (step_rule _ _)
      have hbefore : (fresh.run moves).Paced moves :=
        ih hscheduled.1 fun e he => halone e (hfront.subset he)
      exact paced_step hbefore hscheduled.2 halone

/-- Tasks that wait for flags and keep to the rule of parked tasks wake one another exactly when
more than four different ones have been registered with no wake by a set in between. As long as
that has not come about, all wakes are by sets: no task looks again but for a set. No more than
four tasks sleep at any moment. This is about the wakes that go through the registration of the
flags; those by a full table of timers, the other cause of a look without a set, are not
counted. -/
theorem undisturbed_iff {moves : List Move} (hscheduled : fresh.scheduled moves = true) :
    let u := fresh.run moves
    ((∀ e ∈ u.log, e.displaced = []) ↔
      ∀ stretch, stretch <:+: u.log → (∀ e ∈ stretch, e.isWoke = false) →
        (crowd stretch).length ≤ maxReadinessWaiters) ∧
    ((∀ e ∈ u.log, e.displaced = []) →
      ∀ id, moves.countP (Move.isLookOf id) ≤ 1 + u.log.countP Event.isWoke) ∧
    u.sleepers.length ≤ maxReadinessWaiters := by
  refine ⟨(records_run moves).displaced_eq_nil_iff, ?_, ?_⟩
  · exact fun halone => (paced_run hscheduled halone).bounded
  · exact (owned_run hscheduled).length_sleepers_le (heeded_run moves) (records_run moves)

/-- Four tasks wait for an address. A set of another flag wakes them, and they find no more than
before. They are polled again for no other reason. -/
theorem undisturbed_by_unrelated_set :
    let mask := connectedToAccessPoint
    let polls := (List.range 4).map fun id => Move.poll id (.task id) false
    let moves := List.replicate 4 (.begin mask) ++ polls ++ [.raise stationMode, .wake] ++ polls
    let u := fresh.run moves
    fresh.scheduled moves = true ∧ u.sleepers = (List.range 4).map .task ∧
      (∀ e ∈ u.log, e.displaced = []) ∧ u.log.countP Event.isWoke = 1 ∧
      (∀ id, moves.countP (Move.isLookOf id) ≤ 2) ∧
      u.sleepers.length ≤ maxReadinessWaiters := by
  have hscheduled : fresh.scheduled
      (List.replicate 4 (.begin connectedToAccessPoint) ++
        (List.range 4).map (fun id => .poll id (.task id) false) ++
        [.raise stationMode, .wake] ++
        (List.range 4).map fun id => .poll id (.task id) false) = true := by decide
  obtain ⟨-, hbounded, hsleepers⟩ := undisturbed_iff hscheduled
  exact ⟨hscheduled, by decide, by decide, by decide, hbounded (by decide), hsleepers⟩

/-- Five tasks wait for an address, and no flag is ever set. The fifth finds no room and wakes the
others, so the first is polled again. It finds the fifth alone, so there is room; the same goes for
the others, and the last of them wakes four tasks once more. -/
theorem disturbed_by_fifth_task :
    let mask := connectedToAccessPoint
    let polls := (List.range 5).map fun id => Move.poll id (.task id) false
    let again := (List.range 4).map fun id => Move.poll id (.task id) false
    let moves := List.replicate 5 (.begin mask) ++ polls ++ again
    let u := fresh.run moves
    fresh.scheduled moves = true ∧ (∀ mask, .raise mask ∉ moves) ∧ .wake ∉ moves ∧
      .registered 4 (.task 4) ((List.range 4).map .task) ∈ u.log ∧
      2 ≤ moves.countP (Move.isLookOf 0) := by
  refine ⟨by decide, ?_, by decide, by decide, by decide⟩
  intro mask hraise
  simp [List.range_succ] at hraise

end Usage

end Uplink.Readiness
