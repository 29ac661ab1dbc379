import Uplink.Proofs.Transport.Exclusion

/-! # One place for a run

A run is in progress, or left behind, or in the custody of a thread that waits for its exit. However
many threads start and stop at once, it is in one of these places at most: whoever takes a run takes
it away from where it was. -/

namespace Uplink

namespace Transport

/-- How often a run is on the books. -/
def places (t : Transport) (id : Nat) : Nat :=
  (if t.running = some id then 1 else 0) + if t.detached = some id then 1 else 0

end Transport

namespace World

open Transport (Procedure)

variable {σ : Type} {w w' : World σ}

/-- In how many places a run is. -/
def keepers (w : World σ) (id : Nat) : Nat :=
  w.transport.places id + w.threads.countP (·.holds? = some id)

/-- The world is in good order, and no run is in two places. -/
structure Unshared (w : World σ) : Prop where
  sound : w.Sound
  courses : ∀ id c, w.course? id = some c → c.Reachable
  keepers_le : ∀ id, w.keepers id ≤ 1

theorem keepers_pos_iff {id : Nat} : 0 < w.keepers id ↔ w.Keeps id := by
  constructor
  · intro hpos
    by_cases hrunning : w.transport.running = some id
    · exact .running hrunning
    by_cases hdetached : w.transport.detached = some id
    · exact .detached hdetached
    have hcount : 0 < w.threads.countP (·.holds? = some id) := by
      simpa [keepers, Transport.places, hrunning, hdetached] using hpos
    obtain ⟨activity, hmem, hholds⟩ := List.countP_pos_iff.mp hcount
    obtain ⟨i, hi⟩ := List.getElem?_of_mem hmem
    exact .held hi (by simpa using hholds)
  · intro hid
    cases hid with
    | running h | detached h =>
        rw [keepers, Transport.places, h]
        simp only [if_true]
        omega
    | @held thread activity hthread hholds =>
        have hcount : 0 < w.threads.countP (·.holds? = some id) :=
          List.countP_pos_iff.mpr ⟨activity, List.mem_of_getElem? hthread, by simpa using hholds⟩
        rw [keepers]
        omega

/-- Only a run that exists is kept. -/
theorem Sound.lt_of_keeps (hw : w.Sound) {id : Nat} (hid : w.Keeps id) :
    id < w.transport.runs.length := by
  cases hid with
  | running h => exact hw.running id h
  | detached h => exact (hw.detached id h).1
  | @held thread activity hthread hholds =>
      have hmem := List.mem_of_getElem? hthread
      cases activity with
      | starting call =>
          cases hw.starting call hmem with
          | await hid | giveBack hid => cases hholds; exact hid.1
          | reap | launch | finished => cases hholds
      | stopping call =>
          cases hw.stopping call hmem with
          | ask hid | await hid | leave hid => cases hholds; exact hid.1
          | take | conclude | finished => cases hholds
      | idle | trying | waiting => cases hholds

/-- With a run in the custody of a thread, it is nowhere else. -/
theorem Unshared.not_keeps_of_passed (hw : w.Unshared) {thread id : Nat} {old new : Activity}
    (hthread : w.threads[thread]? = some old) (hholds : old.holds? = some id)
    (hthreads : w'.threads = w.threads.set thread new) (hnew : new.holds? ≠ some id)
    (hplaces : w'.transport.places id = w.transport.places id) : ¬ w'.Keeps id := by
  rw [← keepers_pos_iff]
  have hle := hw.keepers_le id
  have hcount := countP_turn (fun activity => decide (activity.holds? = some id)) new hthread
  rw [← hthreads] at hcount
  simp only [hholds, hnew, decide_true, decide_false, if_true, Bool.false_eq_true,
    if_false] at hcount
  rw [keepers] at hle ⊢
  omega

/-- Two threads never have the same run in their custody. -/
theorem Unshared.eq_of_holds (hw : w.Unshared) {id i j : Nat} {a b : Activity}
    (hi : w.threads[i]? = some a) (ha : a.holds? = some id) (hj : w.threads[j]? = some b)
    (hb : b.holds? = some id) : i = j := by
  apply Decidable.byContradiction
  intro hne
  have hle := hw.keepers_le id
  have hcount := countP_turn (fun activity => decide (activity.holds? = some id)) .idle hi
  have hstill : (w.threads.set i .idle)[j]? = some b := by rw [List.getElem?_set_ne hne, hj]
  have hpos : 0 < (w.threads.set i .idle).countP (·.holds? = some id) :=
    List.countP_pos_iff.mpr ⟨b, List.mem_of_getElem? hstill, by simpa using hb⟩
  have hidle : Activity.idle.holds? ≠ some id := nofun
  simp only [ha, hidle, decide_true, decide_false, if_true, Bool.false_eq_true, if_false] at hcount
  rw [keepers] at hle
  omega

/-! ## Places are kept apart -/

/-- Whoever takes a run takes it away, and whoever lets go of one leaves it in one place. -/
theorem places_rule {now : Instant} {caller : Waker} {call next : Procedure} {t : Transport}
    (hstage : w.Stage call) (hrule : w.transport.Rule now caller call t next)
    (hlaunch : ∀ uri, call ≠ .launch uri) (id : Nat) :
    t.places id + (if next.holds? = some id then 1 else 0) ≤
      w.transport.places id + if call.holds? = some id then 1 else 0 := by
  cases hrule with
  | launch => exact absurd rfl (hlaunch _)
  | reap hdetached =>
      simp [Transport.places, Procedure.holds?, hdetached]
  | take hrunning =>
      simp [Transport.places, Procedure.holds?, Procedure.stopRun, Procedure.awaitExit, hrunning,
        Nat.add_comm]
  | flagged | signalled =>
      rw [hstage.await.2.1]
      exact Nat.le_add_right _ _
  | expire | lost =>
      rw [hstage.await.2.2]
      exact Nat.le_refl _
  | @detach run next =>
      rw [hstage.detach]
      simp only [Transport.places, Procedure.holds?]
      split <;> simp
  | _ => exact Nat.le_refl _

section
variable {thread : Nat} {old new : Activity} (hthread : w.threads[thread]? = some old)
  (hthreads : w'.threads = w.threads.set thread new)
include hthread hthreads

theorem keepers_le_of_turn {id : Nat}
    (hplaces : w'.transport.places id + (if new.holds? = some id then 1 else 0) ≤
      w.transport.places id + if old.holds? = some id then 1 else 0) :
    w'.keepers id ≤ w.keepers id := by
  have hcount := countP_turn (fun activity => decide (activity.holds? = some id)) new hthread
  rw [← hthreads] at hcount
  simp only [decide_eq_true_eq] at hcount
  rw [keepers, keepers]
  omega

/-- A thread that holds nothing goes on without holding anything. -/
theorem keepers_le_of_free (hnew : new.holds? = none) (hbooks : ∀ id,
    w'.transport.places id = w.transport.places id) (id : Nat) : w'.keepers id ≤ w.keepers id := by
  refine keepers_le_of_turn hthread hthreads ?_
  rw [hnew, hbooks]
  exact Nat.le_add_right _ _

/-- A run that is launched was nowhere before. -/
theorem keepers_le_of_launch (hw : w.Unshared) {uri : String} {now : Instant}
    (hnew : new.holds? = none) (hrunning : w.transport.running = none)
    (htransport : w'.transport = w.transport.launch uri now) (id : Nat) : w'.keepers id ≤ 1 := by
  by_cases hid : id = w.transport.runs.length
  · have hnone : w.keepers id = 0 := by
      refine Nat.eq_zero_of_not_pos fun hpos => ?_
      have hlt := hw.sound.lt_of_keeps (keepers_pos_iff.mp hpos)
      omega
    have hcount := countP_turn (fun activity => decide (activity.holds? = some id)) new hthread
    rw [← hthreads] at hcount
    simp only [hnew, reduceCtorEq, decide_false, Bool.false_eq_true, if_false] at hcount
    rw [keepers, Transport.places, hrunning] at hnone
    rw [keepers, Transport.places, htransport]
    simp only [Transport.launch, hid, if_true] at hnone hcount ⊢
    omega
  · refine Nat.le_trans (keepers_le_of_turn hthread hthreads ?_) (hw.keepers_le id)
    have hne : some w.transport.runs.length ≠ some id := fun h => hid (Option.some.inj h).symm
    simp only [Transport.places, htransport, Transport.launch, hnew, hne, hrunning, reduceCtorEq,
      if_false]
    omega

theorem keepers_le_of_call (hw : w.Unshared) {now : Instant} {caller : Waker}
    {call next : Procedure} (hstage : w.Stage call) (hold : old.holds? = call.holds?)
    (hnew : new.holds? = next.holds?)
    (hrule : w.transport.Rule now caller call w'.transport next) (id : Nat) :
    w'.keepers id ≤ 1 := by
  by_cases hcall : ∃ uri, call = .launch uri
  · obtain ⟨uri, rfl⟩ := hcall
    generalize ht : w'.transport = t at hrule
    cases hrule with
    | launch hrunning => exact keepers_le_of_launch hthread hthreads hw hnew hrunning ht id
    | refuse =>
        refine Nat.le_trans (keepers_le_of_free hthread hthreads hnew ?_ id) (hw.keepers_le id)
        exact fun _ => by rw [ht]
  · refine Nat.le_trans (keepers_le_of_turn hthread hthreads ?_) (hw.keepers_le id)
    rw [hold, hnew]
    exact places_rule hstage hrule (fun uri heq => hcall ⟨uri, heq⟩) id

end

theorem keepers_rule (hw : w.Unshared) (hrule : w.Rule w') (id : Nat) : w'.keepers id ≤ 1 := by
  have hfree {thread : Nat} {old new : Activity} (hthread : w.threads[thread]? = some old)
      (hthreads : w'.threads = w.threads.set thread new) (hnew : new.holds? = none)
      (hbooks : ∀ id, w'.transport.places id = w.transport.places id) : w'.keepers id ≤ 1 :=
    Nat.le_trans (keepers_le_of_free hthread hthreads hnew hbooks id) (hw.keepers_le id)
  cases hrule with
  | rest | drift | work => exact hw.keepers_le id
  | beginStart hthread | beginStop hthread | beginTry hthread | finish hthread | giveUp hthread
  | await hthread | push hthread | pop hthread => exact hfree hthread rfl rfl fun _ => rfl
  | parkSender hthread _ hnext | parkReceiver hthread _ hnext =>
      refine hfree hthread rfl ?_ fun _ => rfl
      rcases hnext with rfl | rfl <;> rfl
  | start hthread hrule =>
      have hstage := hw.sound.starting _ (List.mem_of_getElem? hthread)
      exact keepers_le_of_call hthread rfl hw (.inl hstage) rfl rfl hrule id
  | stop hthread hrule =>
      have hstage := hw.sound.stopping _ (List.mem_of_getElem? hthread)
      exact keepers_le_of_call hthread rfl hw (.inr hstage) rfl rfl hrule id

theorem unshared_rule (hw : w.Unshared) (hrule : w.Rule w') : w'.Unshared where
  sound := sound_rule hw.sound hrule
  courses := reachable_rule hw.sound hw.courses hrule
  keepers_le := keepers_rule hw hrule

theorem unshared_fresh (config : LinkConfig) (outbound inbound threads : Nat) (net : σ) :
    (fresh config outbound inbound threads net).Unshared where
  sound := sound_fresh config outbound inbound threads net
  courses := by simp [fresh, course?]
  keepers_le id := by
    have hcount : (List.replicate threads Activity.idle).countP (·.holds? = some id) = 0 :=
      List.countP_eq_zero.mpr fun activity hmem => by
        rw [List.eq_of_mem_replicate hmem]
        simp [Activity.holds?, Activity.call?]
    simp [keepers, fresh, Transport.places, hcount]

theorem unshared_run [Connector σ] (hw : w.Unshared) (moves : List (Move σ)) :
    (w.run moves).Unshared :=
  run_induction hw (fun w move h => unshared_rule h (w.step_rule move)) moves

/-- Where at most one run is kept, it is in one place. -/
theorem Custody.unshared (h : w.Custody) : w.Unshared where
  sound := h.sound
  courses := h.courses
  keepers_le id := by
    have hthreads : w.threads.countP (·.holds? = some id) ≤ w.threads.countP (·.holds?.isSome) := by
      refine List.countP_mono_left fun activity _ hholds => ?_
      simp only [decide_eq_true_eq] at hholds
      rw [hholds]
      rfl
    have hplaces : w.transport.places id ≤ w.transport.booked := by
      rw [Transport.places, Transport.booked]
      cases w.transport.running <;> cases w.transport.detached <;> grind
    exact Nat.le_trans (Nat.add_le_add hplaces hthreads) h.kept_le

end World

end Uplink
