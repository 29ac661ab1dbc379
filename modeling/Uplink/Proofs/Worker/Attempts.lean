import Uplink.Proofs.Worker.Landmarks

/-! # Attempts and failures

The counters of connects agree with the landmarks, up to what a worker has still to count. -/

namespace Uplink

def Phase.isDialing : Phase → Bool
  | .connecting => true
  | _ => false

/-- Whether a phase is the wait after a failed connect. -/
def Phase.isPausing : Phase → Bool
  | .waiting purpose _ _ _ => purpose = .retry
  | _ => false

namespace Worker

variable {now : Instant} {w w' : Worker} {s s' : Shared} {h : History}

/-- The connects that a worker has begun and not settled: one or none. -/
def opening (w : Worker) : Nat :=
  w.phase.isOpening.toNat

/-- The connects that were counted as begun, and are not settled or not yet counted as failed. -/
def inFlight (w : Worker) : Nat :=
  w.owes .connectFailures + w.opening - w.owes .connectAttempts

/-- A worker owes a count only right after what it counts. -/
structure Owing (w : Worker) : Prop where
  attempts : w.owes .connectAttempts ≤ w.phase.isDialing.toNat
  failures : w.owes .connectFailures ≤ w.phase.isPausing.toNat

theorem owes_of_cons {effect : Effect} {todo : List Effect} (htodo : w.todo = effect :: todo)
    (counter : Counter) :
    w.owes counter =
      ({ w with todo } : Worker).owes counter +
        if effect = .write (.count counter) then 1 else 0 := by
  simp [owes, htodo, List.count_cons]

theorem Owing.of_le (hw : w.Owing) (hphase : w'.phase = w.phase)
    (hattempts : w'.owes .connectAttempts ≤ w.owes .connectAttempts)
    (hfailures : w'.owes .connectFailures ≤ w.owes .connectFailures) : w'.Owing where
  attempts := hphase ▸ hattempts.trans hw.attempts
  failures := hphase ▸ hfailures.trans hw.failures

theorem Owing.of_none (hattempts : w.owes .connectAttempts = 0)
    (hfailures : w.owes .connectFailures = 0) : w.Owing where
  attempts := by omega
  failures := by omega

theorem owing_rule (hw : w.Owing) (hrule : w.Rule now s h w' s') : w'.Owing := by
  cases hrule with
  | write htodo | deliver htodo | hangUp htodo | idleDrop htodo =>
      refine hw.of_le rfl ?_ ?_ <;>
        rw [owes_of_cons htodo] <;> exact Nat.le_add_right _ _
  | overflow htodo =>
      refine hw.of_le rfl ?_ ?_ <;> simp [owes, htodo]
  | gone => exact hw
  | dial htodo =>
      constructor <;> simp [owes, Effect.publish, Write.publish, Phase.isDialing]
  | refused htodo =>
      constructor <;> simp [owes, Effect.publish, Write.publish, Phase.isPausing]
  | event event =>
      apply Owing.of_none <;> cases event <;>
        simp [owes, eventEffects, LinkEvent.isActivity, Effect.publish, Write.publish]
  | @probe session result =>
      apply Owing.of_none <;>
        cases (if session.isOpen then result else .error .notConnected) <;>
          simp [owes, probeEffects]
  | @transmit m session result =>
      apply Owing.of_none <;>
        cases (if session.isOpen then result else .error .notConnected) <;>
          simp [owes, Counter.ofSend]
  | _ =>
      apply Owing.of_none <;> simp_all [owes, greet, farewell, Effect.publish, Write.publish]

/-- The counters agree with the landmarks. -/
structure Counted (w : Worker) (stats : LinkStats) (marks : List Landmark) : Prop where
  begun : stats.value .connectAttempts + .ofNat (w.owes .connectAttempts) =
    .ofNat (marks.count .dial)
  settled : stats.value .connectFailures + .ofNat (w.owes .connectFailures + w.opening +
    (marks.count .established + marks.count .overtaken)) = .ofNat (marks.count .dial)

/-- A step that begins so many connects. Where it settles one, it owes a count or comes to a
landmark. -/
theorem Counted.of_step {stats : LinkStats} {marks : List Landmark} (hw : w.Counted stats marks)
    (begun : Nat) {mark? : Option Landmark} (hmark : (w.strideTo now h w').landmark? = mark?)
    (hattempts : w'.owes .connectAttempts = w.owes .connectAttempts + begun)
    (hdial : mark?.toList.count .dial = begun)
    (hsettled : w'.owes .connectFailures + w'.opening +
      (mark?.toList.count .established + mark?.toList.count .overtaken) =
        w.owes .connectFailures + w.opening + begun) :
    w'.Counted stats (marks ++ (w.strideTo now h w').landmark?.toList) := by
  rw [hmark]
  constructor
  · rw [List.count_append, hdial, hattempts, UInt32.ofNat_add, UInt32.ofNat_add,
      ← UInt32.add_assoc, hw.begun]
  · have hsum : w'.owes .connectFailures + w'.opening +
        ((marks ++ mark?.toList).count .established + (marks ++ mark?.toList).count .overtaken) =
          w.owes .connectFailures + w.opening +
            (marks.count .established + marks.count .overtaken) + begun := by
      simp only [List.count_append]
      omega
    rw [hsum, List.count_append, hdial, UInt32.ofNat_add, UInt32.ofNat_add _ begun,
      ← UInt32.add_assoc, hw.settled]

/-- A step that neither begins nor settles a connect. -/
theorem Counted.of_quiet {stats : LinkStats} {marks : List Landmark} (hw : w.Counted stats marks)
    (hattempts : w'.owes .connectAttempts = w.owes .connectAttempts)
    (hfailures : w'.owes .connectFailures = w.owes .connectFailures)
    (hopening : w'.phase.isOpening = w.phase.isOpening)
    (hdial : w.phase = .choosing → w'.phase ≠ .connecting)
    (hestablished : w.session = none → w'.session = none)
    (hovertaken : ∀ result, w.phase = .connected result → w'.phase ≠ .choosing) :
    w'.Counted stats (marks ++ (w.strideTo now h w').landmark?.toList) := by
  have hcount {mark : Landmark} (hnot : (w.strideTo now h w').landmark? ≠ some mark) :
      (w.strideTo now h w').landmark?.toList.count mark = 0 := by
    rw [List.count_eq_zero, Option.mem_toList]
    exact hnot
  have hnodial : (w.strideTo now h w').landmark? ≠ some .dial := by
    intro hmark
    obtain ⟨hbefore, hafter⟩ := (of_landmark? hmark).1 rfl
    exact hdial hbefore hafter
  have hnosession : (w.strideTo now h w').landmark? ≠ some .established := by
    intro hmark
    obtain ⟨hbefore, hafter⟩ := (of_landmark? hmark).2.1 rfl
    exact hafter (hestablished hbefore)
  have hnostop : (w.strideTo now h w').landmark? ≠ some .overtaken := by
    intro hmark
    obtain ⟨⟨result, hbefore⟩, hafter⟩ := (of_landmark? hmark).2.2 rfl
    exact hovertaken result hbefore hafter
  refine hw.of_step 0 rfl hattempts (hcount hnodial) ?_
  rw [hcount hnosession, hcount hnostop, hfailures, opening, opening, hopening]

/-- A counter that is raised is owed no longer. -/
theorem counted_write {marks : List Landmark} (hw : w.Counted s.status.stats marks) {x : Write}
    {todo : List Effect} (htodo : w.todo = .write x :: todo) :
    ({ w with todo } : Worker).Counted (s.write x).status.stats marks := by
  obtain ⟨hbegun, hsettled⟩ := hw
  have hpaid (counter : Counter) (n : Nat) :
      (s.write x).status.stats.value counter +
          .ofNat (({ w with todo } : Worker).owes counter + n) =
        s.status.stats.value counter + .ofNat (w.owes counter + n) := by
    rw [Shared.value_write, owes_of_cons htodo]
    by_cases hx : x = .count counter
    · simp [hx, UInt32.ofNat_add]
      ac_rfl
    · simp [hx]
  constructor
  · exact (hpaid .connectAttempts 0).trans hbegun
  · rw [Nat.add_assoc] at hsettled ⊢
    exact (hpaid _ _).trans hsettled

theorem counted_rule {marks : List Landmark} (hs : w.Sound s.stop)
    (hw : w.Counted s.status.stats marks) (hrule : w.Rule now s h w' s') :
    w'.Counted s'.status.stats (marks ++ (w.strideTo now h w').landmark?.toList) := by
  cases hrule with
  | @write x todo htodo =>
      have hmark : (w.strideTo now [] { w with todo }).landmark? = none :=
        landmark?_of_same rfl rfl rfl
      rw [hmark, Option.toList_none, List.append_nil]
      exact counted_write hw htodo
  | dial htodo hphase =>
      refine hw.of_step 1 (landmark?_of_dial rfl hphase rfl rfl) ?_ ?_ ?_ <;>
        simp [owes, opening, htodo, hphase, Phase.isOpening, Effect.publish, Write.publish]
  | greet htodo hphase =>
      have hsession : w.session = none := hs.vacant (by rw [hphase]; rfl)
      refine hw.of_step 0 (landmark?_of_greet rfl hsession rfl) ?_ ?_ ?_ <;>
        simp [owes, opening, htodo, hphase, Phase.isOpening, Worker.greet, Effect.publish,
          Write.publish]
  | @overtaken session htodo hphase =>
      refine hw.of_step 0 (landmark?_of_overtaken (by simp [NetCall.isConnect]) hphase rfl rfl)
        ?_ ?_ ?_ <;>
        simp [owes, opening, htodo, hphase, Phase.isOpening]
  | refusedLate htodo hphase =>
      refine hw.of_step 0 (landmark?_of_overtaken (by simp) hphase rfl rfl) ?_ ?_ ?_ <;>
        simp [owes, opening, htodo, hphase, Phase.isOpening]
  | refused htodo hphase =>
      refine hw.of_step 0 (landmark?_of_refused rfl hphase rfl rfl) ?_ ?_ ?_ <;>
        simp [owes, opening, htodo, hphase, Phase.isOpening, Effect.publish, Write.publish]
  | overflow htodo | deliver htodo | idleDrop htodo | hangUp htodo =>
      refine hw.of_quiet ?_ ?_ rfl ?_ ?_ ?_ <;> simp_all [owes]
  | event event htodo =>
      refine hw.of_quiet ?_ ?_ ?_ ?_ ?_ ?_ <;> cases event <;>
        simp_all [owes, Phase.isOpening, eventEffects, LinkEvent.isActivity, Effect.publish,
          Write.publish]
  | @probe session result htodo =>
      refine hw.of_quiet ?_ ?_ ?_ ?_ ?_ ?_ <;>
        cases (if session.isOpen then result else .error .notConnected) <;>
          simp_all [owes, Phase.isOpening, probeEffects]
  | @transmit m session result htodo =>
      refine hw.of_quiet ?_ ?_ ?_ ?_ ?_ ?_ <;>
        cases (if session.isOpen then result else .error .notConnected) <;>
          simp_all [owes, Phase.isOpening, Counter.ofSend]
  | _ =>
      refine hw.of_quiet ?_ ?_ ?_ ?_ ?_ ?_ <;>
        simp_all [owes, Phase.isOpening, farewell, Effect.publish, Write.publish]

theorem inFlight_eq (hw : w.Owing) :
    w.inFlight + w.owes .connectAttempts = w.owes .connectFailures + w.opening := by
  have hattempts := hw.attempts
  have hle : w.phase.isDialing.toNat ≤ w.opening := by
    cases hphase : w.phase <;> simp [opening, hphase, Phase.isDialing, Phase.isOpening]
  unfold inFlight
  omega

/-- The attempts are the failures, the sessions, and what is in flight or was overtaken. -/
theorem Counted.attempts_eq {stats : LinkStats} {marks : List Landmark} (hw : w.Counted stats marks)
    (howing : w.Owing) :
    stats.value .connectAttempts = stats.value .connectFailures +
      .ofNat (marks.count .established) + .ofNat (w.inFlight + marks.count .overtaken) := by
  have hsum : w.owes .connectFailures + w.opening +
      (marks.count .established + marks.count .overtaken) =
        marks.count .established + (w.inFlight + marks.count .overtaken) +
          w.owes .connectAttempts := by
    have := inFlight_eq howing
    omega
  have hboth := hw.begun.trans hw.settled.symm
  rw [hsum, UInt32.ofNat_add _ (w.owes .connectAttempts), ← UInt32.add_assoc] at hboth
  rw [(UInt32.add_left_inj _).mp hboth, UInt32.ofNat_add, UInt32.add_assoc]

end Worker

end Uplink
