import Uplink.Proofs.Transport.Notice
import Uplink.Proofs.Worker.Windup

/-! # Stop tokens in a world

What a move does to the stop token of a run, and whom it wakes by that: a worker or a stop writes to
the token, a worker looks for the request, or a thread looks for the exit. -/

namespace Uplink

/-- What is done to a stop token in one step. -/
inductive Touch
  | write (x : Write)
  /-- Somebody looks at the signal of the request. -/
  | pollRequest (w : Waker)
  /-- Somebody looks at the signal of the exit. -/
  | pollExit (w : Waker)

namespace Touch

/-- The token after it was touched, and who is woken. -/
def act (t : StopToken) : Touch → StopToken × List Waker
  | .write .requested => (t.storeRequested, [])
  | .write .request => t.raiseRequest
  | .write .exited => (t.storeExited, [])
  | .write .exit => t.raiseExit
  | .write _ => (t, [])
  | .pollRequest w => (t.pollRequest w).2
  | .pollExit w => (t.pollExit w).2

/-- What becomes of the token of a run when the token of a run is touched. -/
def apply (id : Nat) (t : StopToken) : Option (Nat × Touch) → StopToken
  | some (run, touch) => if run = id then (touch.act t).1 else t
  | none => t

theorem stop_write (s : Shared) (x : Write) : (s.write x).stop = (act s.stop (.write x)).1 := by
  cases x <;> rfl

variable {id : Nat} {t : StopToken} {touch? : Option (Nat × Touch)}

/-- The signal of a request comes from a write. -/
theorem request_of_raised (h : (apply id t touch?).request = .raised)
    (hwrite : touch? ≠ some (id, .write .request)) : t.request = .raised := by
  cases touch? with
  | none => exact h
  | some pair =>
      obtain ⟨run, touch⟩ := pair
      by_cases hrun : run = id
      · subst hrun
        rw [apply, if_pos rfl] at h
        cases touch with
        | write x =>
            cases x with
            | request => exact absurd rfl hwrite
            | _ => exact h
        | pollRequest w =>
            cases hrequest : t.request <;>
              simp [act, StopToken.pollRequest, Signal.poll, hrequest] at h
        | pollExit w => exact h
      · rwa [apply, if_neg hrun] at h

/-- The signal of an exit changes by a write and by a look at it. -/
theorem exit_apply (hwrite : touch? ≠ some (id, .write .exit))
    (hpoll : ∀ w, touch? ≠ some (id, .pollExit w)) : (apply id t touch?).exit = t.exit := by
  cases touch? with
  | none => rfl
  | some pair =>
      obtain ⟨run, touch⟩ := pair
      by_cases hrun : run = id
      · subst hrun
        rw [apply, if_pos rfl]
        cases touch with
        | write x =>
            cases x with
            | exit => exact absurd rfl hwrite
            | _ => rfl
        | pollRequest w => rfl
        | pollExit w => exact absurd rfl (hpoll w)
      · rw [apply, if_neg hrun]

end Touch

/-- How a worker touches the token of its run in its next step. -/
def Worker.touch? (w : Worker) : Option Touch :=
  match w.todo, w.phase with
  | .write x :: _, _ => some (.write x)
  | [], .waiting _ _ _ .request => some (.pollRequest Worker.waker)
  | _, _ => none

/-- How a start or a stop touches the token of a run in its next step. -/
def Transport.Procedure.touch? (caller : Waker) : Procedure → Option (Nat × Touch)
  | .write id (x :: _) _ => some (id, .write x)
  | .await id _ .signal _ _ => some (id, .pollExit caller)
  | _ => none

theorem Worker.stop_rule {now : Instant} {w w' : Worker} {s s' : Shared} {h : History}
    (hrule : w.Rule now s h w' s') :
    s'.stop = w.touch?.elim s.stop fun touch => (touch.act s.stop).1 := by
  cases hrule with
  | write htodo => simpa [touch?, htodo] using Touch.stop_write s _
  | listen htodo hphase => simp [touch?, htodo, hphase, Touch.act]
  | deliver htodo | overflow htodo | hangUp htodo | idleDrop htodo => simp [touch?, htodo]
  | _ => simp_all [touch?]

theorem Transport.core?_call {t t' : Transport} {now : Instant} {caller : Waker}
    {call next : Procedure} (hrule : t.Rule now caller call t' next) {id : Nat} {v : Worker}
    {s : StopToken} (h : t.core? id = some (v, s)) :
    t'.core? id = some (v, Touch.apply id s (call.touch? caller)) := by
  have hmodify {j : Nat} {f : Shared → Shared} {touch : Touch}
      (hf : ∀ run, t.runs[j]? = some run → (f run.shared).stop = (touch.act run.shared.stop).1) :
      (t.updateShared j f).core? id = some (v, Touch.apply id s (some (j, touch))) := by
    obtain ⟨run, hrun, heq⟩ := Option.map_eq_some_iff.mp h
    obtain ⟨rfl, rfl⟩ := Prod.mk.inj heq
    by_cases hj : j = id
    · subst hj
      simp [core?, updateShared, updateRun, hrun, Touch.apply, hf run hrun]
    · simp [core?, updateShared, updateRun, hj, hrun, Touch.apply]
  cases hrule with
  | launch =>
      obtain ⟨run, hrun, heq⟩ := Option.map_eq_some_iff.mp h
      have hlt := (List.getElem?_eq_some_iff.mp hrun).1
      simpa [core?, launch, List.getElem?_append_left hlt, hrun, Procedure.touch?, Touch.apply]
        using heq
  | write => exact hmodify fun run _ => Touch.stop_write run.shared _
  | signalled hrun | unsignalled hrun =>
      refine hmodify fun run hrun' => ?_
      cases hrun.symm.trans hrun'
      rfl
  | @lost j alarm stage exited late hrun =>
      have hj : j ≠ id := by
        rintro rfl
        simp [core?, hrun] at h
      cases stage <;> simpa [Procedure.touch?, Touch.apply, hj] using h
  | _ => exact h

namespace World

variable {σ : Type}

/-- How a move touches the token of a run. -/
def touch? (w : World σ) : Move σ → Option (Nat × Touch)
  | .work id _ => w.transport.runs[id]?.bind fun run => run.worker.touch?.map (id, ·)
  | .go thread _ _ =>
    (w.threads[thread]?.bind Activity.call?).bind (Transport.Procedure.touch? (waker thread))
  | .drift _ | .ask _ _ => none

theorem core?_of_course? {w : World σ} {id : Nat} {c : Course} (hc : w.course? id = some c) :
    w.transport.core? id = some (c.worker, c.shared.stop) := by
  obtain ⟨run, hrun, rfl⟩ := Option.map_eq_some_iff.mp hc
  simp [Transport.core?, hrun]

theorem touch?_work {w : World σ} {id : Nat} {c : Course} (hc : w.course? id = some c)
    (now : Instant) : w.touch? (.work id now) = c.worker.touch?.map (id, ·) := by
  obtain ⟨run, hrun, rfl⟩ := Option.map_eq_some_iff.mp hc
  simp [touch?, hrun]

/-- A write to a token is made by the worker of the run, or by a stop. -/
theorem touch?_write_cases {w : World σ} {id : Nat} {x : Write} {move : Move σ}
    (h : w.touch? move = some (id, .write x)) :
    (∃ now c todo, move = .work id now ∧ w.course? id = some c ∧
      c.worker.todo = .write x :: todo) ∨
    ∃ thread now expired activity xs next, move = .go thread now expired ∧
      w.threads[thread]? = some activity ∧ activity.call? = some (.write id (x :: xs) next) := by
  cases move with
  | drift | ask => cases h
  | work run now =>
      obtain ⟨r, hrun, h⟩ := Option.bind_eq_some_iff.mp h
      obtain ⟨touch, htouch, heq⟩ := Option.map_eq_some_iff.mp h
      obtain ⟨rfl, rfl⟩ := Prod.mk.inj heq
      have hc : w.course? run = some ⟨r.worker, r.shared, w.history run⟩ := by simp [course?, hrun]
      rw [Worker.touch?] at htouch
      split at htouch
      · next todo htodo =>
          cases htouch
          exact .inl ⟨now, _, todo, rfl, hc, htodo⟩
      · cases htouch
      · cases htouch
  | go thread now expired =>
      obtain ⟨call, hcall, htouch⟩ := Option.bind_eq_some_iff.mp h
      obtain ⟨activity, hthread, hcall⟩ := Option.bind_eq_some_iff.mp hcall
      unfold Transport.Procedure.touch? at htouch
      split at htouch
      · next xs next _ =>
          cases htouch
          exact .inr ⟨thread, now, expired, activity, xs, next, rfl, hthread, hcall⟩
      · cases htouch
      · cases htouch

/-- Who looks for the exit of a run waits for it. -/
theorem touch?_pollExit {w : World σ} {id : Nat} {waker : Waker} {move : Move σ}
    (h : w.touch? move = some (id, .pollExit waker)) :
    ∃ thread now expired activity alarm exited late, move = .go thread now expired ∧
      w.threads[thread]? = some activity ∧
        activity.call? = some (.await id alarm .signal exited late) := by
  cases move with
  | drift | ask => cases h
  | work run now =>
      obtain ⟨r, hrun, h⟩ := Option.bind_eq_some_iff.mp h
      obtain ⟨touch, htouch, heq⟩ := Option.map_eq_some_iff.mp h
      obtain ⟨rfl, rfl⟩ := Prod.mk.inj heq
      rw [Worker.touch?] at htouch
      split at htouch <;> cases htouch
  | go thread now expired =>
      obtain ⟨call, hcall, htouch⟩ := Option.bind_eq_some_iff.mp h
      obtain ⟨activity, hthread, hcall⟩ := Option.bind_eq_some_iff.mp hcall
      unfold Transport.Procedure.touch? at htouch
      split at htouch
      · cases htouch
      · next alarm exited late _ =>
          cases htouch
          exact ⟨thread, now, expired, activity, alarm, exited, late, rfl, hthread, hcall⟩
      · cases htouch

theorem core?_advance {w : World σ} {thread : Nat} {activity : Activity}
    (hthread : w.threads[thread]? = some activity) {id : Nat} {v : Worker} {s : StopToken}
    (h : w.transport.core? id = some (v, s)) (now : Instant) (expired : Bool) :
    (w.advance now thread expired activity).transport.core? id =
      some (v, Touch.apply id s (w.touch? (.go thread now expired))) := by
  cases activity with
  | idle => simpa [touch?, hthread, Activity.call?, advance, turn, Touch.apply] using h
  | starting call | stopping call =>
      have hcall := Transport.core?_call (w.transport.stepCall_rule now (waker thread) call) h
      have htouch : w.touch? (.go thread now expired) = call.touch? (waker thread) := by
        simp [touch?, hthread, Activity.call?]
      rw [htouch]
      cases call with
      | finished => exact h
      | _ => exact hcall
  | trying run action timed =>
      have htouch : w.touch? (.go thread now expired) = none := by
        simp [touch?, hthread, Activity.call?]
      rw [advance, core?_attempt, h, htouch]
      rfl
  | waiting run action =>
      have htouch : w.touch? (.go thread now expired) = none := by
        simp [touch?, hthread, Activity.call?]
      rw [advance, core?_poll, h, htouch]
      rfl

variable [Connector σ]

/-- A move does to the token of a run what it does, and nothing besides. -/
theorem stop_step {w : World σ} {id : Nat} {c d : Course} {move : Move σ}
    (hc : w.course? id = some c) (hd : (w.step move).course? id = some d) :
    d.shared.stop = Touch.apply id c.shared.stop (w.touch? move) := by
  have hbefore := core?_of_course? hc
  have hafter := core?_of_course? hd
  have hsame (h : (w.step move).transport.core? id =
      some (c.worker, Touch.apply id c.shared.stop (w.touch? move))) :
      d.shared.stop = Touch.apply id c.shared.stop (w.touch? move) := by
    rw [hafter, Option.some.injEq, Prod.mk.injEq] at h
    exact h.2
  cases move with
  | drift net => exact hsame hbefore
  | ask thread request =>
      refine hsame ?_
      rw [step]
      split
      · rw [core?_begin]
        exact hbefore
      · exact hbefore
  | go thread now expired =>
      cases hthread : w.threads[thread]? with
      | none =>
          refine hsame ?_
          simpa [step, touch?, hthread, Touch.apply] using hbefore
      | some activity =>
          refine hsame ?_
          simpa [step, hthread] using core?_advance hthread hbefore now expired
  | work run now =>
      by_cases hrun : run = id
      · subst hrun
        obtain ⟨worker, shared, h, hrule, hnext⟩ := course?_work hc now
        cases hd.symm.trans hnext
        rw [touch?_work hc, Worker.stop_rule hrule]
        cases c.worker.touch? <;> simp [Touch.apply]
      · refine hsame ?_
        have htouch : Touch.apply id c.shared.stop (w.touch? (.work run now)) = c.shared.stop := by
          cases hother : w.transport.runs[run]? with
          | none => simp [touch?, hother, Touch.apply]
          | some other =>
              cases ht : other.worker.touch? <;> simp [touch?, hother, ht, Touch.apply, hrun]
        rw [htouch]
        cases hother : w.transport.runs[run]? with
        | none => simpa [step, work, hother] using hbefore
        | some other =>
            simpa [step, work, hother, Transport.stepWorker, Transport.updateRun, record,
              Transport.core?, List.getElem?_modify, hrun] using hbefore

end World

end Uplink
