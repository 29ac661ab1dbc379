import Uplink.Proofs.Transport.Summons

/-! # No signal is missed

A thread that waits for the exit of a run is told of it, as a worker is of a stop request. Either
signal goes to whoever looks first, so it counts that nobody else looks: one worker waits for its
request, and a run is in the custody of one thread at most. -/

namespace Uplink

/-- Whether a move is the next step of a thread. -/
def Move.isTurnOf {σ : Type} (thread : Nat) : Move σ → Bool
  | .go t _ _ => t = thread
  | .drift _ | .work _ _ | .ask _ _ => false

/-- The steps from a stage to the notice of an exit that can be seen. At its timer a caller may give
up first. -/
def Transport.ExitStage.turns : ExitStage → Nat
  | .flag | .signal => 1
  | .asleep => 2
  | .timer => 3

namespace World

open Transport (Procedure ExitStage)

variable {σ : Type}

/-- A thread has looked for the exit of a run in this round, and has not begun another. -/
def Rests (thread id : Nat) (w : World σ) : Prop :=
  ∃ activity alarm stage exited late, w.threads[thread]? = some activity ∧
    activity.call? = some (.await id alarm stage exited late) ∧ (stage = .timer ∨ stage = .asleep)

/-! ## The callers -/

section
variable {w : World σ} {thread : Nat} {activity : Activity}

/-- What a thread is in after its next step. -/
theorem call?_advance (hthread : w.threads[thread]? = some activity) {call : Procedure}
    (hcall : activity.call? = some call) (hopen : ∀ result, call ≠ .finished result)
    (now : Instant) (expired : Bool) :
    ∃ next, (w.advance now thread expired activity).threads[thread]? = some next ∧
      next.call? = some (w.transport.stepCall now (waker thread) call).2 := by
  have hlt := (List.getElem?_eq_some_iff.mp hthread).1
  cases activity with
  | idle | trying | waiting => cases hcall
  | starting c | stopping c =>
      obtain rfl := Option.some.inj hcall
      cases c with
      | finished result => exact absurd rfl (hopen result)
      | _ => exact ⟨_, List.getElem?_set_self hlt, rfl⟩

/-- A step of a thread concerns no other thread. A call that the thread is in afterwards comes from
the call that it was in. -/
theorem exists_threads_advance (w : World σ) (now : Instant) (thread : Nat) (expired : Bool)
    (activity : Activity) :
    ∃ next, (w.advance now thread expired activity).threads = w.threads.set thread next ∧
      ∀ after, next.call? = some after → ∃ call, activity.call? = some call ∧
        (w.transport.stepCall now (waker thread) call).2 = after := by
  have hfree {next : Activity} (hnext : next.call? = none) (after : Procedure) :
      next.call? = some after → ∃ call, activity.call? = some call ∧
        (w.transport.stepCall now (waker thread) call).2 = after := by
    simp [hnext]
  cases activity with
  | idle => exact ⟨.idle, rfl, hfree rfl⟩
  | starting call | stopping call =>
      cases call with
      | finished => exact ⟨.idle, rfl, hfree rfl⟩
      | _ => exact ⟨_, rfl, fun _ h => ⟨_, rfl, Option.some.inj h⟩⟩
  | trying run action timed =>
      cases action <;> simp only [advance, attempt] <;> split <;>
        first
        | exact ⟨_, rfl, hfree rfl⟩
        | (cases timed <;> exact ⟨_, rfl, hfree rfl⟩)
  | waiting run action =>
      cases action <;> simp only [advance, poll] <;> split <;> exact ⟨_, rfl, hfree rfl⟩

variable [Connector σ]

/-- A thread stays as it is while others move, unless it is asked for something. -/
theorem thread_of_others {move : Move σ} (hmove : move.isTurnOf thread = false) :
    (w.step move).threads[thread]? = w.threads[thread]? ∨
      w.threads[thread]? = some .idle ∧
        ∀ next, (w.step move).threads[thread]? = some next → next.holds? = none := by
  cases move with
  | drift net => exact .inl rfl
  | work id now =>
      left
      rw [step, work]
      split <;> rfl
  | ask t request =>
      by_cases ht : t = thread
      · subst ht
        cases hidle : w.threads[t]? with
        | none => simp [step, hidle]
        | some activity =>
            cases activity with
            | idle =>
                refine .inr ⟨rfl, fun next hnext => ?_⟩
                simp only [step, hidle] at hnext
                have hset {new : Activity} (h : (w.threads.set t new)[t]? = some next) :
                    next = new := by
                  have hlt := (List.getElem?_eq_some_iff.mp hidle).1
                  rw [List.getElem?_set_self hlt] at h
                  exact (Option.some.inj h).symm
                cases request with
                | start | stop => exact hset hnext ▸ rfl
                | send | receive =>
                    rw [begin] at hnext
                    split at hnext
                    · exact Option.some.inj (hidle.symm.trans hnext) ▸ rfl
                    · exact hset hnext ▸ rfl
            | _ => simp [step, hidle]
      · left
        rw [step]
        split
        · cases request <;> simp only [begin] <;> (try split) <;>
            first
            | rfl
            | exact List.getElem?_set_ne ht
        · rfl
  | go t now expired =>
      have ht : t ≠ thread := by simpa [Move.isTurnOf] using hmove
      left
      rw [step]
      split
      · next activity _ =>
          obtain ⟨next, hnext, -⟩ := w.exists_threads_advance now t expired activity
          rw [hnext, List.getElem?_set_ne ht]
      · rfl

theorem thread_of_quiet {move : Move σ} (hmove : move.isTurnOf thread = false)
    (hthread : w.threads[thread]? = some activity) {call : Procedure}
    (hcall : activity.call? = some call) : (w.step move).threads[thread]? = some activity := by
  rcases thread_of_others hmove with hsame | ⟨hidle, -⟩
  · rw [hsame, hthread]
  · cases hthread.symm.trans hidle
    cases hcall

theorem thread_of_quiet_run {moves : List (Move σ)}
    (hmoves : moves.countP (Move.isTurnOf thread) = 0)
    (hthread : w.threads[thread]? = some activity) {call : Procedure}
    (hcall : activity.call? = some call) : (w.run moves).threads[thread]? = some activity := by
  induction moves generalizing w with
  | nil => exact hthread
  | cons move moves ih =>
      have hnone := List.countP_eq_zero.mp hmoves
      have hmove : move.isTurnOf thread = false := by simpa using hnone move List.mem_cons_self
      have hrest : moves.countP (Move.isTurnOf thread) = 0 :=
        List.countP_eq_zero.mpr fun m hm => hnone m (List.mem_cons_of_mem _ hm)
      exact ih hrest (thread_of_quiet hmove hthread hcall)

end

/-! ## Who waits for an exit when it is noticed -/

section
variable {w : World σ} {thread id : Nat}

theorem holds?_of_await {activity : Activity} {alarm : Option Instant} {stage : ExitStage}
    {exited late : Procedure} (hcall : activity.call? = some (.await id alarm stage exited late)) :
    activity.holds? = some id := by
  rw [Activity.holds?, hcall]
  rfl

theorem Rests.exists_course? (h : Rests thread id w) (hw : w.Unshared) :
    ∃ c, w.course? id = some c := by
  obtain ⟨activity, alarm, stage, exited, late, hthread, hcall, -⟩ := h
  exact World.exists_course? (hw.sound.stage hthread hcall).await.1

/-- Who comes to rest has just looked for the exit in vain, or rested before. -/
theorem looked_of_rests {now : Instant} {caller : Waker} {call exited late : Procedure}
    {t : Transport} {alarm : Option Instant} {stage : ExitStage} (hstage : w.Stage call)
    (hrule : w.transport.Rule now caller call t (.await id alarm stage exited late))
    (hrests : stage = .timer ∨ stage = .asleep) :
    (∃ run alarm, call = .await id alarm .signal exited late ∧
      w.transport.runs[id]? = some run ∧ run.shared.stop.exit ≠ .raised) ∨
    ∃ alarm, call = .await id alarm .timer exited late := by
  cases hrule with
  | unsignalled hrun hexit => exact .inl ⟨_, _, rfl, hrun, hexit⟩
  | arm => exact .inr ⟨_, rfl⟩
  | reap | unflagged | wake => simp at hrests
  | lost | flagged | signalled | expire | written | detach =>
      rcases hstage with hstage | hstage <;> cases hstage
      all_goals simp at hrests

variable [Connector σ]

/-- A thread that rests has left its waker with the signal, or was woken since by the exit. -/
def Posted (w : World σ) (thread id : Nat) (moves : List (Move σ)) : Prop :=
  ∀ c, (w.run moves).course? id = some c →
    c.shared.stop.exit = .awaited (waker thread) ∨
      c.shared.stop.exit = .raised ∧ w.Summoned id (waker thread) (Rests thread id) moves

variable {moves : List (Move σ)} {move : Move σ}

/-- A thread that rested before goes on resting, and nobody looks for the exit. -/
theorem Posted.concat (hw : w.Unshared) (h : w.Posted thread id moves)
    (hbefore : Rests thread id (w.run moves)) (hrests : Rests thread id ((w.run moves).step move))
    (hpoll : ∀ v, (w.run moves).touch? move ≠ some (id, .pollExit v)) :
    w.Posted thread id (moves ++ [move]) := by
  intro c hc
  rw [run_concat] at hc
  obtain ⟨b, hb⟩ := hbefore.exists_course? (unshared_run hw moves)
  have hstop := stop_step hb hc
  by_cases hwrites : (w.run moves).touch? move = some (id, .write .exit)
  · right
    rw [hwrites, Touch.apply, if_pos rfl] at hstop
    refine ⟨hstop ▸ Signal.raise_fst _, ?_⟩
    rcases h b hb with hawaited | ⟨-, hsummoned⟩
    · refine summoned_now ⟨_, b, hwrites, hb, ?_⟩ hrests
      simp [Touch.act, StopToken.raiseExit, Signal.raise, hawaited]
    · exact hsummoned.concat hrests
  · rw [hstop, Touch.exit_apply hwrites hpoll]
    exact (h b hb).imp_right fun hsummoned => ⟨hsummoned.1, hsummoned.2.concat hrests⟩

/-- The thread itself takes a step. -/
theorem posted_of_turn (hw : w.Unshared)
    (h : Rests thread id (w.run moves) → w.Posted thread id moves) {now : Instant}
    {expired : Bool} (hrests : Rests thread id ((w.run moves).step (.go thread now expired))) :
    w.Posted thread id (moves ++ [.go thread now expired]) := by
  have hrun := unshared_run hw moves
  have hafter := hrests
  obtain ⟨activity, alarm, stage, exited, late, hthread, hcall, hstage⟩ := hafter
  cases hbefore : (w.run moves).threads[thread]? with
  | none => simp [step, hbefore] at hthread
  | some old =>
      have hlt := (List.getElem?_eq_some_iff.mp hbefore).1
      obtain ⟨next, hnext, hafter⟩ := (w.run moves).exists_threads_advance now thread expired old
      simp only [step, hbefore] at hthread
      rw [hnext, List.getElem?_set_self hlt] at hthread
      obtain rfl := Option.some.inj hthread
      obtain ⟨call, hold, hstep⟩ := hafter _ hcall
      have htouch : (w.run moves).touch? (.go thread now expired) = call.touch? (waker thread) := by
        simp [touch?, hbefore, hold]
      have hrule := (w.run moves).transport.stepCall_rule now (waker thread) call
      rw [hstep] at hrule
      rcases looked_of_rests (hrun.sound.stage hbefore hold) hrule hstage with
        ⟨run, early, rfl, hsome, hexit⟩ | ⟨early, rfl⟩
      · intro c hc
        left
        have hb : (w.run moves).course? id =
            some ⟨run.worker, run.shared, (w.run moves).history id⟩ := by simp [course?, hsome]
        rw [run_concat] at hc
        rw [stop_step hb hc, htouch, Transport.Procedure.touch?, Touch.apply, if_pos rfl]
        cases hsignal : run.shared.stop.exit <;>
          simp_all [Touch.act, StopToken.pollExit, Signal.poll]
      · have hrested : Rests thread id (w.run moves) :=
          ⟨old, early, .timer, exited, late, hbefore, hold, .inl rfl⟩
        refine (h hrested).concat hw hrested hrests fun v hpoll => ?_
        rw [htouch] at hpoll
        cases hpoll

theorem posted_of_rests (hw : w.Unshared) (hempty : w.transport.runs = [])
    (hrests : Rests thread id (w.run moves)) : w.Posted thread id moves := by
  induction moves using List.reverseRecOn with
  | nil =>
      intro c hc
      simp [run, course?, hempty] at hc
  | append_singleton moves move ih =>
      rw [run_concat] at hrests
      have hrun := unshared_run hw moves
      have hafter := hrests
      obtain ⟨activity, alarm, stage, exited, late, hthread, hcall, hstage⟩ := hafter
      cases hturn : move.isTurnOf thread with
      | false =>
          rcases thread_of_others hturn with hsame | ⟨-, hfree⟩
          · have hbefore : Rests thread id (w.run moves) :=
              ⟨activity, alarm, stage, exited, late, hsame ▸ hthread, hcall, hstage⟩
            refine (ih hbefore).concat hw hbefore hrests fun v hpoll => ?_
            -- Only the thread itself waits for the exit of this run.
            obtain ⟨t, _, _, other, _, _, _, rfl, hother, hlooks⟩ := touch?_pollExit hpoll
            have hsame : t = thread :=
              hrun.eq_of_holds hother (holds?_of_await hlooks) (hsame ▸ hthread)
                (holds?_of_await hcall)
            simp [Move.isTurnOf, hsame] at hturn
          · have hnone := hfree activity hthread
            cases hnone.symm.trans (holds?_of_await hcall)
      | true =>
          cases move with
          | drift | work | ask => cases hturn
          | go t now expired =>
              obtain rfl : t = thread := by simpa [Move.isTurnOf] using hturn
              exact posted_of_turn hw ih hrests

end

section
variable {w : World σ} {thread id : Nat} {activity : Activity} {alarm : Option Instant}
  {stage : ExitStage} {exited late : Procedure} {c : Course}

/-- A thread that looks for the exit of a run whose worker is gone finds it. -/
theorem next_of_gone (hw : w.Unshared) (hh : w.Heralded) (hc : w.course? id = some c)
    (hgone : c.worker.IsGone) (hthread : w.threads[thread]? = some activity)
    (hcall : activity.call? = some (.await id alarm stage exited late)) (hstage : stage ≠ .timer)
    (now : Instant) (caller : Waker) :
    (w.transport.stepCall now caller (.await id alarm stage exited late)).2 =
      if stage = .asleep then .await id alarm .signal exited late else exited := by
  have hraised := hh id c (.held hthread (holds?_of_await hcall)) hc hgone
  have hflag := (hw.courses id c hc).hasExited_of_gone hgone
  obtain ⟨run, hrun, rfl⟩ := Option.map_eq_some_iff.mp hc
  dsimp only at hraised hflag
  rw [Transport.stepCall, hrun]
  cases stage with
  | flag => simp [Transport.lookForExit, hflag]
  | signal => simp [Transport.lookForExit, StopToken.pollExit, Signal.poll, hraised]
  | timer => exact absurd rfl hstage
  | asleep => simp [Transport.lookForExit]

variable [Connector σ]

/-- After one step, or two if it sleeps, it has been told of the exit, whatever others do. -/
theorem exited_of_turns (hw : w.Unshared) (hh : w.Heralded) (hc : w.course? id = some c)
    (hgone : c.worker.IsGone) (hthread : w.threads[thread]? = some activity)
    (hcall : activity.call? = some (.await id alarm stage exited late)) (hstage : stage ≠ .timer)
    {moves : List (Move σ)} (hcount : moves.countP (Move.isTurnOf thread) = stage.turns) :
    ∃ next, (w.run moves).threads[thread]? = some next ∧ next.call? = some exited := by
  induction moves generalizing w c activity stage with
  | nil => cases stage <;> simp [ExitStage.turns] at hcount
  | cons move moves ih =>
      have hrule := w.step_rule move
      obtain ⟨d, hd, hnext⟩ := (hc ▸ follows_rule hw.sound hrule id).exists_of_some
      have hgone' : d.worker.IsGone := by
        rcases hnext with rfl | hstep
        · exact hgone
        · exact hstep.isGone hgone
      have hw' := unshared_rule hw hrule
      have hh' := heralded_rule hw hrule hh
      rw [List.countP_cons] at hcount
      cases hturn : move.isTurnOf thread with
      | false =>
          rw [hturn] at hcount
          exact ih hw' hh' hd hgone' (thread_of_quiet hturn hthread hcall) hcall hstage
            (by simpa using hcount)
      | true =>
          rw [hturn] at hcount
          cases move with
          | drift | work | ask => cases hturn
          | go t now expired =>
              obtain rfl : t = thread := by simpa [Move.isTurnOf] using hturn
              obtain ⟨next, hmoved, hafter⟩ := call?_advance hthread hcall (by simp) now expired
              rw [next_of_gone hw hh hc hgone hthread hcall hstage] at hafter
              have hstep : w.step (.go t now expired) = w.advance now t expired activity := by
                simp [step, hthread]
              rw [← hstep] at hmoved
              cases stage with
              | timer => exact absurd rfl hstage
              | flag | signal =>
                  have hrest : moves.countP (Move.isTurnOf t) = 0 := by
                    simpa [ExitStage.turns] using hcount
                  have hnext := thread_of_quiet_run hrest hmoved hafter
                  exact ⟨next, hnext, hafter⟩
              | asleep =>
                  have hrest : moves.countP (Move.isTurnOf t) = ExitStage.signal.turns := by
                    simpa [ExitStage.turns] using hcount
                  exact ih hw' hh' hd hgone' hmoved hafter (by simp) hrest

end

variable [Connector σ]

/-- Neither a stop request nor the notice of an exit is missed, in whatever order things happen.

A task that waits for a stop request, alone or among other things, with whatever became of its
waits before, does not sleep once a request is through, unless it was woken. Where the signal of
a request was raised for a run and its worker sleeps, for want of work or between two connects,
the worker was woken while it slept, and its next look finds the signal. Where the signal of an
exit was raised, a thread that waits for that exit and sleeps, or is about to, was woken after it
had looked; and a wait that begins, looks or sleeps takes notice of the exit with its next look,
whatever happens in between. -/
theorem no_signal_missed (config : LinkConfig) (outbound inbound threads : Nat) (net : σ) :
    let start := fresh config outbound inbound threads net
    (∀ steps w, .done ∈ (StopToken.Usage.fresh.run steps).requests →
      (StopToken.Usage.fresh.run steps).waiting ≠ .parked w false) ∧
    (∀ moves id c, start.Wrote id .request moves → (start.run moves).course? id = some c →
      c.worker.IsAsleep → c.shared.stop.isRequested = true ∧ c.shared.stop.request = .raised ∧
        start.Summoned id Worker.waker (Sleeps id) moves) ∧
    ∀ moves id thread activity alarm stage exited late, start.Wrote id .exit moves →
      (start.run moves).threads[thread]? = some activity →
        activity.call? = some (.await id alarm stage exited late) →
          (stage = .timer ∨ stage = .asleep →
            start.Summoned id (waker thread) (Rests thread id) moves) ∧
          (stage ≠ .timer → ∀ more, more.countP (Move.isTurnOf thread) = stage.turns →
            ∃ next, (start.run (moves ++ more)).threads[thread]? = some next ∧
              next.call? = some exited) := by
  intro start
  have hstart : start.Unshared := unshared_fresh config outbound inbound threads net
  have hempty : start.transport.runs = [] := rfl
  refine ⟨fun steps w hdone hparked => ?_, fun moves id c hwrote hc hasleep => ?_, ?_⟩
  · have hheeded := StopToken.Usage.heeded_run StopToken.Usage.heeded_fresh steps
    cases hheeded.roused hdone hparked
  · obtain ⟨d, hd, hattentive⟩ :=
      holds_of_wrote hstart attentive_of_touch Course.attentive_evolves hwrote
    obtain rfl : d = c := Option.some.inj (hd.symm.trans hc)
    obtain ⟨purpose, bound, alarm, hphase⟩ := hasleep
    have hraised := hattentive.raised (by rw [hphase]; rfl)
    exact ⟨hattentive.flagged, hraised,
      summoned_of_asleep hstart hempty hd ⟨purpose, bound, alarm, hphase⟩ hraised⟩
  · intro moves id thread activity alarm stage exited late hwrote hthread hcall
    obtain ⟨c, hc, hgone⟩ :=
      holds_of_wrote hstart gone_of_touch (fun hgone hstep => hstep.isGone hgone) hwrote
    have hheralded := heralded_run hstart (heralded_fresh _ _ _ _ _) moves
    constructor
    · intro hstage
      have hrests : Rests thread id (start.run moves) :=
        ⟨activity, alarm, stage, exited, late, hthread, hcall, hstage⟩
      have hraised := hheralded id c (.held hthread (holds?_of_await hcall)) hc hgone
      rcases posted_of_rests hstart hempty hrests c hc with hawaited | ⟨-, hsummoned⟩
      · cases hraised.symm.trans hawaited
      · exact hsummoned
    · intro hstage more hcount
      rw [run_append]
      exact exited_of_turns (unshared_run hstart moves) hheralded hc hgone hthread hcall hstage
        hcount

/-- A worker comes to sleep, and a stop asks it to end and sleeps until it has. -/
def stopOfSleeper : List (Move Network) :=
  firstDial ++ .replicate 13 (.work 0 0) ++ [.ask 0 .stop] ++ .replicate 9 (.go 0 0 false)

/-- The worker ends. -/
def endOfSleeper : List (Move Network) :=
  stopOfSleeper ++ .replicate 11 (.work 0 0)

theorem signals_of_sleeper :
    (StopToken.Usage.fresh.run [.ask, .begin, .look Worker.waker, .look Worker.waker, .write 0,
      .write 0]).waiting ≠ .parked Worker.waker false ∧
    quietHub.Summoned 0 Worker.waker (Sleeps 0) stopOfSleeper ∧
    quietHub.Summoned 0 (waker 0) (Rests 0 0) endOfSleeper ∧
    ∃ next, (quietHub.run (endOfSleeper ++ .replicate 2 (.go 0 0 false))).threads[0]? = some next ∧
      next.call? = some (.conclude 0) := by
  obtain ⟨htask, hworker, hcaller⟩ := no_signal_missed .default 16 16 2
    { Network.silent with outcomes := [.ok (), .ok ()] }
  have hrequest : quietHub.Wrote 0 .request stopOfSleeper :=
    ⟨firstDial ++ .replicate 13 (.work 0 0) ++ [.ask 0 .stop] ++ .replicate 4 (.go 0 0 false),
      .go 0 0 false, .replicate 4 (.go 0 0 false), rfl, by rfl⟩
  have hexit : quietHub.Wrote 0 .exit endOfSleeper :=
    ⟨stopOfSleeper ++ .replicate 10 (.work 0 0), .work 0 0, [], rfl, by rfl⟩
  obtain ⟨c, hc, hasleep⟩ : Sleeps 0 (quietHub.run stopOfSleeper) := ⟨_, rfl, _, _, _, by rfl⟩
  have hcall : (quietHub.run endOfSleeper).threads[0]?.bind Activity.call? = some (.await 0
      (some (milliseconds 500)) .asleep (.conclude 0) (.detach 0 (.conclude 0))) := by
    decide +kernel
  obtain ⟨activity, hthread, hawaits⟩ := Option.bind_eq_some_iff.mp hcall
  obtain ⟨hsummoned, htold⟩ := hcaller _ 0 0 _ _ _ _ _ hexit hthread hawaits
  exact ⟨htask _ _ (by decide), (hworker _ _ c hrequest hc hasleep).2.2, hsummoned (.inr rfl),
    htold (by simp) _ (by decide)⟩

end World

end Uplink
