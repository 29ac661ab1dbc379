import Uplink.Proofs.Transport.Notice

/-! # One caller

A transport that only one thread calls. A start or a stop stands still while the thread rests, and
goes on by one step whenever the thread does. -/

namespace Uplink

instance decidableEqResult : DecidableEq (Except TransportError Unit)
  | .ok (), .ok () => isTrue rfl
  | .ok (), .error _ => isFalse nofun
  | .error _, .ok () => isFalse nofun
  | .error e, .error e' => decidable_of_iff (e = e') (by simp)

deriving instance DecidableEq for Transport.Procedure

/-- The moment at which the first thread goes on. -/
def Move.moment? {σ : Type} : Move σ → Option Instant
  | .go thread now _ => if thread = 0 then some now else none
  | .drift _ | .work _ _ | .ask _ _ => none

namespace World

open Transport (Procedure ExitStage)

variable {σ : Type}

/-- The moments at which the first thread goes on. -/
def moments (moves : List (Move σ)) : List Instant :=
  moves.filterMap Move.moment?

@[simp] theorem moments_append (front back : List (Move σ)) :
    moments (front ++ back) = moments front ++ moments back :=
  List.filterMap_append

theorem moments_of_quiet {move : Move σ} (h : move.moment? = none) (moves : List (Move σ)) :
    moments (move :: moves) = moments moves :=
  List.filterMap_cons_none h

theorem moments_go (now : Instant) (expired : Bool) (moves : List (Move σ)) :
    moments (.go 0 now expired :: moves) = now :: moments moves :=
  rfl

theorem quiet_or_go (move : Move σ) :
    move.moment? = none ∨ ∃ now expired, move = .go 0 now expired := by
  cases move with
  | go thread now expired =>
      by_cases hthread : thread = 0
      · exact .inr ⟨now, expired, by rw [hthread]⟩
      · exact .inl (if_neg hthread)
  | drift | work | ask => exact .inl rfl

/-! ## Worlds with one caller -/

/-- What a transport is set up with stays. -/
theorem setup_rule {w w' : World σ} (hrule : w.Rule w') :
    w'.transport.config = w.transport.config ∧
      w'.transport.outboundCapacity = w.transport.outboundCapacity ∧
      w'.transport.inboundCapacity = w.transport.inboundCapacity := by
  cases hrule with
  | start _ hrule | stop _ hrule => cases hrule <;> exact ⟨rfl, rfl, rfl⟩
  | _ => exact ⟨rfl, rfl, rfl⟩

/-- A world that has been in good order all along, with one thread. -/
structure Solo (w : World σ) : Prop where
  custody : w.Custody
  alone : w.threads.length = 1
  heralded : w.Heralded

/-- The thread has begun a start or a stop, and this is left of it. -/
structure Calls (w : World σ) (resume : Procedure → Activity) (call : Procedure) : Prop where
  threads : w.threads = [resume call]
  resume : resume = .starting ∨ resume = .stopping

namespace Solo

variable {w : World σ} {resume : Procedure → Activity} {call : Procedure}

theorem rule {w' : World σ} (h : w.Solo) (hrule : w.Rule w') : w'.Solo where
  custody := custody_rule h.custody (isOrderly_of_alone h.alone) hrule
  alone := (length_threads_rule hrule).trans h.alone
  heralded := heralded_rule h.custody.unshared hrule h.heralded

theorem startStage (h : w.Solo) (hcall : w.Calls .starting call) : w.StartStage call := by
  apply h.custody.sound.starting call
  rw [hcall.threads]
  exact List.mem_cons_self

theorem stage (h : w.Solo) (hcall : w.Calls resume call) : w.Stage call := by
  have hthread : w.threads[0]? = some (resume call) := by
    rw [hcall.threads]
    rfl
  apply h.custody.sound.stage hthread
  rcases hcall.resume with rfl | rfl <;> rfl

/-- When the worker is gone for whose exit the thread waits, the signal of it is there. -/
theorem raised_of_gone (h : w.Solo) (hcall : w.Calls resume call) {id : Nat}
    (hholds : call.holds? = some id) {run : Run} (hrun : w.transport.runs[id]? = some run)
    (hgone : run.worker.IsGone) : run.shared.stop.exit = .raised := by
  have hheld : (resume call).holds? = some id := by
    rcases hcall.resume with rfl | rfl <;> exact hholds
  have hthread : w.threads[0]? = some (resume call) := by
    rw [hcall.threads]
    rfl
  have hc : w.course? id = some ⟨run.worker, run.shared, w.history id⟩ := by simp [course?, hrun]
  exact h.heralded id _ (.held hthread hheld) hc hgone

theorem gone_of_raised (h : w.Solo) {id : Nat} {run : Run}
    (hrun : w.transport.runs[id]? = some run) (hraised : run.shared.stop.exit = .raised) :
    run.worker.IsGone := by
  have hc : w.course? id = some ⟨run.worker, run.shared, w.history id⟩ := by simp [course?, hrun]
  exact (h.custody.courses id _ hc).gone_of_raised hraised

theorem fresh (config : LinkConfig) (outbound inbound : Nat) (net : σ) :
    (World.fresh config outbound inbound 1 net).Solo where
  custody := custody_fresh config outbound inbound 1 net
  alone := rfl
  heralded := heralded_fresh config outbound inbound 1 net

variable [Connector σ]

theorem step (h : w.Solo) (move : Move σ) : (w.step move).Solo :=
  h.rule (w.step_rule move)

theorem run (h : w.Solo) (moves : List (Move σ)) : (w.run moves).Solo :=
  run_induction h (fun _ move h => h.step move) moves

end Solo

/-! ## Steps of a call -/

/-- The result of a start or a stop that is over. -/
def result? (w : World σ) : Option (Except TransportError Unit) :=
  match w.threads with
  | [.starting (.finished result)] | [.stopping (.finished result)] => some result
  | _ => none

variable {w : World σ} {resume : Procedure → Activity} {call : Procedure}

theorem Calls.result?_eq_some_iff (h : w.Calls resume call) {result : Except TransportError Unit} :
    w.result? = some result ↔ call = .finished result := by
  rw [result?, h.threads]
  rcases h.resume with rfl | rfl <;> cases call <;> simp

theorem Calls.not_finished (h : w.Calls resume call) (hopen : w.result? = none)
    (result : Except TransportError Unit) : call ≠ .finished result := by
  intro heq
  simp [h.result?_eq_some_iff.mpr heq] at hopen

/-- The books and the threads are as they were. -/
structure Still (w w' : World σ) : Prop where
  threads : w'.threads = w.threads
  length : w'.transport.runs.length = w.transport.runs.length
  running : w'.transport.running = w.transport.running
  detached : w'.transport.detached = w.transport.detached

theorem Still.refl (w : World σ) : w.Still w :=
  ⟨rfl, rfl, rfl, rfl⟩

theorem Still.trans {w w' w'' : World σ} (h : w.Still w') (h' : w'.Still w'') : w.Still w'' :=
  ⟨h'.threads.trans h.threads, h'.length.trans h.length, h'.running.trans h.running,
    h'.detached.trans h.detached⟩

theorem Calls.of_still {w' : World σ} (h : w.Calls resume call) (hstill : w.Still w') :
    w'.Calls resume call :=
  ⟨hstill.threads.trans h.threads, h.resume⟩

theorem Calls.result?_eq_none (h : w.Calls resume call)
    (hcall : ∀ result, call ≠ .finished result) : w.result? = none :=
  Option.eq_none_iff_forall_ne_some.mpr fun result hresult =>
    hcall result (h.result?_eq_some_iff.mp hresult)

variable [Connector σ]

theorem calls_of_start (h : w.threads = [.idle]) (uri : String) :
    (w.step (.ask 0 (.start uri))).Calls .starting (.reap uri) :=
  ⟨by simp [step, h, begin, turn, Procedure.start], .inl rfl⟩

theorem calls_of_stop (h : w.threads = [.idle]) :
    (w.step (.ask 0 .stop)).Calls .stopping .take :=
  ⟨by simp [step, h, begin, turn, Procedure.stop], .inr rfl⟩

/-- The thread makes the next step of its call. -/
theorem Calls.go (h : w.Calls resume call) (hopen : w.result? = none) (now : Instant)
    (expired : Bool) :
    ∃ next, (w.step (.go 0 now expired)).Calls resume next ∧
      w.transport.Rule now (waker 0) call (w.step (.go 0 now expired)).transport next := by
  have hrule := w.transport.stepCall_rule now (waker 0) call
  have hcall := h.not_finished hopen
  refine ⟨(w.transport.stepCall now (waker 0) call).2, ⟨?_, h.resume⟩, ?_⟩
  · rcases h.resume with rfl | rfl <;> cases call <;>
      simp_all [step, h.threads, advance, proceed, turn]
  · have hstep : (w.step (.go 0 now expired)).transport =
        (w.transport.stepCall now (waker 0) call).1 := by
      rcases h.resume with rfl | rfl <;> cases call <;>
        simp_all [step, h.threads, advance, proceed]
    rw [hstep]
    exact hrule

/-- While the thread rests in a call, workers and network leave the books alone. -/
theorem Calls.still (h : w.Calls resume call) {move : Move σ} (hquiet : move.moment? = none) :
    w.Still (w.step move) := by
  cases move with
  | drift net => exact ⟨rfl, rfl, rfl, rfl⟩
  | work id now =>
      cases hrun : w.transport.runs[id]? with
      | none => simpa [step, work, hrun] using Still.refl w
      | some run =>
          constructor <;> simp [step, work, hrun, Transport.stepWorker, Transport.updateRun, record]
  | ask thread request =>
      have hsame : w.step (.ask thread request) = w := by
        cases thread <;> rcases h.resume with rfl | rfl <;> simp [step, h.threads]
      rw [hsame]
      exact .refl w
  | go thread now expired =>
      cases thread with
      | zero => cases hquiet
      | succ thread =>
          have hsame : w.step (.go (thread + 1) now expired) = w := by simp [step, h.threads]
          rw [hsame]
          exact .refl w

theorem Calls.still_run (h : w.Calls resume call) {quiet : List (Move σ)}
    (hquiet : moments quiet = []) : w.Still (w.run quiet) := by
  induction quiet generalizing w with
  | nil => exact .refl w
  | cons move quiet ih =>
      rcases quiet_or_go move with hmove | ⟨now, expired, rfl⟩
      · have hstill := h.still hmove
        rw [moments_of_quiet hmove] at hquiet
        exact hstill.trans (ih (h.of_still hstill) hquiet)
      · cases hquiet

/-! ## Calls that are not over -/

/-- In some moves the call that the thread is in does not come to its end. -/
def Unanswered (w : World σ) (moves : List (Move σ)) : Prop :=
  ∀ front, front <+: moves → (w.run front).result? = none

theorem Unanswered.now {moves : List (Move σ)} (h : w.Unanswered moves) : w.result? = none :=
  h [] List.nil_prefix

theorem Unanswered.tail {move : Move σ} {moves : List (Move σ)}
    (h : w.Unanswered (move :: moves)) : (w.step move).Unanswered moves :=
  fun front hfront => h (move :: front) (List.prefix_cons_inj move |>.mpr hfront)

theorem Unanswered.append {front back : List (Move σ)} (h : w.Unanswered (front ++ back)) :
    w.Unanswered front ∧ (w.run front).Unanswered back := by
  constructor
  · exact fun start hstart => h start (hstart.trans (List.prefix_append _ _))
  · intro start hstart
    rw [← run_append]
    exact h _ ((List.prefix_append_right_inj front).mpr hstart)

/-- The call that the thread is in comes to its end with the last of some moves. -/
def Answers (w : World σ) (moves : List (Move σ)) (result : Except TransportError Unit) : Prop :=
  (w.run moves).result? = some result ∧
    ∀ front, front <+: moves → front ≠ moves → (w.run front).result? = none

theorem forall_prefix_iff {α : Type} {p : List α → Prop} (l : List α) :
    (∀ front, front <+: l → front ≠ l → p front) ↔ ∀ n, n < l.length → p (l.take n) := by
  constructor
  · intro h n hn
    have hpart := List.take_prefix n l
    refine h _ hpart fun heq => ?_
    have hlength := congrArg List.length heq
    rw [List.length_take] at hlength
    omega
  · intro h front hfront hne
    rw [List.prefix_iff_eq_take.mp hfront]
    refine h _ (Nat.lt_of_le_of_ne hfront.length_le fun hlength => ?_)
    exact hne (hfront.eq_of_length hlength)

instance (w : World σ) (moves : List (Move σ)) (result : Except TransportError Unit) :
    Decidable (w.Answers moves result) :=
  decidable_of_iff ((w.run moves).result? = some result ∧
    ∀ n, n < moves.length → (w.run (moves.take n)).result? = none)
    (and_congr_right fun _ =>
      (forall_prefix_iff (p := fun front => (w.run front).result? = none) moves).symm)

theorem Answers.unanswered {front back : List (Move σ)} {result : Except TransportError Unit}
    (h : w.Answers (front ++ back) result) (hback : back ≠ []) : w.Unanswered front := by
  intro start hstart
  refine h.2 start (hstart.trans (List.prefix_append _ _)) ?_
  rintro rfl
  have hlength := hstart.length_le
  rw [List.length_append] at hlength
  have := List.length_pos_iff.mpr hback
  omega

theorem Answers.drop {front back : List (Move σ)} {result : Except TransportError Unit}
    (h : w.Answers (front ++ back) result) : (w.run front).Answers back result := by
  refine ⟨run_append w front back ▸ h.1, fun start hstart hne => ?_⟩
  rw [← run_append]
  refine h.2 _ ((List.prefix_append_right_inj front).mpr hstart) ?_
  exact fun heq => hne (List.append_cancel_left heq)

theorem Answers.tail {move : Move σ} {moves : List (Move σ)} {result : Except TransportError Unit}
    (h : w.Answers (move :: moves) result) : (w.step move).Answers moves result := by
  rw [← List.singleton_append] at h
  exact h.drop

theorem Answers.eq_of_result? {moves : List (Move σ)} {result result' : Except TransportError Unit}
    (h : w.Answers moves result) (hresult : w.result? = some result') : result = result' := by
  cases moves with
  | nil => exact Option.some.inj (h.1.symm.trans hresult)
  | cons move moves =>
      have hnone := h.2 [] List.nil_prefix (List.cons_ne_nil move moves).symm
      simp [run, hresult] at hnone

theorem Answers.now {result : Except TransportError Unit} (h : w.result? = some result) :
    w.Answers [] result :=
  ⟨h, fun _ hfront hne => absurd (List.prefix_nil.mp hfront) hne⟩

theorem Answers.cons {move : Move σ} {moves : List (Move σ)} {result : Except TransportError Unit}
    (h : (w.step move).Answers moves result) (hopen : w.result? = none) :
    w.Answers (move :: moves) result := by
  refine ⟨h.1, fun front hfront hne => ?_⟩
  cases front with
  | nil => exact hopen
  | cons first front =>
      obtain ⟨rfl, hrest⟩ := List.cons_prefix_cons.mp hfront
      exact h.2 front hrest fun heq => hne (congrArg _ heq)

theorem unanswered_or_answers (w : World σ) (moves : List (Move σ)) :
    w.Unanswered moves ∨ ∃ front result, front <+: moves ∧ w.Answers front result := by
  induction moves generalizing w with
  | nil =>
      cases hresult : w.result? with
      | none =>
          left
          intro front hfront
          rw [List.prefix_nil.mp hfront]
          exact hresult
      | some result => exact .inr ⟨[], result, List.nil_prefix, .now hresult⟩
  | cons move moves ih =>
      cases hresult : w.result? with
      | none =>
          rcases ih (w.step move) with hopen | ⟨front, result, hfront, h⟩
          · left
            intro front hfront
            cases front with
            | nil => exact hresult
            | cons first front =>
                obtain ⟨rfl, hrest⟩ := List.cons_prefix_cons.mp hfront
                exact hopen front hrest
          · exact .inr ⟨move :: front, result, (List.prefix_cons_inj move).mpr hfront,
              h.cons hresult⟩
      | some result => exact .inr ⟨[], result, List.nil_prefix, .now hresult⟩

end World

/-! ## Calls come to their end -/

namespace Transport

/-- How many looks a caller is away from the end of a wait that is over. -/
def ExitStage.length : ExitStage → Nat
  | .timer => 1
  | .signal => 2
  | .flag | .asleep => 3

theorem ExitStage.length_pos (stage : ExitStage) : 0 < stage.length := by
  cases stage <;> decide

namespace Procedure

/-- A bound on the steps that are left when no wait has to be begun anew. -/
def length : Procedure → Nat
  | .finished _ => 0
  | .launch _ => 1
  | .reap _ => 5
  | .take => 15
  | .write _ writes next => writes.length + 1 + next.length
  | .await _ _ stage exited late => stage.length + max exited.length late.length
  | .detach _ next => next.length + 1

/-- Whether no timer is set. -/
def isUntimed : Procedure → Bool
  | .finished _ | .launch _ | .reap _ | .take => true
  | .write _ _ next | .detach _ next => next.isUntimed
  | .await _ alarm _ exited late => alarm.isNone && exited.isUntimed && late.isUntimed

/-- Whether every wait that is left ends by some moment at the latest. -/
def endsBy (deadline : Instant) : Procedure → Bool
  | .finished _ | .launch _ => true
  | .reap _ | .take => false
  | .write _ _ next | .detach _ next => next.endsBy deadline
  | .await _ alarm _ exited late =>
    alarm.any (· ≤ deadline) && exited.endsBy deadline && late.endsBy deadline

end Procedure

variable {t t' : Transport} {now deadline : Instant} {caller : Waker} {call next : Procedure}

/-- Every step brings a call nearer to its end and sets no timer, but one: the caller goes to sleep
until the grace period is over. -/
theorem length_rule (hrule : t.Rule now caller call t' next)
    (hcall : ∀ result, call ≠ .finished result) :
    (next.length < call.length ∧ (call.isUntimed = true → next.isUntimed = true)) ∨
      ∃ id alarm exited late,
        call = .await id alarm .timer exited late ∧ now < alarm.getD (now + t.grace) ∧
        next = .await id (some (alarm.getD (now + t.grace))) .asleep exited late := by
  cases hrule with
  | arm _ hdue => exact .inr ⟨_, _, _, _, rfl, hdue, rfl⟩
  | «over» => exact absurd rfl (hcall _)
  | @lost _ _ stage =>
      have := stage.length_pos
      left
      simp only [Procedure.length, Procedure.isUntimed, Bool.and_eq_true]
      exact ⟨by omega, And.right⟩
  | _ =>
      left
      constructor
      · simp [Procedure.length, ExitStage.length, Procedure.stopRun, Procedure.awaitExit,
          Procedure.conclude, Write.publish]
        try omega
      · simp +contextual [Procedure.isUntimed, Procedure.stopRun, Procedure.awaitExit,
          Procedure.conclude]

theorem Procedure.length_pos (hcall : ∀ result, call ≠ .finished result) : 0 < call.length := by
  cases call with
  | finished result => exact absurd rfl (hcall result)
  | await _ _ stage => exact Nat.add_pos_left stage.length_pos _
  | _ => simp only [length]; omega

theorem endsBy_rule (hrule : t.Rule now caller call t' next)
    (h : call.endsBy deadline = true) : next.endsBy deadline = true := by
  cases hrule with
  | arm =>
      simp only [Procedure.endsBy, Bool.and_eq_true] at h ⊢
      obtain ⟨⟨halarm, hexited⟩, hlate⟩ := h
      obtain ⟨due, rfl, hdue⟩ := (Option.any_eq_true _ _).mp halarm
      exact ⟨⟨by simpa using hdue, hexited⟩, hlate⟩
  | _ => simp_all [Procedure.endsBy]

end Transport

namespace World

open Transport (Procedure)

/-- More steps than a start or a stop takes besides its wait. -/
def longestCall : Nat := 15

variable {σ : Type} {w : World σ} {resume : Procedure → Activity} {call : Procedure}
  {deadline : Instant}

theorem Stage.length_le (h : w.Stage call) : call.length ≤ longestCall := by
  rcases h with h | h
  · cases h with
    | @await _ _ _ stage =>
        cases stage <;> simp [Procedure.length, Transport.ExitStage.length, longestCall]
    | _ => simp [Procedure.length, longestCall]
  · cases h with
    | ask _ hxs =>
        have := hxs.length_le
        simp [Procedure.length, Transport.ExitStage.length, longestCall, Procedure.awaitExit,
          Procedure.conclude, Write.publish] at this ⊢
        omega
    | @await _ _ stage =>
        cases stage <;>
          simp [Procedure.length, Transport.ExitStage.length, longestCall, Procedure.conclude,
            Write.publish]
    | conclude _ _ hxs =>
        have := hxs.length_le
        simp [Procedure.length, longestCall, Write.publish] at this ⊢
        omega
    | _ => simp [Procedure.length, longestCall, Procedure.conclude, Write.publish]

/-- After its wait neither a start nor a stop waits again. -/
theorem Stage.endsBy {id : Nat} {alarm : Option Instant} {stage : Transport.ExitStage}
    {exited late : Procedure} (h : w.Stage (.await id alarm stage exited late))
    (deadline : Instant) :
    exited.endsBy deadline = true ∧ late.endsBy deadline = true := by
  rcases h with h | h <;> cases h <;> exact ⟨rfl, rfl⟩

variable [Connector σ]

theorem setup_run (w : World σ) (moves : List (Move σ)) :
    (w.run moves).transport.config = w.transport.config ∧
      (w.run moves).transport.outboundCapacity = w.transport.outboundCapacity ∧
      (w.run moves).transport.inboundCapacity = w.transport.inboundCapacity := by
  refine run_induction (P := fun v => v.transport.config = w.transport.config ∧
    v.transport.outboundCapacity = w.transport.outboundCapacity ∧
    v.transport.inboundCapacity = w.transport.inboundCapacity) ⟨rfl, rfl, rfl⟩ ?_ moves
  rintro v move ⟨hconfig, houtbound, hinbound⟩
  obtain ⟨hconfig', houtbound', hinbound'⟩ := setup_rule (v.step_rule move)
  exact ⟨hconfig'.trans hconfig, houtbound'.trans houtbound, hinbound'.trans hinbound⟩

theorem grace_step (w : World σ) (move : Move σ) :
    (w.step move).transport.grace = w.transport.grace := by
  rw [Transport.grace, Transport.grace, (setup_rule (w.step_rule move)).1]

/-- When every wait ends by the deadline, it stays so, and from the deadline on every step brings
the call nearer to its end. -/
theorem Calls.run_of_endsBy (h : w.Calls resume call) {moves : List (Move σ)}
    (hopen : w.Unanswered moves) (hends : call.endsBy deadline = true) :
    ∃ next, (w.run moves).Calls resume next ∧ next.endsBy deadline = true ∧
      ((∀ now ∈ moments moves, deadline ≤ now) →
        next.length + (moments moves).length ≤ call.length) := by
  induction moves generalizing w call with
  | nil => exact ⟨call, h, hends, fun _ => Nat.le_refl _⟩
  | cons move moves ih =>
      rcases quiet_or_go move with hquiet | ⟨now, expired, rfl⟩
      · rw [moments_of_quiet hquiet]
        exact ih (h.of_still (h.still hquiet)) hopen.tail hends
      · rw [moments_go]
        obtain ⟨next, hnext, hrule⟩ := h.go hopen.now now expired
        have hlength := Transport.length_rule hrule (h.not_finished hopen.now)
        obtain ⟨last, hlast, hends', hle⟩ :=
          ih hnext hopen.tail (Transport.endsBy_rule hrule hends)
        refine ⟨last, hlast, hends', fun hlate => ?_⟩
        obtain ⟨hnow, hlater⟩ := List.forall_mem_cons.mp hlate
        have hle := hle hlater
        rw [List.length_cons]
        rcases hlength with ⟨hlt, -⟩ | ⟨id, alarm, exited, late, rfl, hdue, -⟩
        · omega
        · -- The grace period is over, so it does not go on.
          simp only [Procedure.endsBy, Bool.and_eq_true] at hends
          obtain ⟨due, rfl, hend⟩ := (Option.any_eq_true _ _).mp hends.1.1
          exact absurd (Nat.le_trans (of_decide_eq_true hend) hnow) (Nat.not_le_of_lt hdue)

/-- As long as a wait that is begun ends by the deadline, a call comes to stand where every wait
ends by then, or nearer to its end with every step. -/
theorem Calls.run_of_early (hw : w.Solo) (h : w.Calls resume call) {moves : List (Move σ)}
    (hopen : w.Unanswered moves) (huntimed : call.isUntimed = true)
    (hearly : ∀ now ∈ moments moves, now + w.transport.grace ≤ deadline) :
    ∃ next, (w.run moves).Calls resume next ∧
      (next.endsBy deadline = true ∨ next.length + (moments moves).length ≤ call.length) := by
  induction moves generalizing w call with
  | nil => exact ⟨call, h, .inr (Nat.le_refl _)⟩
  | cons move moves ih =>
      rcases quiet_or_go move with hquiet | ⟨now, expired, rfl⟩
      · rw [moments_of_quiet hquiet] at hearly ⊢
        exact ih (hw.step move) (h.of_still (h.still hquiet)) hopen.tail huntimed
          (by rwa [grace_step])
      · rw [moments_go] at hearly ⊢
        obtain ⟨hnow, hlater⟩ := List.forall_mem_cons.mp hearly
        obtain ⟨next, hnext, hrule⟩ := h.go hopen.now now expired
        rcases Transport.length_rule hrule (h.not_finished hopen.now) with
          ⟨hlt, hkept⟩ | ⟨id, alarm, exited, late, rfl, -, rfl⟩
        · obtain ⟨last, hlast, hends | hle⟩ :=
            ih (hw.step _) hnext hopen.tail (hkept huntimed) (by rwa [grace_step])
          · exact ⟨last, hlast, .inl hends⟩
          · refine ⟨last, hlast, .inr ?_⟩
            rw [List.length_cons]
            omega
        · -- The timer is set now, and it is the only one.
          obtain ⟨hexited, hlate⟩ := (hw.stage h).endsBy deadline
          simp only [Procedure.isUntimed, Bool.and_eq_true, Option.isNone_iff_eq_none] at huntimed
          have hdue : alarm.getD (now + w.transport.grace) ≤ deadline := by
            rw [huntimed.1.1, Option.getD_none]
            exact hnow
          have hends : (Procedure.await id (some (alarm.getD (now + w.transport.grace))) .asleep
              exited late).endsBy deadline = true := by
            simp only [Procedure.endsBy, Option.any_some, hexited, hlate, hdue, decide_true,
              Bool.and_self]
          obtain ⟨last, hlast, hends, -⟩ := hnext.run_of_endsBy hopen.tail hends
          exact ⟨last, hlast, .inl hends⟩

/-- A start or a stop comes to its end: enough steps of its caller up to some moment, and as many
again when the grace period has passed since. -/
theorem Solo.answered_in_time (hw : w.Solo) (hcall : w.Calls resume call)
    (huntimed : call.isUntimed = true) {first second : List (Move σ)} {turn : Instant}
    (hfirst : ∀ now ∈ moments first, now ≤ turn) (hmany : longestCall ≤ (moments first).length)
    (hsecond : ∀ now ∈ moments second, turn + w.transport.grace ≤ now)
    (hmore : longestCall ≤ (moments second).length) :
    ∃ front result, front <+: first ++ second ∧ w.Answers front result := by
  apply (w.unanswered_or_answers (first ++ second)).resolve_left
  intro hopen
  have hlength := (hw.stage hcall).length_le
  obtain ⟨hbefore, hafter⟩ := hopen.append
  obtain ⟨next, hnext, hends | hle⟩ := hcall.run_of_early hw hbefore huntimed
    fun now hnow => Nat.add_le_add_right (hfirst now hnow) w.transport.grace
  · obtain ⟨last, hlast, -, hle⟩ := hnext.run_of_endsBy hafter hends
    have hpos := Procedure.length_pos (hlast.not_finished (hafter second (List.prefix_refl _)))
    have hbound := (hw.run first).stage hnext |>.length_le
    have := hle hsecond
    omega
  · have := Procedure.length_pos (hnext.not_finished hafter.now)
    omega

end World

end Uplink
