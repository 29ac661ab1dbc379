import Mathlib.Data.List.Induction
import Uplink.Proofs.Transport.Caller
import Uplink.Proofs.Worker.Deeds

/-! # The strides of a worker

Each step of a worker with where it comes from and where it leads. What holds when a run is
launched, and is kept by the strides of its worker and by what others do, holds of every run of
every world. -/

namespace Uplink

/-- A step of a worker: when it is made, the worker before it, its calls, and the worker after
it. -/
structure Stride where
  now : Instant
  before : Worker
  calls : List NetCall
  after : Worker

/-- What is done in a stride. -/
def Stride.deeds (s : Stride) : List Deed :=
  s.before.doing s.calls

namespace World

variable {σ : Type}

/-! ## Launches -/

/-- A run is added by a launch, and by nothing else. -/
theorem launch_or_length {w w' : World σ} (hrule : w.Rule w') :
    (∃ uri now, w'.transport = w.transport.launch uri now) ∨
      w'.transport.runs.length ≤ w.transport.runs.length := by
  have hsame {t : Transport} (f : Run → Run) (id : Nat)
      (ht : t.runs = w.transport.runs.modify id f) :
      t.runs.length ≤ w.transport.runs.length :=
    Nat.le_of_eq (by rw [ht, List.length_modify])
  cases hrule with
  | work net hrun => exact .inr (hsame _ _ rfl)
  | start _ hrule | stop _ hrule =>
      cases hrule with
      | launch => exact .inl ⟨_, _, rfl⟩
      | write | signalled | unsignalled => exact .inr (hsame _ _ rfl)
      | _ => exact .inr (Nat.le_refl _)
  | push | pop | parkSender | parkReceiver => exact .inr (hsame _ _ rfl)
  | _ => exact .inr (Nat.le_refl _)

/-- A run that was not there before has just been launched and is in progress. -/
theorem fresh_of_none {w w' : World σ} (hw : w.Sound) (hrule : w.Rule w') {id : Nat} {c : Course}
    (hnone : w.course? id = none) (hc : w'.course? id = some c) :
    w'.transport.running = some id ∧
      ∃ uri now, c = .fresh uri w.transport.config w.transport.outboundCapacity
        w.transport.inboundCapacity now := by
  have hlt := lt_of_course? hc
  have hle : w.transport.runs.length ≤ id := by
    apply Nat.le_of_not_lt
    intro hold
    obtain ⟨d, hd⟩ := exists_course? hold
    rw [hnone] at hd
    cases hd
  rcases launch_or_length hrule with ⟨uri, now, hlaunch⟩ | hlength
  · have hid : id = w.transport.runs.length := by
      simp only [hlaunch, Transport.launch, List.length_append, List.length_singleton] at hlt
      omega
    subst hid
    have hborn := course?_of_launch hw hrule hlaunch
    refine ⟨by rw [hlaunch]; rfl, uri, now, ?_⟩
    exact Option.some.inj (hc.symm.trans hborn)
  · omega

variable [Connector σ]

/-! ## Strides in a world -/

/-- What the worker of a run does in one move. -/
def stride (w : World σ) (id : Nat) : Move σ → List Stride
  | .work run now =>
    if run = id then
      w.transport.runs[id]?.elim [] fun r =>
        let next := r.worker.step r.shared (Recorded.blank w.net) now
        [⟨now, r.worker, next.2.2.calls, next.1⟩]
    else []
  | .drift _ | .ask _ _ | .go _ _ _ => []

/-- What the worker of a run does in some moves. -/
def strides (id : Nat) (w : World σ) : List (Move σ) → List Stride
  | [] => []
  | move :: moves => w.stride id move ++ (w.step move).strides id moves

theorem strides_append (id : Nat) (w : World σ) (front back : List (Move σ)) :
    w.strides id (front ++ back) = w.strides id front ++ (w.run front).strides id back := by
  induction front generalizing w with
  | nil => rfl
  | cons move front ih =>
      rw [List.cons_append, strides, strides, ih, List.append_assoc]
      rfl

theorem strides_concat (id : Nat) (w : World σ) (moves : List (Move σ)) (move : Move σ) :
    w.strides id (moves ++ [move]) = w.strides id moves ++ (w.run moves).stride id move := by
  rw [strides_append, strides, strides, List.append_nil]

theorem deeds_stride (w : World σ) (id : Nat) (move : Move σ) :
    (w.stride id move).flatMap Stride.deeds = w.doing id move := by
  cases move with
  | work run now =>
      by_cases hrun : run = id
      · subst hrun
        cases h : w.transport.runs[run]? <;> simp [stride, doing, h, Stride.deeds]
      · simp [stride, doing, hrun]
  | drift | ask | go => rfl

/-- The deeds of a worker are those of its strides. -/
theorem deeds_strides (id : Nat) (w : World σ) (moves : List (Move σ)) :
    (w.strides id moves).flatMap Stride.deeds = w.deeds id moves := by
  induction moves generalizing w with
  | nil => rfl
  | cons move moves ih => rw [strides, List.flatMap_append, deeds_stride, ih, deeds]

theorem stride_of_none {w : World σ} {id : Nat} (hnone : w.course? id = none) (move : Move σ) :
    w.stride id move = [] := by
  cases move with
  | work run now =>
      have hrun : w.transport.runs[id]? = none := Option.map_eq_none_iff.mp hnone
      simp [stride, hrun]
  | drift | ask | go => rfl

/-! ## Every run of every world -/

/-- One move takes a run on by a stride of its worker, or leaves its worker as it was. -/
theorem stride_step {w : World σ} {id : Nat} {c d : Course} (hc : w.course? id = some c)
    (move : Move σ) (hd : (w.step move).course? id = some d) :
    (∃ now worker shared h, c.worker.Rule now c.shared h worker shared ∧
      d = ⟨worker, shared, c.history ++ h⟩ ∧
      w.stride id move = [⟨now, c.worker, h.calls, worker⟩] ∧
      (w.step move).transport.running = w.transport.running ∧
      (w.step move).threads = w.threads) ∨
    w.stride id move = [] ∧ d.worker = c.worker := by
  by_cases hmove : ∃ now, move = .work id now
  · left
    obtain ⟨now, rfl⟩ := hmove
    obtain ⟨run, hrun, rfl⟩ := Option.map_eq_some_iff.mp hc
    have hrule := run.worker.step_rule now run.shared w.net
    refine ⟨now, _, _, _, hrule, ?_, ?_, ?_, ?_⟩
    · refine Option.some.inj (hd.symm.trans ?_)
      simp only [step, work, hrun, Transport.stepWorker, Transport.updateRun, record]
      rw [course?_of_modify]
      simp [hrun]
    · simp [stride, hrun, Worker.calls_marks]
    · simp [step, work, hrun, Transport.stepWorker, Transport.updateRun, record]
    · simp [step, work, hrun, record]
  · right
    have hmove : ∀ now, move ≠ .work id now := fun now h => hmove ⟨now, h⟩
    constructor
    · cases move with
      | work run now =>
          have hrun : run ≠ id := fun hrun => hmove now (hrun ▸ rfl)
          simp [stride, hrun]
      | drift | ask | go => rfl
    · have hstill := worker?_step hmove (worker?_of_course? hc)
      exact Option.some.inj ((worker?_of_course? hd).symm.trans hstill)

variable {config : LinkConfig} {outbound inbound threads : Nat} {net : σ} {id : Nat}

/-- What holds of a run at its launch, and is kept by the strides of its worker and by what others
do, holds of it ever after. -/
theorem course_induction {P : World σ → List Stride → Course → Prop}
    (hfresh : ∀ w uri now, w.transport.running = some id →
      P w [] (.fresh uri config outbound inbound now))
    (hwork : ∀ w w' strides c now worker shared h, c.Reachable →
      c.worker.Rule now c.shared h worker shared →
      w'.transport.running = w.transport.running → w'.threads = w.threads → P w strides c →
      P w' (strides ++ [⟨now, c.worker, h.calls, worker⟩]) ⟨worker, shared, c.history ++ h⟩)
    (hothers : ∀ w w' strides c d, w.Sound → c.Reachable → w.Rule w' →
      w.course? id = some c → w'.course? id = some d → d.worker = c.worker →
      P w strides c → P w' strides d)
    (moves : List (Move σ)) {c : Course}
    (hc : ((fresh config outbound inbound threads net).run moves).course? id = some c) :
    P ((fresh config outbound inbound threads net).run moves)
      ((fresh config outbound inbound threads net).strides id moves) c := by
  let start := fresh config outbound inbound threads net
  have hsound : start.Sound := sound_fresh config outbound inbound threads net
  -- As long as the run is not there its worker makes no stride.
  suffices hboth : ((start.run moves).course? id = none → start.strides id moves = []) ∧
      ∀ c, (start.run moves).course? id = some c →
        P (start.run moves) (start.strides id moves) c from hboth.2 c hc
  clear hc
  induction moves using List.reverseRecOn with
  | nil => exact ⟨fun _ => rfl, fun c hc => by simp [start, fresh, run, course?] at hc⟩
  | append_singleton moves move ih =>
      have hw : (start.run moves).Sound := hsound.run moves
      have hrule := (start.run moves).step_rule move
      have hrun : start.run (moves ++ [move]) = (start.run moves).step move :=
        run_append start moves [move]
      rw [hrun, strides_concat]
      cases hbefore : (start.run moves).course? id with
      | none =>
          rw [ih.1 hbefore, stride_of_none hbefore]
          refine ⟨fun _ => rfl, ?_⟩
          intro c hc
          obtain ⟨hrunning, uri, now, rfl⟩ := fresh_of_none hw hrule hbefore hc
          obtain ⟨hconfig, houtbound, hinbound⟩ := setup_run start moves
          rw [hconfig, houtbound, hinbound]
          exact hfresh _ uri now hrunning
      | some c =>
          constructor
          · intro hnone
            have hfollows := follows_rule hw hrule id
            rw [hbefore] at hfollows
            obtain ⟨d, hd, -⟩ := hfollows.exists_of_some
            rw [hnone] at hd
            cases hd
          · intro d hd
            have hreach : c.Reachable := reachable_course config outbound inbound threads net
              moves hbefore
            have hP := ih.2 c hbefore
            rcases stride_step hbefore move hd with
              ⟨now, worker, shared, h, hworker, rfl, hstride, hrunning, hthreads⟩ |
              ⟨hstride, hstill⟩
            · rw [hstride]
              exact hwork _ _ _ _ _ _ _ _ hreach hworker hrunning hthreads hP
            · rw [hstride, List.append_nil]
              exact hothers _ _ _ _ _ hw hreach hrule hbefore hd hstill hP

end World

end Uplink
