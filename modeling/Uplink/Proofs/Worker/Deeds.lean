import Uplink.Proofs.Worker.Reception

/-! # The deeds of a worker

What a worker does that others can tell: its calls to connector and links, and its writes to the
block of its run, in one order. -/

namespace Uplink

/-- Something that a worker does. -/
inductive Deed
  | called (call : NetCall)
  | wrote (x : Write)

def Deed.call? : Deed → Option NetCall
  | .called call => some call
  | .wrote _ => none

/-- The calls among some deeds. -/
def Deed.calls (deeds : List Deed) : List NetCall :=
  deeds.filterMap Deed.call?

@[simp] theorem Deed.calls_append (deeds more : List Deed) :
    calls (deeds ++ more) = calls deeds ++ calls more :=
  List.filterMap_append

@[simp] theorem Deed.calls_called (calls : List NetCall) :
    Deed.calls (calls.map .called) = calls := by
  induction calls with
  | nil => rfl
  | cons call calls ih => exact congrArg (call :: ·) ih

@[simp] theorem Deed.calls_wrote (writes : List Write) : calls (writes.map .wrote) = [] := by
  induction writes with
  | nil => rfl
  | cons x writes ih => exact ih

@[simp] theorem Deed.mem_wrote {x : Write} {calls : List NetCall} {writes : List Write} :
    Deed.wrote x ∈ calls.map Deed.called ++ writes.map Deed.wrote ↔ x ∈ writes := by
  simp

namespace Worker

/-- The write that a worker makes in its next step, if it makes one. -/
def writing (w : Worker) : List Write :=
  match w.todo with
  | .write x :: _ => [x]
  | _ => []

theorem mem_writing {w : Worker} {x : Write} (h : x ∈ w.writing) : .write x ∈ w.todo := by
  unfold writing at h
  split at h
  · next todo htodo =>
      rw [htodo, List.mem_singleton.mp h]
      exact List.mem_cons_self
  · simp at h

theorem calls_marks (w : Worker) (s : Shared) : (w.marks s).calls = [] := by
  unfold marks
  split
  · split <;> rfl
  · split <;> rfl
  · rfl

/-- What is done in a step with these calls. -/
def doing (w : Worker) (calls : List NetCall) : List Deed :=
  calls.map .called ++ w.writing.map .wrote

@[simp] theorem calls_doing (w : Worker) (calls : List NetCall) :
    Deed.calls (w.doing calls) = calls := by
  simp [doing]

/-- A step that leaves a worker as it was makes no call. -/
theorem calls_of_still {now : Instant} {w w' : Worker} {s s' : Shared} {h : History}
    (hrule : w.Rule now s h w' s') (hstill : w' = w) : h.calls = [] := by
  have hphase := congrArg Worker.phase hstill
  have htodo := congrArg Worker.todo hstill
  cases hrule with
  | hangUp | connect | overtaken | quiet | event | probe | transmit => simp_all
  | _ => simp

end Worker

/-! ## A stretch of a run -/

namespace Course

/-- From the course `c` the run comes to a later course. Meanwhile its worker makes so many steps,
with these deeds, and others make theirs. -/
inductive Runs (c : Course) : List Deed → Nat → Course → Prop
  | refl : Runs c [] 0 c
  | work {deeds steps d now worker shared h} (hruns : Runs c deeds steps d)
      (hrule : d.worker.Rule now d.shared h worker shared) :
      Runs c (deeds ++ d.worker.doing h.calls) (steps + 1) ⟨worker, shared, d.history ++ h⟩
  | others {deeds steps d e} (hruns : Runs c deeds steps d) (hstep : d.Evolves e)
      (hworker : e.worker = d.worker) (hcalls : e.history.calls = d.history.calls) :
      Runs c deeds steps e

variable {c d e : Course} {deeds more : List Deed} {steps count : Nat}

theorem Runs.trans (h : Runs c deeds steps d) (h' : Runs d more count e) :
    Runs c (deeds ++ more) (steps + count) e := by
  induction h' with
  | refl => simpa using h
  | work _ hrule ih =>
      rw [← List.append_assoc, ← Nat.add_assoc]
      exact ih.work hrule
  | others _ hstep hworker hcalls ih => exact ih.others hstep hworker hcalls

theorem Runs.reachable (h : Runs c deeds steps d) (hc : c.Reachable) : d.Reachable := by
  induction h with
  | refl => exact hc
  | work _ hrule ih => exact ih.next (.work hrule)
  | others _ hstep _ _ ih => exact ih.next hstep

theorem Runs.isRequested (h : Runs c deeds steps d) (hc : c.shared.stop.isRequested = true) :
    d.shared.stop.isRequested = true := by
  induction h with
  | refl => exact hc
  | work _ hrule ih => exact Evolves.isRequested (.work hrule) ih
  | others _ hstep _ _ ih => exact hstep.isRequested ih

/-- What others do adds no call. -/
theorem calls_of_others (h : c.Evolves d) (hworker : d.worker = c.worker) :
    d.history.calls = c.history.calls := by
  cases h with
  | @work now w s h hrule =>
      simp [Worker.calls_of_still hrule hworker]
  | _ => simp

end Course

/-! ## The deeds in a world -/

/-- Whether the worker of a run makes a step in a move. -/
def Move.isStepOf {σ : Type} (id : Nat) : Move σ → Bool
  | .work run _ => run = id
  | .drift _ | .ask _ _ | .go _ _ _ => false

namespace World

variable {σ : Type} [Connector σ]

/-- What the worker of a run does in one move. -/
def doing (w : World σ) (id : Nat) : Move σ → List Deed
  | .work run now =>
    if run = id then
      w.transport.runs[id]?.elim [] fun r =>
        r.worker.doing (r.worker.step r.shared (Recorded.blank w.net) now).2.2.calls
    else []
  | .drift _ | .ask _ _ | .go _ _ _ => []

/-- What the worker of a run does in some moves. -/
def deeds (id : Nat) (w : World σ) : List (Move σ) → List Deed
  | [] => []
  | move :: moves => w.doing id move ++ (w.step move).deeds id moves

/-- One move takes a run on by a step of its worker or by something that others do. -/
theorem runs_step {w : World σ} (hw : w.Sound) {id : Nat} {c : Course}
    (hc : w.course? id = some c) (move : Move σ) :
    ∃ d, (w.step move).course? id = some d ∧
      c.Runs (w.doing id move) (if move.isStepOf id then 1 else 0) d := by
  by_cases hmove : ∃ now, move = .work id now
  · obtain ⟨now, rfl⟩ := hmove
    obtain ⟨run, hrun, rfl⟩ := Option.map_eq_some_iff.mp hc
    have hrule := run.worker.step_rule now run.shared w.net
    have hstep := Course.Runs.work (c := ⟨run.worker, run.shared, w.history id⟩) .refl hrule
    refine ⟨_, ?_, by simpa [doing, hrun, Worker.calls_marks, Move.isStepOf] using hstep⟩
    simp only [step, work, hrun, Transport.stepWorker, Transport.updateRun, record]
    rw [course?_of_modify]
    simp [hrun]
  · have hmove : ∀ now, move ≠ .work id now := fun now h => hmove ⟨now, h⟩
    have hnone : w.doing id move = [] ∧ move.isStepOf id = false := by
      cases move with
      | work run now =>
          have hrun : run ≠ id := fun hrun => hmove now (hrun ▸ rfl)
          simp [doing, Move.isStepOf, hrun]
      | drift | ask | go => exact ⟨rfl, rfl⟩
    have hstill := worker?_step hmove (worker?_of_course? hc)
    rw [hnone.1, hnone.2]
    obtain ⟨d, hd, rfl | hstep⟩ := (hc ▸ follows_rule hw (w.step_rule move) id).exists_of_some
    · exact ⟨_, hd, .refl⟩
    · have hsame : d.worker = c.worker :=
        Option.some.inj ((worker?_of_course? hd).symm.trans hstill)
      exact ⟨d, hd, .others .refl hstep hsame (Course.calls_of_others hstep hsame)⟩

/-- Whatever is done in a world, a run that is there goes on. -/
theorem runs_run {w : World σ} (hw : w.Sound) {id : Nat} {c : Course}
    (hc : w.course? id = some c) (moves : List (Move σ)) :
    ∃ d, (w.run moves).course? id = some d ∧
      c.Runs (w.deeds id moves) (moves.countP (Move.isStepOf id)) d := by
  induction moves generalizing w c with
  | nil => exact ⟨c, hc, .refl⟩
  | cons move moves ih =>
      obtain ⟨d, hd, hstep⟩ := runs_step hw hc move
      obtain ⟨e, he, hrest⟩ := ih (sound_rule hw (w.step_rule move)) hd
      refine ⟨e, he, ?_⟩
      rw [deeds, List.countP_cons, Nat.add_comm]
      exact hstep.trans hrest

end World

end Uplink
