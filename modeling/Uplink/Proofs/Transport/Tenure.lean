import Mathlib.Data.List.Induction
import Uplink.Proofs.Transport.Caller

/-! # The run in progress

What callers see comes from the run in progress and from nothing else. A single caller lets nobody
but the worker, and itself with sends and receives, at the block of a run, until it stops the run;
and then there is no run until the next launch. -/

namespace Uplink

/-- What of a run is seen. -/
def Run.seen (run : Run) : String × Status × Nat × Nat :=
  (run.worker.uri, run.shared.status, run.shared.outbound.length, run.shared.inbound.length)

namespace Transport

/-! ## What is seen -/

/-- What callers see of a transport, taken together. -/
structure View where
  isRunning : Bool
  isConnected : Bool
  state : TransportState
  stats : LinkStats
  lastActivity? : Option Instant
  uri? : Option String
  outboundDepth : Nat
  inboundDepth : Nat

def view (t : Transport) : View :=
  ⟨t.isRunning, t.isConnected, t.state, t.stats, t.lastActivity?, t.uri?, t.outboundDepth,
    t.inboundDepth⟩

namespace View

/-- No run is in progress. -/
def stopped : View :=
  ⟨false, false, .stopped, .zero, none, none, 0, 0⟩

/-- A run has begun and its worker has done nothing yet. -/
def begun (uri : String) : View :=
  ⟨true, false, .starting, .zero, none, some uri, 0, 0⟩

end View

variable {t t' : Transport} {now : Instant} {caller : Waker} {call next : Procedure}

theorem view_congr (hrunning : t'.isRunning = t.isRunning)
    (hseen : t'.run?.map Run.seen = t.run?.map Run.seen) : t'.view = t.view := by
  cases hrun : t.run? <;> cases hrun' : t'.run? <;>
    simp_all [view, Run.seen, isConnected, state, stats, lastActivity?, uri?, outboundDepth,
      inboundDepth, shared?]

theorem view_of_not_running (h : t.running = none) : t.view = .stopped := by
  simp [view, View.stopped, isRunning, isConnected, state, stats, lastActivity?, uri?,
    outboundDepth, inboundDepth, shared?, run?, h]

theorem view_launch (t : Transport) (uri : String) (now : Instant) :
    (t.launch uri now).view = .begun uri := by
  simp [view, View.begun, isRunning, isConnected, state, stats, lastActivity?, uri?,
    outboundDepth, inboundDepth, shared?, run?, launch, Shared.fresh, Status.starting,
    Status.lastActivity?, Worker.fresh, Queue.empty, Queue.length]

/-- A look at the exit of a run is not seen. -/
theorem view_updateStop (t : Transport) (id : Nat) (stop : StopToken) :
    (t.updateShared id fun shared => { shared with stop }).view = t.view := by
  refine view_congr rfl ?_
  cases hrunning : t.running with
  | none => simp [run?, updateShared, updateRun, hrunning]
  | some j =>
      simp only [run?, updateShared, updateRun, hrunning, Option.bind_eq_bind, Option.bind_some,
        List.getElem?_modify]
      cases t.runs[j]? with
      | none => rfl
      | some run => by_cases hid : id = j <;> simp [Run.seen, hid]

/-- A start is not seen before its launch. -/
theorem view_rule (hrule : t.Rule now caller call t' next) (htake : call ≠ .take)
    (hwrite : ∀ id writes rest, call ≠ .write id writes rest) (hnext : next ≠ .finished (.ok ())) :
    t'.view = t.view := by
  cases hrule with
  | launch => exact absurd rfl hnext
  | take => exact absurd rfl htake
  | write => exact absurd rfl (hwrite _ _ _)
  | signalled | unsignalled => exact view_updateStop _ _ _
  | _ => rfl

end Transport

/-- What becomes of a run while no start and no stop writes to its block: its worker makes steps,
and callers send and receive. -/
inductive Course.Undisturbed (c : Course) : Course → Prop
  | refl : Undisturbed c c
  | work {d now worker shared h} (hd : Undisturbed c d)
      (hrule : d.worker.Rule now d.shared h worker shared) :
      Undisturbed c ⟨worker, shared, d.history ++ h⟩
  | push {d m outbound woken} (hd : Undisturbed c d)
      (hpush : d.shared.outbound.tryPush? m = some (outbound, woken)) :
      Undisturbed c
        ⟨d.worker, { d.shared with outbound }, d.history ++ [.passed .accepted m]⟩
  | parkSender {d} (hd : Undisturbed c d) (waker : Waker) :
      Undisturbed c
        ⟨d.worker, { d.shared with outbound := (d.shared.outbound.parkSender waker).1 }, d.history⟩
  | pop {d m inbound woken} (hd : Undisturbed c d)
      (hpop : d.shared.inbound.tryPop? = some (m, inbound, woken)) :
      Undisturbed c
        ⟨d.worker, { d.shared with inbound }, d.history ++ [.passed .received m]⟩
  | parkReceiver {d} (hd : Undisturbed c d) (waker : Waker) :
      Undisturbed c
        ⟨d.worker, { d.shared with inbound := (d.shared.inbound.parkReceiver waker).1 }, d.history⟩

theorem Worker.uri_rule {now : Instant} {w w' : Worker} {s s' : Shared} {h : History}
    (hrule : w.Rule now s h w' s') : w'.uri = w.uri := by
  cases hrule <;> rfl

theorem Course.Undisturbed.uri_eq {c d : Course} (h : c.Undisturbed d) :
    d.worker.uri = c.worker.uri := by
  induction h with
  | refl => rfl
  | work _ hrule ih => exact (Worker.uri_rule hrule).trans ih
  | push _ _ ih | parkSender _ _ ih | pop _ _ ih | parkReceiver _ _ ih => exact ih

namespace Activity

def isStopping : Activity → Bool
  | .stopping _ => true
  | _ => false

/-- A start has answered that a run has begun. -/
def hasLaunched : Activity → Bool
  | .starting (.finished (.ok ())) => true
  | _ => false

end Activity

namespace World

open Transport (Procedure)

variable {σ : Type}

/-! ## The run in progress -/

section
variable {w w' : World σ}

/-- With a run in progress none is left behind. -/
theorem Solo.one_booked (hw : w.Solo) :
    w.transport.running = none ∨ w.transport.detached = none := by
  have hle := hw.custody.kept_le
  cases hrunning : w.transport.running with
  | none => exact .inl rfl
  | some id =>
      right
      cases hdetached : w.transport.detached with
      | none => rfl
      | some j =>
          simp [kept, Transport.booked, hrunning, hdetached] at hle
          omega

theorem Solo.live_le_one (hw : w.Solo) :
    w.transport.runs.countP (fun run => !run.shared.stop.hasExited) ≤ 1 := by
  apply countP_le_one_of_last
  intro id run hrun hlive
  have hc : w.course? id = some ⟨run.worker, run.shared, w.history id⟩ := by simp [course?, hrun]
  exact hw.custody.latest id (hw.custody.keeps id _ hc (by simpa using hlive))

/-- A start that finds a run in progress leaves the transport as it is. -/
theorem Solo.start_rule_of_running (hw : w.Solo) {now : Instant} {caller : Waker} {thread : Nat}
    {call next : Procedure} {t : Transport} {id : Nat} (hrunning : w.transport.running = some id)
    (hthread : w.threads[thread]? = some (.starting call))
    (hrule : w.transport.Rule now caller call t next) : t = w.transport ∧ call.marks = [] := by
  have hnone : w.transport.detached = none := hw.one_booked.resolve_left (by simp [hrunning])
  have hfree (j : Nat) (hholds : call.holds? = some j) : False := by
    have hbooked := hw.custody.booked_eq_zero hthread hholds
    simp [Transport.booked, hrunning] at hbooked
  cases hw.custody.sound.starting call (List.mem_of_getElem? hthread) with
  | reap =>
      cases hrule with
      | nothingLeft => exact ⟨rfl, rfl⟩
      | reap hdetached => simp [hnone] at hdetached
  | await | giveBack => exact (hfree _ rfl).elim
  | launch =>
      cases hrule with
      | refuse => exact ⟨rfl, rfl⟩
      | launch hidle => simp [hrunning] at hidle
  | finished => cases hrule; exact ⟨rfl, rfl⟩

/-- As long as no stop takes it, the run in progress stays, and only its worker and those who send
and receive use its block. -/
theorem Solo.undisturbed_rule (hw : w.Solo) (hrule : w.Rule w')
    (hstop : w.threads.any (·.isStopping) = false) {id : Nat} {c d : Course}
    (hrunning : w.transport.running = some id) (hd : w.course? id = some d)
    (hc : c.Undisturbed d) :
    w'.transport.running = some id ∧ ∃ e, w'.course? id = some e ∧ c.Undisturbed e := by
  have hsame (hruns : w'.transport.runs = w.transport.runs) (hlog : w'.log = w.log) :
      ∃ e, w'.course? id = some e ∧ c.Undisturbed e := by
    refine ⟨d, ?_, hc⟩
    rw [← hd]
    simp only [course?, history, hruns, hlog]
  -- What happens to one run, this one or another.
  have hchange {j : Nat} {run : Run} {f : Run → Run} {h : History}
      (hrun : w.transport.runs[j]? = some run)
      (hruns : w'.transport.runs = w.transport.runs.modify j f)
      (hlog : w'.log = w.log ++ h.map (j, ·))
      (hstep : c.Undisturbed ⟨run.worker, run.shared, w.history j⟩ →
        c.Undisturbed ⟨(f run).worker, (f run).shared, w.history j ++ h⟩) :
      ∃ e, w'.course? id = some e ∧ c.Undisturbed e := by
    rw [course?_of_runs hruns hlog]
    split
    · next hid =>
        subst hid
        simp only [course?, hrun, Option.map_some, Option.some.injEq] at hd
        subst hd
        exact ⟨_, by rw [hrun]; rfl, hstep hc⟩
    · exact ⟨d, hd, hc⟩
  cases hrule with
  | work net hrun hrule => exact ⟨hrunning, hchange hrun rfl rfl fun hc => hc.work hrule⟩
  | start hthread hrule =>
      obtain ⟨rfl, hmarks⟩ := hw.start_rule_of_running hrunning hthread hrule
      exact ⟨hrunning, hsame rfl (by simp [hmarks])⟩
  | stop hthread =>
      rw [(eq_of_alone hw.alone hthread).2] at hstop
      cases hstop
  | push _ _ hrun hpush => exact ⟨hrunning, hchange hrun rfl rfl fun hc => hc.push hpush⟩
  | pop _ _ hrun hpop => exact ⟨hrunning, hchange hrun rfl rfl fun hc => hc.pop hpop⟩
  | @parkSender _ thread _ _ _ _ hrun =>
      refine ⟨hrunning, hchange (h := []) hrun rfl (by simp [turn, updateShared]) fun hc => ?_⟩
      rw [List.append_nil]
      exact hc.parkSender (waker thread)
  | @parkReceiver _ thread _ _ _ _ hrun =>
      refine ⟨hrunning, hchange (h := []) hrun rfl (by simp [turn, updateShared]) fun hc => ?_⟩
      rw [List.append_nil]
      exact hc.parkReceiver (waker thread)
  | _ => exact ⟨hrunning, hsame rfl rfl⟩

/-- Without a run in progress there is none in the next moment, unless a start has answered that
one has begun. -/
theorem Solo.not_running_rule (hw : w.Solo) (hrule : w.Rule w')
    (hrunning : w.transport.running = none) :
    w'.transport.running = none ∨ w'.threads.any (·.hasLaunched) = true := by
  cases hrule with
  | start hthread hrule =>
      cases hrule with
      | launch =>
          right
          show (w.threads.set _ _).any _ = true
          rw [set_of_alone hw.alone hthread]
          rfl
      | take => exact .inl rfl
      | _ => exact .inl hrunning
  | @stop _ _ call _ _ hthread hrule =>
      have hstage := hw.custody.sound.stopping call (List.mem_of_getElem? hthread)
      cases hrule with
      | launch => cases hstage
      | take => exact .inl rfl
      | _ => exact .inl hrunning
  | _ => exact .inl hrunning

/-- A stop that has begun has taken the run in progress. -/
def Takes (w : World σ) : Prop :=
  ∀ call, w.threads = [.stopping call] → call = .take ∨ w.transport.running = none

theorem takes_fresh (config : LinkConfig) (outbound inbound threads : Nat) (net : σ) :
    (fresh config outbound inbound threads net).Takes :=
  fun _ _ => .inr rfl

theorem Solo.takes_rule (hw : w.Solo) (hrule : w.Rule w') (h : w.Takes) : w'.Takes := by
  have hset {thread : Nat} {old new : Activity} (hthread : w.threads[thread]? = some old)
      (hthreads : w'.threads = w.threads.set thread new)
      (hnew : ∀ call, new = .stopping call → call = .take ∨ w'.transport.running = none) :
      w'.Takes := by
    intro call hcall
    rw [hthreads, set_of_alone hw.alone hthread] at hcall
    exact hnew call (List.singleton_inj.mp hcall)
  cases hrule with
  | rest | drift | work => exact h
  | beginStart hthread => exact hset hthread rfl nofun
  | beginStop hthread =>
      refine hset hthread rfl ?_
      rintro call ⟨⟩
      exact .inl rfl
  | beginTry hthread | finish hthread | giveUp hthread | push hthread | pop hthread
  | await hthread => exact hset hthread rfl nofun
  | parkSender hthread _ hnext | parkReceiver hthread _ hnext =>
      rcases hnext with rfl | rfl <;> exact hset hthread rfl nofun
  | start hthread => exact hset hthread rfl nofun
  | @stop _ _ call _ _ hthread hrule =>
      have hstage := hw.custody.sound.stopping call (List.mem_of_getElem? hthread)
      have hbefore := h call (eq_of_alone hw.alone hthread).2
      refine hset hthread rfl ?_
      rintro next ⟨⟩
      right
      cases hrule with
      | nothingRuns hrunning => exact hrunning
      | take => rfl
      | launch => cases hstage
      | nothingLeft | reap | refuse => cases hstage
      | _ => exact hbefore.resolve_left nofun

end

theorem uri?_of_course? {w : World σ} {id : Nat} {c : Course}
    (hrunning : w.transport.running = some id) (hc : w.course? id = some c) :
    w.transport.uri? = some c.worker.uri := by
  obtain ⟨run, hrun, rfl⟩ := Option.map_eq_some_iff.mp hc
  simp [Transport.uri?, Transport.run?, hrunning, hrun]

variable [Connector σ]

/-! ## After a call -/

/-- The thread is in no stop in some moves. -/
def Unstopped (w : World σ) (moves : List (Move σ)) : Prop :=
  ∀ front, front <+: moves → (w.run front).threads.any (·.isStopping) = false

/-- No start answers in some moves that a run has begun. -/
def Unlaunched (w : World σ) (moves : List (Move σ)) : Prop :=
  ∀ front, front <+: moves → (w.run front).threads.any (·.hasLaunched) = false

instance (w : World σ) (moves : List (Move σ)) : Decidable (w.Unlaunched moves) :=
  decidable_of_iff
    (∀ n, n < moves.length + 1 → (w.run (moves.take n)).threads.any (·.hasLaunched) = false) <| by
    constructor
    · intro h front hfront
      rw [List.prefix_iff_eq_take.mp hfront]
      exact h _ (Nat.lt_succ_of_le hfront.length_le)
    · exact fun h n _ => h _ <| List.take_prefix n moves

theorem Solo.undisturbed_run {w : World σ} (hw : w.Solo) {moves : List (Move σ)}
    (hstop : w.Unstopped moves) {id : Nat} {c : Course}
    (hrunning : w.transport.running = some id) (hc : w.course? id = some c) :
    (w.run moves).transport.running = some id ∧
      ∃ d, (w.run moves).course? id = some d ∧ c.Undisturbed d := by
  induction moves using List.reverseRecOn with
  | nil => exact ⟨hrunning, c, hc, .refl⟩
  | append_singleton moves move ih =>
      have hpart : moves <+: moves ++ [move] := List.prefix_append _ _
      obtain ⟨hstill, d, hd, hundisturbed⟩ :=
        ih fun front hfront => hstop front (hfront.trans hpart)
      rw [run_concat]
      exact (hw.run moves).undisturbed_rule (step_rule _ move) (hstop moves hpart) hstill hd
        hundisturbed

theorem Solo.not_running_run {w : World σ} (hw : w.Solo) {moves : List (Move σ)}
    (hlaunch : w.Unlaunched moves) (hrunning : w.transport.running = none) :
    (w.run moves).transport.running = none := by
  induction moves using List.reverseRecOn with
  | nil => exact hrunning
  | append_singleton moves move ih =>
      have hpart : moves <+: moves ++ [move] := List.prefix_append _ _
      have hstill := ih fun front hfront => hlaunch front (hfront.trans hpart)
      have hlast := hlaunch _ (List.prefix_refl _)
      rw [run_concat] at hlast ⊢
      rcases (hw.run moves).not_running_rule (step_rule _ move) hstill with hnone | hlaunched
      · exact hnone
      · simp [hlaunched] at hlast

theorem takes_run {w : World σ} (hw : w.Solo) (h : w.Takes) (moves : List (Move σ)) :
    (w.run moves).Takes := by
  have hinv := run_induction (P := fun w => w.Solo ∧ w.Takes) ⟨hw, h⟩ ?_ moves
  · exact hinv.2
  · rintro w move ⟨hw, h⟩
    exact ⟨hw.step move, hw.takes_rule (w.step_rule move) h⟩

end World

end Uplink
