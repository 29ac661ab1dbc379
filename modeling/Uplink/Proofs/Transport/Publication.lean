import Uplink.Proofs.Worker.Publication
import Uplink.Proofs.Worker.Windup

/-! # What a run and its stop publish

Two write to the cells of a state: the worker of the run, and the stop that has taken the run. Until
a stop has taken it the worker is alone. From then on each of the two still means to publish that
the run is stopped, whatever it writes before, so that both cells say so once both are done. -/

namespace Uplink

namespace Write

/-- Whether the cell that a write goes to shows what it writes. -/
def IsShown (status : Status) : Write → Prop
  | .state s => status.state = s
  | .connected s => status.isConnected = decide (s = .connected)
  | _ => True

theorem isShown_write (s : Shared) {x : Write} (hx : x ∈ publish .stopped) :
    x.IsShown (s.write x).status := by
  rcases List.mem_pair.mp hx with rfl | rfl <;> rfl

/-- The last writes of a worker and of a stop leave what they publish. -/
theorem IsShown.write {s : Shared} {x y : Write} (hshown : x.IsShown s.status)
    (hx : x ∈ publish .stopped)
    (hy : y ∈ lastWrites ∨ y ∈ [.clearOutbound, .clearInbound] ++ publish .stopped) :
    x.IsShown (s.write y).status := by
  have hy : y ∈ [.clearOutbound, .clearInbound] ++ lastWrites := by
    rcases hy with hy | hy
    · exact List.mem_append_right _ hy
    · rw [lastWrites, ← List.append_assoc]
      exact List.mem_append_left _ hy
  simp only [lastWrites, publish, List.cons_append, List.nil_append, List.mem_cons,
    List.not_mem_nil, or_false] at hx hy
  rcases hx with rfl | rfl <;> rcases hy with rfl | rfl | rfl | rfl | rfl | rfl <;>
    first | exact hshown | rfl

end Write

/-! ## The worker -/

namespace Worker

/-- A worker that stays, or that has the write among its last ones, will make it. -/
def WillWrite (w : Worker) (x : Write) : Prop :=
  w.phase = .exited → .write x ∈ w.todo

variable {now : Instant} {w w' : Worker} {s s' : Shared} {h : History}

/-- A worker that is to publish the end goes on to do so, or has just done it. -/
theorem willWrite_rule {x : Write} (hx : x ∈ Write.publish .stopped) (hwill : w.WillWrite x)
    (hrule : w.Rule now s h w' s') :
    w'.WillWrite x ∨ x.IsShown s'.status := by
  by_cases hphase : w.phase = .exited
  · have hmem : .write x ∈ w.todo := hwill hphase
    cases hrule with
    | write htodo =>
        rw [htodo] at hmem
        rcases List.mem_cons.mp hmem with heq | hmem
        · cases heq
          exact .inr (Write.isShown_write s hx)
        · exact .inl fun _ => hmem
    | overflow htodo =>
        rw [htodo] at hmem
        exact .inl fun _ => List.mem_cons_of_mem _ (by simpa using hmem)
    | deliver htodo | hangUp htodo | idleDrop htodo =>
        rw [htodo] at hmem
        exact .inl fun _ => by simpa using hmem
    | gone => exact .inl hwill
    | _ => simp_all
  · left
    intro hphase'
    obtain ⟨-, -, -, rfl⟩ := quit_of_exited hphase hrule hphase'
    rcases List.mem_pair.mp hx with rfl | rfl <;>
      simp [farewell, Effect.publish, Write.publish]

/-- A worker that has published the end, and leaves, does not take it back. -/
theorem isShown_rule (hw : w.Sound s.stop) {x : Write} (hx : x ∈ Write.publish .stopped)
    (hphase : w.phase = .exited) (hshown : x.IsShown s.status) (hrule : w.Rule now s h w' s') :
    x.IsShown s'.status := by
  cases hrule with
  | @write y todo htodo =>
      have hy : .write y ∈ farewell := (htodo ▸ hw.leaving hphase).mem List.mem_cons_self
      refine hshown.write hx (.inl ?_)
      simpa [farewell, Effect.publish, lastWrites, Write.publish] using hy
  | deliver | overflow | hangUp | idleDrop | gone => exact hshown
  | _ => simp_all

end Worker

/-! ## The stop -/

namespace Transport.Procedure

/-- The run that a start or a stop is concerned with. -/
def run? : Procedure → Option Nat
  | .write run _ _ | .await run _ _ _ _ | .detach run _ => some run
  | .reap _ | .launch _ | .take | .finished _ => none

/-- Whether a start or a stop will make a write to the block of a run, however it goes on. -/
def willWrite (id : Nat) (x : Write) : Procedure → Bool
  | .write run xs next => run = id && x ∈ xs || next.willWrite id x
  | .await _ _ _ exited late => exited.willWrite id x && late.willWrite id x
  | .detach _ next => next.willWrite id x
  | .reap _ | .launch _ | .take | .finished _ => false

theorem willWrite_conclude (id : Nat) {x : Write} (hx : x ∈ Write.publish .stopped) :
    (conclude id).willWrite id x = true := by
  simp [conclude, willWrite, hx]

/-- A stop that waits will publish the end whether the worker exits or not. -/
theorem willWrite_awaitExit (id : Nat) {x : Write} (hx : x ∈ Write.publish .stopped) :
    (awaitExit id (conclude id) (.detach id (conclude id))).willWrite id x = true := by
  simp [awaitExit, willWrite, willWrite_conclude id hx]

theorem willWrite_stopRun (id : Nat) {x : Write} (hx : x ∈ Write.publish .stopped) :
    (stopRun id).willWrite id x = true := by
  rw [stopRun, willWrite, willWrite_awaitExit id hx, Bool.or_true]

end Transport.Procedure

open Transport (Procedure)

/-- What a stop is to write it goes on to write, unless it writes it now. -/
theorem Transport.willWrite_rule {t t' : Transport} {now : Instant} {caller : Waker}
    {call next : Procedure} (hrule : t.Rule now caller call t' next) {id : Nat} {x : Write}
    (hwill : call.willWrite id x = true) :
    next.willWrite id x = true ∨ ∃ xs rest, call = .write id (x :: xs) rest := by
  cases hrule with
  | @write run y xs rest =>
      simp only [Procedure.willWrite, List.mem_cons, Bool.or_eq_true, Bool.and_eq_true,
        decide_eq_true_eq] at hwill ⊢
      rcases hwill with ⟨rfl, rfl | hmem⟩ | hrest
      · exact .inr ⟨xs, rest, rfl⟩
      · exact .inl (.inl ⟨rfl, hmem⟩)
      · exact .inl (.inr hrest)
  | _ => simp_all [Procedure.willWrite]

namespace World

variable {σ : Type} {w w' : World σ} {id : Nat}

theorem StopStage.run?_of_willWrite {call : Procedure} (hstage : w.StopStage call) {x : Write}
    (hwill : call.willWrite id x = true) : call.run? = some id := by
  cases hstage with
  | take | finished => cases hwill
  | ask | await | leave | conclude =>
      simp only [Procedure.willWrite, Procedure.awaitExit, Procedure.conclude, Bool.or_eq_true,
        Bool.and_eq_true, decide_eq_true_eq, Bool.or_false] at hwill
      simp only [Procedure.run?, Option.some.injEq]
      tauto

/-- A stop that writes to a run still is to publish its end, or does nothing else any more. -/
theorem StopStage.last_or_willWrite {x : Write} {xs : List Write} {rest : Procedure}
    (hstage : w.StopStage (.write id (x :: xs) rest)) :
    x ∈ [.clearOutbound, .clearInbound] ++ Write.publish .stopped ∨
      ∀ y ∈ Write.publish .stopped, (Procedure.write id xs rest).willWrite id y = true := by
  cases hstage with
  | ask =>
      right
      intro y hy
      rw [Procedure.willWrite, Procedure.willWrite_awaitExit id hy, Bool.or_true]
  | conclude _ _ hxs => exact .inl (hxs.mem List.mem_cons_self)

/-! ## Who writes to the cells -/

/-- What is published, and whether a stop is requested, is the same in two blocks. -/
def Agree (s s' : Shared) : Prop :=
  s'.status = s.status ∧ s'.stop.isRequested = s.stop.isRequested

/-- A stop makes its next write to the block of a run. -/
def WritesTo (w w' : World σ) (id : Nat) (s s' : Shared) : Prop :=
  ∃ thread x xs rest, w.threads[thread]? = some (.stopping (.write id (x :: xs) rest)) ∧
    w'.threads = w.threads.set thread (.stopping (.write id xs rest)) ∧ s' = s.write x

theorem agree_of_modify {f : Run → Run} {h : History} {j : Nat} {c d : Course}
    (hc : w.course? id = some c) (hd : w'.course? id = some d)
    (hruns : w'.transport.runs = w.transport.runs.modify j f)
    (hlog : w'.log = w.log ++ h.map (j, ·))
    (hstill : d.worker = c.worker)
    (hagree : ∀ run, w.transport.runs[j]? = some run → (f run).worker = run.worker →
      Agree run.shared (f run).shared) : Agree c.shared d.shared := by
  rw [course?_of_runs hruns hlog] at hd
  split at hd
  · next hid =>
      obtain ⟨run, hrun, rfl⟩ := Option.map_eq_some_iff.mp hc
      rw [hrun] at hd
      cases hd
      exact hagree run (hid ▸ hrun) hstill
  · cases hc.symm.trans hd
    exact ⟨rfl, rfl⟩

section
variable {now : Instant} {caller : Waker} {call next : Procedure} {c d : Course}

theorem shared_of_write {x : Write} {xs : List Write} {rest : Procedure}
    (hrule : w.transport.Rule now caller (.write id (x :: xs) rest) w'.transport next)
    (hlog : w'.log = w.log ++ x.marks.map (id, ·)) (hc : w.course? id = some c)
    (hd : w'.course? id = some d) : d.shared = c.shared.write x := by
  generalize ht : w'.transport = t at hrule
  cases hrule
  rw [course?_of_runs (by rw [ht]; rfl) hlog, if_pos rfl] at hd
  obtain ⟨run, hrun, rfl⟩ := Option.map_eq_some_iff.mp hc
  rw [hrun] at hd
  cases hd
  rfl

/-- A start leaves what is published, and a stop at most makes its next write. -/
theorem agree_or_write_of_call (hrule : w.transport.Rule now caller call w'.transport next)
    (hlog : w'.log = w.log ++ call.marks) (hc : w.course? id = some c)
    (hd : w'.course? id = some d) (hstill : d.worker = c.worker) :
    Agree c.shared d.shared ∨ ∃ x xs rest, call = .write id (x :: xs) rest ∧
      next = .write id xs rest ∧ d.shared = c.shared.write x := by
  have hrule' := hrule
  generalize ht : w'.transport = t at hrule
  have hsame (hruns : t.runs[id]? = w.transport.runs[id]?) (hmarks : call.marks = []) :
      Agree c.shared d.shared := by
    have hcourse : w'.course? id = w.course? id := by
      simp [course?, history, ht, hruns, hlog, hmarks]
    cases hc.symm.trans (hcourse.symm.trans hd)
    exact ⟨rfl, rfl⟩
  cases hrule with
  | launch =>
      refine .inl (hsame ?_ rfl)
      rw [Transport.launch, List.getElem?_append_left (lt_of_course? hc)]
  | @write j x xs rest =>
      by_cases hj : j = id
      · subst hj
        exact .inr ⟨x, xs, rest, rfl, rfl, shared_of_write hrule' hlog hc hd⟩
      · left
        rw [course?_of_runs (by rw [ht]; rfl) hlog, if_neg hj, hc] at hd
        cases hd
        exact ⟨rfl, rfl⟩
  | signalled hrun | unsignalled hrun =>
      left
      refine agree_of_modify (h := []) hc hd (by rw [ht]; rfl) hlog hstill ?_
      intro run hrun' _
      cases hrun.symm.trans hrun'
      exact ⟨rfl, rfl⟩
  | _ => exact .inl (hsame rfl rfl)

end

/-- Besides its worker only a stop writes to the cells of a run. -/
theorem agree_or_writesTo (hw : w.Sound) (hrule : w.Rule w') {c d : Course}
    (hc : w.course? id = some c) (hd : w'.course? id = some d) (hstill : d.worker = c.worker) :
    Agree c.shared d.shared ∨ WritesTo w w' id c.shared d.shared := by
  have hsame (hcourse : w'.course? id = w.course? id) : Agree c.shared d.shared := by
    cases hc.symm.trans (hcourse.symm.trans hd)
    exact ⟨rfl, rfl⟩
  cases hrule with
  | rest | drift | beginStart | beginStop | beginTry | finish | giveUp | await =>
      exact .inl (hsame rfl)
  | work net hrun hrule =>
      refine .inl (agree_of_modify hc hd rfl rfl hstill ?_)
      intro run hrun' hworker
      cases hrun.symm.trans hrun'
      exact Worker.status_of_still hrule hworker
  | push _ _ hrun | pop _ _ hrun =>
      exact .inl (agree_of_modify hc hd rfl rfl hstill fun _ _ _ => ⟨rfl, rfl⟩)
  | parkSender _ hrun | parkReceiver _ hrun =>
      exact .inl (agree_of_modify (h := []) hc hd rfl (by simp [turn, updateShared]) hstill
        fun _ _ _ => ⟨rfl, rfl⟩)
  | start hthread hrule =>
      have hstage := hw.starting _ (List.mem_of_getElem? hthread)
      rcases agree_or_write_of_call hrule rfl hc hd hstill with hagree | ⟨x, xs, rest, rfl, -, -⟩
      · exact .inl hagree
      · cases hstage
  | stop hthread hrule =>
      refine (agree_or_write_of_call hrule rfl hc hd hstill).imp_right ?_
      rintro ⟨x, xs, rest, rfl, rfl, hwritten⟩
      exact ⟨_, x, xs, rest, hthread, rfl, hwritten⟩

/-! ## Until the run is taken -/

/-- A run in progress is not written to by a stop. -/
theorem not_writesTo_of_running (hw : w.Sound) (hrunning : w.transport.running = some id)
    {s s' : Shared} : ¬ WritesTo w w' id s s' := by
  rintro ⟨thread, x, xs, rest, hthread, -, -⟩
  cases hw.stopping _ (List.mem_of_getElem? hthread) with
  | ask hid | conclude hid => exact hid.2 hrunning

/-- A run that exists does not come into progress again. -/
theorem running_of_running (hrule : w.Rule w') (hid : id < w.transport.runs.length)
    (hrunning : w'.transport.running = some id) : w.transport.running = some id := by
  rcases running_rule hrule with heq | heq | ⟨heq, -⟩
  · exact heq ▸ hrunning
  · rw [heq] at hrunning
    cases hrunning
  · rw [heq] at hrunning
    exact absurd (Option.some.inj hrunning) (Nat.ne_of_gt hid)

section
variable [Connector σ] {config : LinkConfig} {outbound inbound threads : Nat} {net : σ}

/-- As long as a run is in progress, what its worker publishes is true of it. -/
theorem truthful_run (moves : List (Move σ)) {c : Course}
    (hc : ((fresh config outbound inbound threads net).run moves).course? id = some c)
    (hrunning : ((fresh config outbound inbound threads net).run moves).transport.running =
      some id) :
    c.shared.stop.isRequested = false ∧
      c.worker.Truthful c.shared.status
        (Deed.states ((fresh config outbound inbound threads net).deeds id moves)) := by
  rw [← deeds_strides]
  refine course_induction (P := fun w strides c => w.transport.running = some id →
    c.shared.stop.isRequested = false ∧
      c.worker.Truthful c.shared.status (Deed.states (strides.flatMap Stride.deeds)))
    ?_ ?_ ?_ moves hc hrunning
  · intro w uri now _ _
    exact ⟨rfl, Worker.truthful_fresh uri config now now⟩
  · intro w w' strides c now worker shared h hreach hrule hsame _ ih hrunning
    obtain ⟨hasked, htruthful⟩ := ih (hsame ▸ hrunning)
    refine ⟨(Worker.isRequested_rule hreach.sound hrule).trans hasked, ?_⟩
    rw [List.flatMap_append, Deed.states_append, List.flatMap_singleton, Stride.deeds,
      Worker.states_doing]
    exact Worker.truthful_rule hreach.sound htruthful hasked hrule
  · intro w w' strides c d hw _ hrule hc hd hstill ih hrunning
    have hbefore := running_of_running hrule (lt_of_course? hc) hrunning
    obtain ⟨hasked, htruthful⟩ := ih hbefore
    rcases agree_or_writesTo hw hrule hc hd hstill with ⟨hstatus, hstop⟩ | hwrites
    · rw [hstop, hstatus, hstill]
      exact ⟨hasked, htruthful⟩
    · exact absurd hwrites (not_writesTo_of_running hw hbefore)

end

/-! ## From then on -/

/-- The end of a run is published, or will be: by the stop that takes the run, or by the worker. -/
inductive Settles (w : World σ) (id : Nat) (c : Course) (x : Write) : Prop
  | running (hrunning : w.transport.running = some id)
  | stop {call} (hmem : .stopping call ∈ w.threads) (hwill : call.willWrite id x = true)
  | worker (hwill : c.worker.WillWrite x)
  | shown (hshown : x.IsShown c.shared.status)

/-- A thread that does not turn to something else is about what it was about. -/
theorem mem_turn {threads : List Activity} {thread : Nat} {activity old : Activity}
    (hmem : activity ∈ threads) (hthread : threads[thread]? = some old) (new : Activity) :
    activity ∈ threads.set thread new ∨ activity = old := by
  obtain ⟨i, hi⟩ := List.getElem?_of_mem hmem
  by_cases heq : thread = i
  · subst heq
    exact .inr (Option.some.inj (hi.symm.trans hthread))
  · left
    apply List.mem_of_getElem? (i := i)
    rwa [List.getElem?_set_ne heq]

theorem mem_turn_self {threads : List Activity} {thread : Nat} {old : Activity}
    (hthread : threads[thread]? = some old) (new : Activity) : new ∈ threads.set thread new :=
  List.mem_set (List.getElem?_eq_some_iff.mp hthread).1 new

/-- A run in progress stays so until a stop takes it. -/
theorem running_or_taken (hw : w.Sound) (hrule : w.Rule w')
    (hrunning : w.transport.running = some id) :
    w'.transport.running = some id ∨ .stopping (.stopRun id) ∈ w'.threads := by
  cases hrule with
  | start hthread hrule =>
      have hstage := hw.starting _ (List.mem_of_getElem? hthread)
      cases hrule with
      | take => cases hstage
      | launch hnone => cases hnone.symm.trans hrunning
      | _ => exact .inl hrunning
  | stop hthread hrule =>
      cases hrule with
      | take htaken =>
          cases htaken.symm.trans hrunning
          exact .inr (mem_turn_self hthread _)
      | launch hnone => cases hnone.symm.trans hrunning
      | _ => exact .inl hrunning
  | _ => exact .inl hrunning

/-- A stop that is to publish the end goes on to do so, or has just done it. -/
theorem settles_of_stop (hrule : w.Rule w') {c d : Course} (hc : w.course? id = some c)
    (hd : w'.course? id = some d) {x : Write} (hx : x ∈ Write.publish .stopped)
    {call : Procedure} (hmem : .stopping call ∈ w.threads) (hwill : call.willWrite id x = true) :
    w'.Settles id d x := by
  have hother {thread : Nat} {old : Activity} (hthread : w.threads[thread]? = some old)
      (hold : old ≠ .stopping call) (new : Activity) : .stopping call ∈ w.threads.set thread new :=
    (mem_turn hmem hthread new).resolve_right hold.symm
  cases hrule with
  | rest | drift | work => exact .stop hmem hwill
  | beginStart hthread | beginStop hthread | beginTry hthread | await hthread
  | parkSender hthread | parkReceiver hthread | start hthread =>
      exact .stop (hother hthread nofun _) hwill
  | finish hthread hcall =>
      refine .stop (hother hthread ?_ _) hwill
      rintro rfl
      cases hcall
      cases hwill
  | giveUp hthread hcall =>
      refine .stop (hother hthread ?_ _) hwill
      rintro rfl
      cases hcall
  | push hthread haim | pop hthread haim =>
      refine .stop (hother hthread ?_ _) hwill
      rintro rfl
      cases haim
  | stop hthread hrule =>
      rcases mem_turn hmem hthread _ with hmem | heq
      · exact .stop hmem hwill
      · cases heq
        rcases Transport.willWrite_rule hrule hwill with hnext | ⟨xs, rest, rfl⟩
        · exact .stop (mem_turn_self hthread _) hnext
        · apply Settles.shown
          rw [shared_of_write hrule rfl hc hd]
          exact Write.isShown_write c.shared hx

theorem settles_work {c : Course} {now : Instant} {worker : Worker} {shared : Shared} {h : History}
    (hreach : c.Reachable) (hrule : c.worker.Rule now c.shared h worker shared)
    (hrunning : w'.transport.running = w.transport.running) (hthreads : w'.threads = w.threads)
    {x : Write} (hx : x ∈ Write.publish .stopped) (hc : w.Settles id c x) :
    w'.Settles id ⟨worker, shared, c.history ++ h⟩ x := by
  have hworker (hwill : c.worker.WillWrite x) :
      w'.Settles id ⟨worker, shared, c.history ++ h⟩ x := by
    rcases Worker.willWrite_rule hx hwill hrule with hwill | hshown
    · exact .worker hwill
    · exact .shown hshown
  cases hc with
  | running hid => exact .running (hrunning ▸ hid)
  | stop hmem hwill => exact .stop (hthreads ▸ hmem) hwill
  | worker hwill => exact hworker hwill
  | shown hshown =>
      by_cases hphase : c.worker.phase = .exited
      · exact .shown (Worker.isShown_rule hreach.sound hx hphase hshown hrule)
      · exact hworker fun hexited => absurd hexited hphase

theorem settles_others (hw : w.Sound) (hrule : w.Rule w') {c d : Course}
    (hc : w.course? id = some c) (hd : w'.course? id = some d) (hstill : d.worker = c.worker)
    {x : Write} (hx : x ∈ Write.publish .stopped) (hsettles : w.Settles id c x) :
    w'.Settles id d x := by
  cases hsettles with
  | running hid =>
      rcases running_or_taken hw hrule hid with hid | hmem
      · exact .running hid
      · exact .stop hmem (Procedure.willWrite_stopRun id hx)
  | stop hmem hwill => exact settles_of_stop hrule hc hd hx hmem hwill
  | worker hwill => exact .worker (hstill ▸ hwill)
  | shown hshown =>
      rcases agree_or_writesTo hw hrule hc hd hstill with
        ⟨hstatus, -⟩ | ⟨thread, y, ys, rest, hthread, hthreads, hwritten⟩
      · exact .shown (hstatus ▸ hshown)
      · rcases (hw.stopping _ (List.mem_of_getElem? hthread)).last_or_willWrite with hlast | hwill
        · apply Settles.shown
          rw [hwritten]
          exact hshown.write hx (.inr hlast)
        · exact .stop (hthreads ▸ mem_turn_self hthread _) (hwill x hx)

/-- Where both the stop and the worker are done, the end is published. -/
theorem Settles.isShown {c : Course} {x : Write} (h : w.Settles id c x) (hw : w.Sound)
    (hrunning : w.transport.running ≠ some id)
    (hstopped : ∀ call, .stopping call ∈ w.threads → call.run? ≠ some id)
    (hphase : c.worker.phase = .exited) (htodo : c.worker.todo = []) :
    x.IsShown c.shared.status := by
  cases h with
  | running hid => exact absurd hid hrunning
  | stop hmem hwill =>
      exact absurd ((hw.stopping _ hmem).run?_of_willWrite hwill) (hstopped _ hmem)
  | worker hwill =>
      have hmem := hwill hphase
      rw [htodo] at hmem
      cases hmem
  | shown hshown => exact hshown

section
variable [Connector σ]

theorem settles_run (config : LinkConfig) (outbound inbound threads : Nat) (net : σ)
    (moves : List (Move σ)) {c : Course}
    (hc : ((fresh config outbound inbound threads net).run moves).course? id = some c) {x : Write}
    (hx : x ∈ Write.publish .stopped) :
    ((fresh config outbound inbound threads net).run moves).Settles id c x := by
  refine course_induction (P := fun w _ c => w.Settles id c x) ?_ ?_ ?_ moves hc
  · exact fun _ _ _ => .running
  · exact fun _ _ _ _ _ _ _ _ hreach hrule hrunning hthreads =>
      settles_work hreach hrule hrunning hthreads hx
  · exact fun _ _ _ _ _ hw _ hrule hc hd hstill => settles_others hw hrule hc hd hstill hx

/-- What is published of a run, whatever its connector and its links do, and whatever the threads
do meanwhile. Until a stop has taken the run, the states that its worker stores are a path that
begins with starting, and whenever the worker has done what it decided on, as between two ticks and
in a wait, both cells tell whether it has an open link. Once a stop has taken the run and is done
with it, and the worker has left, both cells say that the run is stopped, in whatever order the
two have made their writes. -/
theorem state_follows_session (config : LinkConfig) (outbound inbound threads : Nat) (net : σ)
    (moves : List (Move σ)) (id : Nat) (c : Course)
    (hc : ((fresh config outbound inbound threads net).run moves).course? id = some c) :
    let start := fresh config outbound inbound threads net
    let w := start.run moves
    let status := c.shared.status
    (w.transport.running = some id →
      (.starting :: Deed.states (start.deeds id moves)).IsChain (fun s t => t ∈ s.next) ∧
        (c.worker.todo = [] →
          (status.state = .connected ↔
            ∃ session, c.worker.session = some session ∧ session.isOpen = true) ∧
          (status.isConnected = true ↔
            ∃ session, c.worker.session = some session ∧ session.isOpen = true))) ∧
      (w.transport.running ≠ some id →
        (∀ call, .stopping call ∈ w.threads → call.run? ≠ some id) →
        c.worker.phase = .exited → c.worker.todo = [] →
          status.state = .stopped ∧ status.isConnected = false) := by
  intro start w status
  have hreach := reachable_course config outbound inbound threads net moves hc
  constructor
  · intro hrunning
    obtain ⟨-, htruthful⟩ := truthful_run moves hc hrunning
    have hpath := htruthful.path
    rw [← List.cons_append] at hpath
    exact ⟨hpath.left_of_append, htruthful.connected_iff hreach.sound⟩
  · intro hrunning hstopped hphase htodo
    have hw : w.Sound := (sound_fresh config outbound inbound threads net).run moves
    have hshown {x : Write} (hx : x ∈ Write.publish .stopped) : x.IsShown status :=
      (settles_run config outbound inbound threads net moves hc hx).isShown hw hrunning hstopped
        hphase htodo
    exact ⟨hshown (x := .state .stopped) (by simp [Write.publish]),
      hshown (x := .connected .stopped) (by simp [Write.publish])⟩

end

/-- A worker has stored that it is connected, in both cells. -/
def untilConnected : List (Move Network) :=
  [.ask 0 (.start "ws://hub"), .go 0 0 false, .go 0 0 false, .go 0 0 false] ++
    .replicate 10 (.work 0 0)

/-- A stop begins and ends between the two stores, and then the worker makes the second one. -/
def betweenStores : List (Move Network) :=
  untilConnected.dropLast ++ [.ask 0 .stop] ++ .replicate 9 (.go 0 0 false) ++
    .replicate 10 (.go 0 (milliseconds 1000000) false) ++ [.work 0 0]

/-- Between the two stores the cells disagree, also after the stop; in the end they do not. -/
theorem state_of_late_worker :
    (∃ c, (overtaken.run untilConnected).course? 0 = some c ∧
      (overtaken.run untilConnected).transport.running = some 0 ∧
      c.shared.status.isConnected = true ∧
      (.starting :: Deed.states (overtaken.deeds 0 untilConnected)).IsChain
        (fun s t => t ∈ s.next) ∧
      ∃ session, c.worker.session = some session ∧ session.isOpen = true) ∧
    ((overtaken.run betweenStores).course? 0).map
      (fun c => (c.shared.status.state, c.shared.status.isConnected)) = some (.stopped, true) ∧
    ∃ c, (overtaken.run (betweenStores ++ .replicate 6 (.work 0 0))).course? 0 = some c ∧
      c.worker.phase = .exited ∧ c.worker.todo = [] ∧
      c.shared.status.state = .stopped ∧ c.shared.status.isConnected = false := by
  refine ⟨?_, by decide +kernel, ?_⟩
  · obtain ⟨c, hc⟩ : ∃ c, (overtaken.run untilConnected).course? 0 = some c :=
      exists_course? (by decide +kernel)
    have hrunning : (overtaken.run untilConnected).transport.running = some 0 := by decide +kernel
    have hfacts : ((overtaken.run untilConnected).course? 0).map
        (fun c => (c.worker.todo, c.shared.status.isConnected)) = some ([], true) := by
      decide +kernel
    simp only [hc, Option.map_some, Option.some.injEq, Prod.mk.injEq] at hfacts
    obtain ⟨hpath, hcells⟩ := (state_follows_session _ _ _ _ _ untilConnected 0 c hc).1 hrunning
    exact ⟨c, hc, hrunning, hfacts.2, hpath, (hcells hfacts.1).2.mp hfacts.2⟩
  · let moves : List (Move Network) := betweenStores ++ .replicate 6 (.work 0 0)
    obtain ⟨c, hc⟩ : ∃ c, (overtaken.run moves).course? 0 = some c :=
      exists_course? (by decide +kernel)
    have hrunning : (overtaken.run moves).transport.running ≠ some 0 := by decide +kernel
    have hthreads : (overtaken.run moves).threads.all (·.call?.isNone) = true := by
      decide +kernel
    have hleft : ((overtaken.run moves).course? 0).map (·.worker.stepsLeft) = some 0 := by
      decide +kernel
    rw [hc, Option.map_some, Option.some.injEq] at hleft
    obtain ⟨hphase, htodo⟩ := Course.gone_of_stepsLeft hleft
    have hstopped : ∀ call, .stopping call ∈ (overtaken.run moves).threads →
        call.run? ≠ some 0 := by
      intro call hmem
      cases List.all_eq_true.mp hthreads _ hmem
    exact ⟨c, hc, hphase, htodo,
      (state_follows_session _ _ _ _ _ moves 0 c hc).2 hrunning hstopped hphase htodo⟩

end World

end Uplink
