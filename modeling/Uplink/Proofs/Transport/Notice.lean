import Uplink.Proofs.Transport.Places

/-! # Notice of an exit

The last thing that a worker does is to raise the signal of its exit, and who sees the signal takes
it. As long as the run is kept, nobody has: the signal is there exactly when the worker is gone. -/

namespace Uplink

namespace Worker

/-- It has left and has nothing left to do. -/
def IsGone (w : Worker) : Prop :=
  w.phase = .exited ∧ w.todo = []

theorem eq_of_last_of_farewell {effect : Effect} (h : [effect] <:+ farewell) :
    effect = .write .exit := by
  simpa [farewell, Effect.publish, Write.publish, List.suffix_cons_iff] using h

variable {now : Instant} {w w' : Worker} {s s' : Shared} {h : History}

theorem gone_of_raised_rule (hw : w.Sound s.stop) (hrule : w.Rule now s h w' s')
    (hbefore : s.stop.exit = .raised → w.IsGone) (hraised : s'.stop.exit = .raised) :
    w'.IsGone := by
  cases hrule with
  | @write x todo htodo =>
      by_cases hx : x = .exit
      · subst hx
        have hphase := hw.staying (.inr (by simp [htodo]))
        exact ⟨hphase, eq_of_exit_suffix_farewell (htodo ▸ hw.leaving hphase)⟩
      · have hgone := hbefore (s.exit_write x hx ▸ hraised)
        exact absurd (htodo.symm.trans hgone.2) (List.cons_ne_nil _ _)
  | gone => exact hbefore hraised
  | _ => simp_all [IsGone, StopToken.pollRequest]

theorem raised_of_gone_rule (hw : w.Sound s.stop) (hrule : w.Rule now s h w' s')
    (hbefore : w.IsGone → s.stop.exit = .raised) (hgone : w'.IsGone) :
    s'.stop.exit = .raised := by
  have hlast {effect : Effect} {todo : List Effect} (htodo : w.todo = effect :: todo)
      (hphase : w.phase = .exited) (hdone : todo = []) : effect = .write .exit := by
    apply eq_of_last_of_farewell
    rw [← hdone, ← htodo]
    exact hw.leaving hphase
  obtain ⟨hphase, hdone⟩ := hgone
  cases hrule with
  | write htodo =>
      cases hlast htodo hphase hdone
      cases hexit : s.stop.exit <;>
        simp [Shared.write, StopToken.raiseExit, Signal.raise, hexit]
  | deliver htodo | hangUp htodo | idleDrop htodo => cases hlast htodo hphase hdone
  | gone => exact hbefore ⟨hphase, hdone⟩
  | _ => simp_all [farewell, greet]

end Worker

namespace Course

theorem Evolves.gone_of_raised {c d : Course} (h : c.Evolves d)
    (hc : c.worker.Sound c.shared.stop) (hbefore : c.shared.stop.exit = .raised → c.worker.IsGone)
    (hraised : d.shared.stop.exit = .raised) : d.worker.IsGone := by
  cases h with
  | work hrule => exact Worker.gone_of_raised_rule hc hrule hbefore hraised
  | push | parkSender | pop | parkReceiver => exact hbefore hraised
  | @write x hx =>
      have hexit : x ≠ .exit := by
        rintro rfl
        cases hx
      exact hbefore (c.shared.exit_write x hexit ▸ hraised)
  | listen waker =>
      cases hexit : c.shared.stop.exit <;>
        simp [StopToken.pollExit, Signal.poll, hexit] at hraised

/-- Where the signal of an exit is there, the worker is gone. -/
theorem Reachable.gone_of_raised {c : Course} (hc : c.Reachable)
    (hraised : c.shared.stop.exit = .raised) : c.worker.IsGone := by
  induction hc with
  | fresh => cases hraised
  | next hc hstep ih => exact hstep.gone_of_raised hc.sound ih hraised

end Course

namespace World

open Transport (Procedure)

variable {σ : Type}

/-! ## One thread -/

theorem length_threads_rule {w w' : World σ} (hrule : w.Rule w') :
    w'.threads.length = w.threads.length := by
  cases hrule with
  | rest | drift | work => rfl
  | _ => exact List.length_set

section
variable {w : World σ} (halone : w.threads.length = 1)
include halone

theorem isOrderly_of_alone : w.isOrderly = true := by
  have hle : w.threads.countP (·.isCalling) ≤ 1 := halone ▸ List.countP_le_length
  simp [isOrderly, hle]

theorem eq_of_alone {thread : Nat} {activity : Activity}
    (hthread : w.threads[thread]? = some activity) : thread = 0 ∧ w.threads = [activity] := by
  obtain ⟨only, honly⟩ := List.length_eq_one_iff.mp halone
  rw [honly] at hthread ⊢
  cases thread with
  | zero => exact ⟨rfl, by simpa using hthread⟩
  | succ thread => cases hthread

theorem set_of_alone {thread : Nat} {activity : Activity}
    (hthread : w.threads[thread]? = some activity) (new : Activity) :
    w.threads.set thread new = [new] := by
  obtain ⟨rfl, honly⟩ := eq_of_alone halone hthread
  rw [honly]
  rfl

end

/-! ## What a move makes of the runs -/

theorem course?_of_runs {w w' : World σ} {id : Nat} {f : Run → Run} {h : History}
    (hruns : w'.transport.runs = w.transport.runs.modify id f)
    (hlog : w'.log = w.log ++ h.map (id, ·)) (j : Nat) :
    w'.course? j =
      if id = j then
        w.transport.runs[j]?.map fun run => ⟨(f run).worker, (f run).shared, w.history j ++ h⟩
      else w.course? j := by
  rw [← course?_of_modify w w.net w.threads id f h w.transport.running w.transport.detached j]
  simp [course?, history, hruns, hlog]

/-- The course of a run that was launched in the last step. -/
theorem course?_of_launch {w w' : World σ} (hw : w.Sound) (hrule : w.Rule w') {uri : String}
    {now : Instant} (hlaunch : w'.transport = w.transport.launch uri now) :
    w'.course? w.transport.runs.length =
      some (.fresh uri w.transport.config w.transport.outboundCapacity
        w.transport.inboundCapacity now) := by
  have hfollows := follows_rule hw hrule w.transport.runs.length
  have hnone : w.course? w.transport.runs.length = none := by simp [course?]
  have hcourse : w'.course? w.transport.runs.length =
      some ⟨.fresh uri w.transport.config now, .fresh w.transport.outboundCapacity
        w.transport.inboundCapacity now, w'.history w.transport.runs.length⟩ := by
    simp [course?, hlaunch, Transport.launch]
  rw [hnone, hcourse] at hfollows
  have hempty {c : Course} (h : Follows none (some c)) : c.history = [] := by
    cases h
    rfl
  have hhistory : w'.history w.transport.runs.length = [] := hempty hfollows
  rw [hcourse, hhistory]
  rfl

/-! ## The signals of kept runs -/

variable {w w' : World σ}

/-- Where the worker of a kept run is gone, the signal of its exit is there. -/
def Heralded (w : World σ) : Prop :=
  ∀ id c, w.Keeps id → w.course? id = some c → c.worker.IsGone → c.shared.stop.exit = .raised

theorem Keeps.of_free {id : Nat} (h : w'.Keeps id)
    (hthreads : ∀ activity ∈ w'.threads, activity ∈ w.threads ∨ activity.holds? = none)
    (hrunning : w'.transport.running = w.transport.running)
    (hdetached : w'.transport.detached = w.transport.detached) : w.Keeps id := by
  cases h with
  | running hid => exact .running (hrunning ▸ hid)
  | detached hid => exact .detached (hdetached ▸ hid)
  | held hthread hholds =>
      rcases hthreads _ (List.mem_of_getElem? hthread) with hmem | hnone
      · obtain ⟨i, hi⟩ := List.getElem?_of_mem hmem
        exact .held hi hholds
      · simp [hnone] at hholds

theorem Heralded.of_same (h : w.Heralded) (hkeeps : ∀ id, w'.Keeps id → w.Keeps id)
    (hcourses : ∀ id, w'.course? id = w.course? id) : w'.Heralded := by
  intro id c hid hc hgone
  exact h id c (hkeeps id hid) (hcourses id ▸ hc) hgone

/-- A change of one run. -/
theorem Heralded.of_modify (h : w.Heralded) (hkeeps : ∀ id, w'.Keeps id → w.Keeps id) {id : Nat}
    {f : Run → Run} {run : Run} {l : History} (hrun : w.transport.runs[id]? = some run)
    (hruns : w'.transport.runs = w.transport.runs.modify id f)
    (hlog : w'.log = w.log ++ l.map (id, ·))
    (hstep : w'.Keeps id → (run.worker.IsGone → run.shared.stop.exit = .raised) →
      (f run).worker.IsGone → (f run).shared.stop.exit = .raised) : w'.Heralded := by
  intro j c hj hc hgone
  rw [course?_of_runs hruns hlog] at hc
  split at hc
  · next hid =>
      subst hid
      rw [hrun] at hc
      cases hc
      apply hstep hj _ hgone
      exact h id ⟨run.worker, run.shared, w.history id⟩ (hkeeps id hj) (by simp [course?, hrun])
  · exact h j c (hkeeps j hj) hc hgone

section
variable {thread : Nat} {old new : Activity} {call next : Procedure} {now : Instant}
  {caller : Waker} (hw : w.Unshared) (hthreads : w'.threads = w.threads.set thread new)
include hw hthreads

/-- A launch keeps a new run, whose worker is not gone, and those that were kept. -/
theorem heralded_of_launch (h : w.Heralded) (hrule : w.Rule w') {uri : String}
    (hnew : new.holds? = none) (htransport : w'.transport = w.transport.launch uri now)
    (hlog : w'.log = w.log) : w'.Heralded := by
  intro id c hid hc hgone
  by_cases hlatest : id = w.transport.runs.length
  · subst hlatest
    rw [course?_of_launch hw.sound hrule htransport] at hc
    cases hc
    cases hgone.1
  · have hbefore : w.Keeps id := by
      cases hid with
      | running hid =>
          rw [htransport] at hid
          exact absurd (Option.some.inj hid).symm hlatest
      | detached hid =>
          rw [htransport] at hid
          exact .detached hid
      | held hi hholds =>
          have hmem := List.mem_of_getElem? hi
          rw [hthreads] at hmem
          rcases List.mem_or_eq_of_mem_set hmem with hmem | rfl
          · obtain ⟨i, hi⟩ := List.getElem?_of_mem hmem
            exact .held hi hholds
          · cases hnew.symm.trans hholds
    have hsame : w'.course? id = w.course? id := by
      have hlt := hw.sound.lt_of_keeps hbefore
      simp [course?, history, htransport, Transport.launch, hlog, List.getElem?_append_left hlt]
    exact h id c hbefore (hsame ▸ hc) hgone

/-- Only who waits for the exit of a run takes its signal, and who takes it lets go of the run. -/
theorem heralded_of_call (hthread : w.threads[thread]? = some old) (hrule' : w.Rule w')
    (h : w.Heralded) (hstage : w.Stage call) (hold : old.holds? = call.holds?)
    (hnew : new.holds? = next.holds?) (hlog : w'.log = w.log ++ call.marks)
    (hrule : w.transport.Rule now caller call w'.transport next) : w'.Heralded := by
  by_cases hcall : ∃ uri, call = .launch uri
  · obtain ⟨uri, rfl⟩ := hcall
    have hquiet : w'.log = w.log := hlog.trans (List.append_nil _)
    generalize ht : w'.transport = t at hrule
    cases hrule with
    | launch => exact heralded_of_launch hw hthreads h hrule' hnew ht hquiet
    | refuse =>
        refine h.of_same (fun _ hid => hid.of_free ?_ (by rw [ht]) (by rw [ht])) fun id => ?_
        · intro activity hmem
          rw [hthreads] at hmem
          rcases List.mem_or_eq_of_mem_set hmem with hmem | rfl
          · exact .inl hmem
          · exact .inr hnew
        · simp [course?, history, ht, hquiet]
  have hkeeps : ∀ id, w'.Keeps id → w.Keeps id := by
    intro id hid
    have hpasses := passes_rule hw.courses hstage hrule fun uri heq => hcall ⟨uri, heq⟩
    rw [← hold, ← hnew] at hpasses
    exact Passes.keeps_from hthread hthreads hpasses hid
  generalize ht : w'.transport = t at hrule
  cases hrule with
  | launch => exact absurd ⟨_, rfl⟩ hcall
  | @write id x _ _ =>
      have hcallers : x.isCallers = true ∧ id < w.transport.runs.length := by
        rcases hstage with hstage | hstage
        · cases hstage
        · exact hstage.isCallers
      have hexit : x ≠ .exit := by
        rintro rfl
        cases hcallers.1
      refine h.of_modify hkeeps (List.getElem?_eq_getElem hcallers.2) (by rw [ht]; rfl) hlog ?_
      intro _ hbefore hgone
      exact (Shared.exit_write _ _ hexit).trans (hbefore hgone)
  | signalled hrun =>
      refine h.of_modify (l := []) hkeeps hrun (by rw [ht]; rfl) hlog fun hid => ?_
      have hfree : new.holds? = none := hnew.trans hstage.await.2.1
      refine absurd hid (hw.not_keeps_of_passed hthread hold hthreads ?_ (by rw [ht]; rfl))
      simp [hfree]
  | unsignalled hrun hsilent =>
      refine h.of_modify (l := []) hkeeps hrun (by rw [ht]; rfl) hlog ?_
      exact fun _ hbefore hgone => absurd (hbefore hgone) hsilent
  | _ =>
      refine h.of_same hkeeps fun id => ?_
      simp [course?, history, ht, hlog, Procedure.marks]

end

theorem heralded_rule (hw : w.Unshared) (hrule : w.Rule w') (h : w.Heralded) : w'.Heralded := by
  have hrule' := hrule
  have hfree {thread : Nat} {new : Activity} (hnew : new.holds? = none) :
      ∀ activity ∈ w.threads.set thread new, activity ∈ w.threads ∨ activity.holds? = none := by
    intro activity hmem
    rcases List.mem_or_eq_of_mem_set hmem with hold | rfl
    · exact .inl hold
    · exact .inr hnew
  cases hrule with
  | rest | drift => exact h.of_same (fun _ hid => hid.of_free (fun _ => .inl) rfl rfl) fun _ => rfl
  | beginStart | beginStop | beginTry | finish | giveUp | await =>
      exact h.of_same (fun _ hid => hid.of_free (hfree rfl) rfl rfl) fun _ => rfl
  | @work _ id run _ _ _ net hrun hrule =>
      have hc : w.course? id = some ⟨run.worker, run.shared, w.history id⟩ := by
        simp [course?, hrun]
      refine h.of_modify (fun _ hid => hid.of_free (fun _ => .inl) rfl rfl) hrun rfl rfl ?_
      exact fun _ => Worker.raised_of_gone_rule (hw.courses id _ hc).sound hrule
  | push _ _ hrun | pop _ _ hrun =>
      exact h.of_modify (fun _ hid => hid.of_free (hfree rfl) rfl rfl) hrun rfl rfl fun _ => id
  | parkSender _ hrun hnext | parkReceiver _ hrun hnext =>
      rcases hnext with rfl | rfl <;>
        exact h.of_modify (l := []) (fun _ hid => hid.of_free (hfree rfl) rfl rfl) hrun rfl
          (by simp [turn, updateShared]) fun _ => id
  | start hthread hrule =>
      have hstage := hw.sound.starting _ (List.mem_of_getElem? hthread)
      exact heralded_of_call hw rfl hthread hrule' h (.inl hstage) rfl rfl rfl hrule
  | stop hthread hrule =>
      have hstage := hw.sound.stopping _ (List.mem_of_getElem? hthread)
      exact heralded_of_call hw rfl hthread hrule' h (.inr hstage) rfl rfl rfl hrule

theorem heralded_fresh (config : LinkConfig) (outbound inbound threads : Nat) (net : σ) :
    (fresh config outbound inbound threads net).Heralded := by
  simp [Heralded, fresh, course?]

theorem heralded_run [Connector σ] (hw : w.Unshared) (h : w.Heralded) (moves : List (Move σ)) :
    (w.run moves).Heralded := by
  have hboth := run_induction (P := fun v : World σ => v.Unshared ∧ v.Heralded) ⟨hw, h⟩
    (fun v move h =>
      ⟨unshared_rule h.1 (v.step_rule move), heralded_rule h.1 (v.step_rule move) h.2⟩) moves
  exact hboth.2

end World

end Uplink
