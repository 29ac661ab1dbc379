import Mathlib.Data.List.Induction
import Uplink.Network
import Uplink.Proofs.Transport.Tenure
import Uplink.Transport.Timeline

/-! # The life of a transport in the hands of one caller

Starts and stops one after another, with workers that may outlive their runs. What a start answers
is decided by what is on the books when it is called and by whether a worker that was left behind
is gone in time. -/

namespace Uplink

namespace World

open Transport (Procedure)

variable {σ : Type}

theorem mem_moments_concat {front : List (Move σ)} {armed now : Instant} {expired : Bool}
    (h : armed ∈ now :: moments front) : armed ∈ moments (front ++ [.go 0 now expired]) := by
  rw [moments_append, moments_go]
  simpa [or_comm, moments] using h

/-- The timer of a wait was set at one of the steps of the thread, or is set now. -/
theorem exists_armed {front : List (Move σ)} {alarm : Option Instant} {grace : Nat} (now : Instant)
    (harmed : ∀ due, alarm = some due → ∃ armed ∈ moments front, due = armed + grace) :
    ∃ armed ∈ now :: moments front, alarm.getD (now + grace) = armed + grace := by
  cases alarm with
  | none => exact ⟨now, List.mem_cons_self, rfl⟩
  | some due =>
      obtain ⟨armed, hmem, heq⟩ := harmed due rfl
      exact ⟨armed, List.mem_cons_of_mem _ hmem, heq⟩

/-- A start changes what is in progress only with its last step. -/
theorem progress_rule {w : World σ} {now : Instant} {caller : Waker} {call next : Procedure}
    {t : Transport} (hstage : w.StartStage call)
    (hrule : w.transport.Rule now caller call t next) (hopen : ∀ result, next ≠ .finished result) :
    t.runs.length = w.transport.runs.length ∧ t.running = w.transport.running := by
  cases hrule with
  | launch => exact absurd rfl (hopen _)
  | take => cases hstage
  | write => cases hstage
  | signalled | unsignalled =>
      exact ⟨by simp [Transport.updateShared, Transport.updateRun], rfl⟩
  | _ => exact ⟨rfl, rfl⟩

variable [Connector σ]

/-! ## Where a start stands

The world `b` is the one in which the start has just been called. -/

/-- The thread waits for the exit of a worker. At its last step it has looked for the signal, and
the worker was not gone. -/
inductive Looks (b : World σ) (id : Nat) (alarm : Option Instant) : List (Move σ) → Prop
  | intro {front now expired quiet exited late run}
      (hwaits : (b.run front).threads = [.starting (.await id alarm .signal exited late)])
      (hrun : (b.run front).transport.runs[id]? = some run)
      (hlive : ¬ run.worker.IsGone) (hquiet : moments quiet = []) :
      Looks b id alarm (front ++ .go 0 now expired :: quiet)

/-- The thread gives up to wait for the exit of a worker. When it has looked once more, the grace
period is over that began at one of its steps. -/
inductive GivesUp (b : World σ) (id : Nat) : List (Move σ) → Prop
  | intro {front back now expired alarm armed} (hlooks : b.Looks id alarm front)
      (harmed : armed ∈ now :: moments front)
      (hdue : alarm.getD (now + b.transport.grace) = armed + b.transport.grace)
      (hover : armed + b.transport.grace ≤ now) :
      GivesUp b id (front ++ .go 0 now expired :: back)

/-- What has come of a start that is not over. -/
inductive Standing (b : World σ) (uri : String) (front : List (Move σ)) : Procedure → Prop
  | reap (hdetached : (b.run front).transport.detached = b.transport.detached) :
      Standing b uri front (.reap uri)
  | await {id alarm stage} (hid : b.transport.detached = some id)
      (harmed : ∀ due, alarm = some due →
        ∃ armed ∈ moments front, due = armed + b.transport.grace)
      (hlooks : stage = .timer → b.Looks id alarm front) :
      Standing b uri front
        (.await id alarm stage (.launch uri) (.detach id (.finished (.error .busy))))
  | giveBack {id} (hid : b.transport.detached = some id) (hgives : b.GivesUp id front) :
      Standing b uri front (.detach id (.finished (.error .busy)))
  | launch : Standing b uri front (.launch uri)

/-- A start is not over, and nothing else on the books has changed. -/
structure Pending (b : World σ) (uri : String) (front : List (Move σ)) (call : Procedure) :
    Prop where
  calls : (b.run front).Calls .starting call
  length : (b.run front).transport.runs.length = b.transport.runs.length
  running : (b.run front).transport.running = b.transport.running
  standing : b.Standing uri front call

variable {b : World σ} {uri : String} {id : Nat} {front : List (Move σ)} {call : Procedure}

theorem Looks.concat {alarm : Option Instant} (h : b.Looks id alarm front) {move : Move σ}
    (hquiet : move.moment? = none) : b.Looks id alarm (front ++ [move]) := by
  cases h with
  | intro hwaits hrun hlive hrest =>
      rw [List.append_assoc, List.cons_append]
      refine .intro hwaits hrun hlive ?_
      rw [moments_append, hrest, moments_of_quiet hquiet]
      rfl

theorem GivesUp.concat (h : b.GivesUp id front) (move : Move σ) :
    b.GivesUp id (front ++ [move]) := by
  cases h with
  | intro hlooks harmed hdue hover =>
      rw [List.append_assoc, List.cons_append]
      exact .intro hlooks harmed hdue hover

theorem Pending.rest (h : b.Pending uri front call) {move : Move σ}
    (hquiet : move.moment? = none) : b.Pending uri (front ++ [move]) call := by
  have hstill := h.calls.still hquiet
  have hmoments : moments (front ++ [move]) = moments front := by
    rw [moments_append, moments_of_quiet hquiet]
    exact List.append_nil _
  rw [← run_concat] at hstill
  refine ⟨h.calls.of_still hstill, hstill.length.trans h.length,
    hstill.running.trans h.running, ?_⟩
  cases h.standing with
  | reap hdetached => exact .reap (hstill.detached.trans hdetached)
  | await hid harmed hlooks =>
      rw [← hmoments] at harmed
      exact .await hid harmed fun hstage => (hlooks hstage).concat hquiet
  | giveBack hid hgives => exact .giveBack hid (hgives.concat move)
  | launch => exact .launch

theorem grace_run (w : World σ) (moves : List (Move σ)) :
    (w.run moves).transport.grace = w.transport.grace := by
  rw [Transport.grace, Transport.grace, (setup_run w moves).1]

section
variable {now : Instant} {expired : Bool} {caller : Waker} {t : Transport} {next : Procedure}

theorem Standing.go (hb : b.Solo) (hcalls : (b.run front).Calls .starting call)
    (h : b.Standing uri front call)
    (hrule : (b.run front).transport.Rule now caller call t next)
    (hopen : ∀ result, next ≠ .finished result) :
    b.Standing uri (front ++ [.go 0 now expired]) next := by
  have hgrace := b.grace_run front
  have hstage := (hb.run front).stage hcalls
  cases h with
  | reap hdetached =>
      cases hrule with
      | nothingLeft => exact .launch
      | reap hid => exact .await (hdetached.symm.trans hid) nofun nofun
  | @await id alarm stage hid harmed hlooks =>
      have hkept : ∀ due, alarm = some due →
          ∃ armed ∈ moments (front ++ [.go 0 now expired]), due = armed + b.transport.grace := by
        intro due hdue
        obtain ⟨armed, hmem, heq⟩ := harmed due hdue
        exact ⟨armed, mem_moments_concat (List.mem_cons_of_mem _ hmem), heq⟩
      obtain ⟨armed, hmem, hdue⟩ := exists_armed now harmed
      cases hrule with
      | lost hrun => simp [Nat.not_le_of_lt hstage.await.1] at hrun
      | flagged | signalled => exact .launch
      | unflagged | wake => exact .await hid hkept nofun
      | unsignalled hrun hsilent =>
          have hlive := fun hgone => hsilent ((hb.run front).raised_of_gone hcalls rfl hrun hgone)
          exact .await hid hkept fun _ => .intro hcalls.threads hrun hlive rfl
      | expire _ hover =>
          rw [hgrace, hdue] at hover
          exact .giveBack hid (.intro (hlooks rfl) hmem hdue hover)
      | arm =>
          refine .await hid ?_ nofun
          rintro due ⟨⟩
          exact ⟨armed, mem_moments_concat hmem, by rw [hgrace, hdue]⟩
  | giveBack =>
      cases hrule
      exact absurd rfl (hopen _)
  | launch => cases hrule <;> exact absurd rfl (hopen _)

end

/-- What a step makes of a start that is not over. -/
inductive Advances (b : World σ) (uri : String) (front : List (Move σ)) (now : Instant)
    (expired : Bool) : Procedure → Prop
  | on {next} (h : b.Pending uri (front ++ [.go 0 now expired]) next) :
      Advances b uri front now expired next
  /-- A run is in progress. -/
  | refused {id : Nat} (hrunning : b.transport.running = some id)
      (hsame : (b.run (front ++ [.go 0 now expired])).transport = (b.run front).transport) :
      Advances b uri front now expired (.finished (.error .alreadyStarted))
  /-- A worker that was left behind is left behind again. -/
  | busy {id : Nat} (hid : b.transport.detached = some id)
      (hgives : b.GivesUp id (front ++ [.go 0 now expired]))
      (hstep : (b.run (front ++ [.go 0 now expired])).transport =
        { (b.run front).transport with detached := some id }) :
      Advances b uri front now expired (.finished (.error .busy))
  /-- A run begins. -/
  | launched (hrunning : b.transport.running = none)
      (hstep : (b.run (front ++ [.go 0 now expired])).transport =
        (b.run front).transport.launch uri now) :
      Advances b uri front now expired (.finished (.ok ()))

theorem Pending.not_finished (h : b.Pending uri front call)
    (result : Except TransportError Unit) : call ≠ .finished result := by
  rintro rfl
  cases h.standing

theorem Pending.go (hb : b.Solo) (h : b.Pending uri front call) (now : Instant) (expired : Bool) :
    ∃ next, (b.run (front ++ [.go 0 now expired])).Calls .starting next ∧
      (b.run front).transport.Rule now (waker 0) call
        (b.run (front ++ [.go 0 now expired])).transport next ∧
      b.Advances uri front now expired next := by
  obtain ⟨next, hnext, hrule⟩ :=
    h.calls.go (h.calls.result?_eq_none h.not_finished) now expired
  rw [← run_concat] at hnext hrule
  refine ⟨next, hnext, hrule, ?_⟩
  have hon (hopen : ∀ result, next ≠ .finished result) :
      b.Advances uri front now expired next := by
    obtain ⟨hlength, hrunning⟩ := progress_rule ((hb.run front).startStage h.calls) hrule hopen
    exact .on ⟨hnext, hlength.trans h.length, hrunning.trans h.running,
      h.standing.go hb h.calls hrule hopen⟩
  generalize ht : (b.run (front ++ [.go 0 now expired])).transport = t at hrule
  cases h.standing with
  | reap => cases hrule <;> exact hon nofun
  | await => cases hrule <;> exact hon nofun
  | giveBack hid hgives =>
      cases hrule
      exact .busy hid (hgives.concat _) ht
  | launch =>
      cases hrule with
      | refuse hid => exact .refused (h.running.symm.trans hid) ht
      | launch hidle => exact .launched (h.running.symm.trans hidle) ht

theorem pending_run (hb : b.Solo) (hcall : b.Calls .starting (.reap uri))
    (hopen : b.Unanswered front) : ∃ call, b.Pending uri front call := by
  induction front using List.reverseRecOn with
  | nil => exact ⟨_, hcall, rfl, rfl, .reap rfl⟩
  | append_singleton front move ih =>
      have hlast := hopen _ (List.prefix_refl _)
      obtain ⟨call, h⟩ := ih hopen.append.1
      rcases quiet_or_go move with hquiet | ⟨now, expired, rfl⟩
      · exact ⟨call, h.rest hquiet⟩
      · obtain ⟨next, hnext, -, hadvances⟩ := h.go hb now expired
        have hnot := hnext.not_finished hlast
        cases hadvances with
        | on h => exact ⟨next, h⟩
        | refused | busy | launched => exact absurd rfl (hnot _)

/-! ## What a start answers -/

/-- An answered start was pending until its last step. -/
theorem Answers.advances (hb : b.Solo) (hcall : b.Calls .starting (.reap uri))
    {during : List (Move σ)} {result : Except TransportError Unit}
    (h : b.Answers during result) :
    ∃ front now expired call, during = front ++ [.go 0 now expired] ∧ b.Pending uri front call ∧
      b.Advances uri front now expired (.finished result) := by
  rcases List.eq_nil_or_concat during with rfl | ⟨front, move, rfl⟩
  · cases hcall.result?_eq_some_iff.mp h.1
  rw [List.concat_eq_append] at h ⊢
  obtain ⟨call, hpending⟩ := pending_run hb hcall (h.unanswered (List.cons_ne_nil _ _))
  rcases quiet_or_go move with hquiet | ⟨now, expired, rfl⟩
  · have hlast := hpending.rest hquiet
    exact absurd (hlast.calls.result?_eq_some_iff.mp h.1) (hlast.not_finished _)
  · obtain ⟨next, hnext, -, hadvances⟩ := hpending.go hb now expired
    obtain rfl := hnext.result?_eq_some_iff.mp h.1
    exact ⟨front, now, expired, call, rfl, hpending, hadvances⟩

theorem Looks.stands (hb : b.Solo) {alarm : Option Instant} (h : b.Looks id alarm front) :
    ∃ uri, (b.run front).Calls .starting
      (.await id alarm .timer (.launch uri) (.detach id (.finished (.error .busy)))) := by
  cases h with
  | @intro front now expired quiet exited late run hwaits hrun hlive hquiet =>
      have hcalls : (b.run front).Calls .starting (.await id alarm .signal exited late) :=
        ⟨hwaits, .inl rfl⟩
      obtain ⟨next, hnext, hrule⟩ := hcalls.go (hcalls.result?_eq_none nofun) now expired
      have hstage := (hb.run front).startStage hcalls
      rw [run_append]
      have hstill := hnext.of_still (hnext.still_run hquiet)
      generalize ((b.run front).step (.go 0 now expired)).transport = t at hrule
      cases hrule with
      | lost hnone => simp [hrun] at hnone
      | signalled hrun' hraised =>
          obtain rfl := Option.some.inj (hrun.symm.trans hrun')
          exact absurd ((hb.run front).gone_of_raised hrun hraised) hlive
      | unsignalled =>
          cases hstage
          exact ⟨_, hstill⟩

/-- Who gives up goes on to leave the run behind. -/
theorem GivesUp.leaves (hb : b.Solo) {moves : List (Move σ)} (h : b.GivesUp id moves) :
    ∃ front back, moves = front ++ back ∧
      (b.run front).Calls .starting (.detach id (.finished (.error .busy))) := by
  cases h with
  | @intro front back now expired alarm armed hlooks _ hdue hover =>
      obtain ⟨uri, hcalls⟩ := hlooks.stands hb
      obtain ⟨next, hnext, hrule⟩ := hcalls.go (hcalls.result?_eq_none nofun) now expired
      refine ⟨front ++ [.go 0 now expired], back, by simp, ?_⟩
      rw [run_concat]
      generalize ((b.run front).step (.go 0 now expired)).transport = t at hrule
      cases hrule with
      | lost | expire => exact hnext
      | arm _ hearly =>
          rw [grace_run, hdue] at hearly
          exact absurd hover (Nat.not_le_of_lt hearly)

theorem answer_of_detach {w : World σ} {result result' : Except TransportError Unit}
    (h : w.Calls .starting (.detach id (.finished result))) {moves : List (Move σ)}
    (hanswers : w.Answers moves result') : result' = result := by
  induction moves generalizing w with
  | nil => cases h.result?_eq_some_iff.mp hanswers.1
  | cons move moves ih =>
      have htail := hanswers.tail
      rcases quiet_or_go move with hquiet | ⟨now, expired, rfl⟩
      · exact ih (h.of_still (h.still hquiet)) htail
      · obtain ⟨next, hnext, hrule⟩ := h.go (h.result?_eq_none nofun) now expired
        generalize (w.step (.go 0 now expired)).transport = t at hrule
        cases hrule
        exact htail.eq_of_result? (hnext.result?_eq_some_iff.mpr rfl)

/-- What a start answers that is called in the world `b`, and what has become of the transport by
then. -/
structure Started (b : World σ) (uri : String) (during : List (Move σ))
    (result : Except TransportError Unit) : Prop where
  answer : result = .ok () ∨ result = .error .alreadyStarted ∨ result = .error .busy
  /-- A run is in progress. -/
  alreadyStarted_iff : result = .error .alreadyStarted ↔ b.transport.isRunning = true
  /-- A run was left behind, and its worker was not gone when the caller looked for the last time
  before the grace period was over. -/
  busy_iff : result = .error .busy ↔
    ∃ id, b.transport.detached = some id ∧ b.GivesUp id during
  /-- A worker that was left behind and has not ended by now makes the start fail. -/
  busy_of_live : ∀ id c, b.transport.detached = some id →
    (b.run during).course? id = some c → c.shared.stop.hasExited = false →
      result = .error .busy
  /-- A start that fails shows in none of its steps, and leaves the books as they were. -/
  failed : result ≠ .ok () →
    (∀ front now expired, front ++ [.go 0 now expired] <+: during →
      (b.run (front ++ [.go 0 now expired])).transport.view = (b.run front).transport.view) ∧
    (b.run during).transport.runs.length = b.transport.runs.length ∧
    (b.run during).transport.running = b.transport.running ∧
    (b.run during).transport.detached = b.transport.detached
  /-- A start that succeeds has begun a run, of which nothing is known yet; all earlier workers have
  ended. As long as no stop is called, what is known of the run comes from its own worker and from
  those who send and receive. -/
  succeeded : result = .ok () → ∃ now,
    let id := b.transport.runs.length
    let c := Course.fresh uri b.transport.config b.transport.outboundCapacity
      b.transport.inboundCapacity now
    (b.run during).transport.view = .begun uri ∧ (b.run during).course? id = some c ∧
      (∀ j d, (b.run during).course? j = some d → j ≠ id → d.shared.stop.hasExited = true) ∧
      ∀ after, (b.run during).Unstopped after →
        ((b.run during).run after).transport.running = some id ∧
        ((b.run during).run after).transport.uri? = some uri ∧
        ∃ d, ((b.run during).run after).course? id = some d ∧ c.Undisturbed d

section
variable {during : List (Move σ)} {result : Except TransportError Unit}

/-- The steps of a start are not seen, unless a run begins. -/
theorem Answers.view_eq (hb : b.Solo) (hcall : b.Calls .starting (.reap uri))
    (h : b.Answers during result) (hfailed : result ≠ .ok ()) {now : Instant} {expired : Bool}
    (hpart : front ++ [.go 0 now expired] <+: during) :
    (b.run (front ++ [.go 0 now expired])).transport.view = (b.run front).transport.view := by
  obtain ⟨back, rfl⟩ := hpart
  have hopen : b.Unanswered front := by
    rw [List.append_assoc] at h
    exact h.unanswered (by simp)
  obtain ⟨call, hpending⟩ := pending_run hb hcall hopen
  obtain ⟨next, hnext, hrule, -⟩ := hpending.go hb now expired
  have hstanding := hpending.standing
  apply Transport.view_rule hrule
  · rintro rfl
    cases hstanding
  · rintro id writes rest rfl
    cases hstanding
  · rintro rfl
    have hresult := hnext.result?_eq_some_iff.mpr rfl
    exact hfailed (h.drop.eq_of_result? hresult)

theorem Answers.busy_of_givesUp (hb : b.Solo) (h : b.Answers during result)
    (hgives : b.GivesUp id during) : result = .error .busy := by
  obtain ⟨before, back, rfl, hleaves⟩ := hgives.leaves hb
  exact answer_of_detach hleaves h.drop

theorem Answers.started_of_refused (hb : b.Solo) (hcall : b.Calls .starting (.reap uri))
    (h : b.Answers during (.error .alreadyStarted)) (hpending : b.Pending uri front call)
    (hrunning : b.transport.running = some id)
    (hsame : (b.run during).transport = (b.run front).transport) :
    b.Started uri during (.error .alreadyStarted) := by
  have hnone : b.transport.detached = none := hb.one_booked.resolve_left (by simp [hrunning])
  have hstill : (b.run front).transport.detached = none :=
    (hb.run front).one_booked.resolve_left (by simp [hpending.running, hrunning])
  exact {
    answer := .inr (.inl rfl)
    alreadyStarted_iff := by simp [Transport.isRunning, hrunning]
    busy_iff := ⟨nofun, fun ⟨_, _, hgives⟩ => h.busy_of_givesUp hb hgives⟩
    busy_of_live := by simp [hnone]
    failed := by
      intro hfailed
      rw [hsame]
      exact ⟨fun _ _ _ hpart => h.view_eq hb hcall hfailed hpart, hpending.length,
        hpending.running, hstill.trans hnone.symm⟩
    succeeded := nofun }

theorem Answers.started_of_busy (hb : b.Solo) (hcall : b.Calls .starting (.reap uri))
    (h : b.Answers during (.error .busy)) (hpending : b.Pending uri front call)
    (hid : b.transport.detached = some id) (hgives : b.GivesUp id during)
    (hstep : (b.run during).transport =
      { (b.run front).transport with detached := some id }) :
    b.Started uri during (.error .busy) := by
  have hnone : b.transport.running = none := hb.one_booked.resolve_right (by simp [hid])
  exact {
    answer := .inr (.inr rfl)
    alreadyStarted_iff := by simp [Transport.isRunning, hnone]
    busy_iff := ⟨fun _ => ⟨id, hid, hgives⟩, fun _ => rfl⟩
    busy_of_live := fun _ _ _ _ _ => rfl
    failed := by
      intro hfailed
      rw [hstep]
      exact ⟨fun _ _ _ hpart => h.view_eq hb hcall hfailed hpart, hpending.length,
        hpending.running, hid.symm⟩
    succeeded := nofun }

section
variable {now : Instant} {expired : Bool} (hb : b.Solo) (hpending : b.Pending uri front call)
  (hstep : (b.run (front ++ [.go 0 now expired])).transport =
    (b.run front).transport.launch uri now)
include hb hpending hstep

theorem Pending.course?_of_launched :
    (b.run (front ++ [.go 0 now expired])).course? b.transport.runs.length =
      some (.fresh uri b.transport.config b.transport.outboundCapacity
        b.transport.inboundCapacity now) := by
  have hrule := step_rule (b.run front) (.go 0 now expired)
  rw [← run_concat] at hrule
  have hcourse := course?_of_launch (hb.run front).custody.sound hrule hstep
  obtain ⟨hconfig, houtbound, hinbound⟩ := setup_run b front
  rwa [hpending.length, hconfig, houtbound, hinbound] at hcourse

/-- A run begins when all earlier workers have ended. -/
theorem Pending.exited_of_launched {j : Nat} {d : Course}
    (hd : (b.run (front ++ [.go 0 now expired])).course? j = some d)
    (hj : j ≠ b.transport.runs.length) : d.shared.stop.hasExited = true := by
  apply (hb.run _).custody.exited_of_earlier hd
  rw [hstep, Transport.launch, List.length_append, hpending.length]
  exact fun heq => hj (Nat.succ.inj heq)

theorem Answers.started_of_launched (h : b.Answers (front ++ [.go 0 now expired]) (.ok ()))
    (hrunning : b.transport.running = none) :
    b.Started uri (front ++ [.go 0 now expired]) (.ok ()) := by
  have hcourse := hpending.course?_of_launched hb hstep
  have hlatest : (b.run (front ++ [.go 0 now expired])).transport.running =
      some b.transport.runs.length := by
    rw [hstep, ← hpending.length]
    rfl
  exact {
    answer := .inl rfl
    alreadyStarted_iff := by simp [Transport.isRunning, hrunning]
    busy_iff := ⟨nofun, fun ⟨_, _, hgives⟩ => h.busy_of_givesUp hb hgives⟩
    busy_of_live := by
      intro j d hj hd hlive
      have hlt := (hb.custody.sound.detached j hj).1
      simp [hpending.exited_of_launched hb hstep hd (Nat.ne_of_lt hlt)] at hlive
    failed := fun hfailed => absurd rfl hfailed
    succeeded := by
      intro _
      refine ⟨now, ?_, hcourse, fun _ _ => hpending.exited_of_launched hb hstep, ?_⟩
      · rw [hstep]
        exact Transport.view_launch _ uri now
      · intro after hafter
        obtain ⟨hstill, d, hd, hundisturbed⟩ := (hb.run _).undisturbed_run hafter hlatest hcourse
        refine ⟨hstill, ?_, d, hd, hundisturbed⟩
        rw [uri?_of_course? hstill hd, hundisturbed.uri_eq]
        rfl }

end

theorem Answers.started (hb : b.Solo) (hcall : b.Calls .starting (.reap uri))
    (h : b.Answers during result) : b.Started uri during result := by
  obtain ⟨front, now, expired, call, rfl, hpending, hadvances⟩ := h.advances hb hcall
  cases hadvances with
  | on hlast => exact absurd rfl (hlast.not_finished _)
  | refused hrunning hsame => exact h.started_of_refused hb hcall hpending hrunning hsame
  | busy hid hgives hstep => exact h.started_of_busy hb hcall hpending hid hgives hstep
  | launched hrunning hstep => exact Answers.started_of_launched hb hpending hstep h hrunning

end

/-- However a single caller starts and stops a transport, and whatever workers, network and clock
do meanwhile: at most one run is on the books, and at most one worker has not ended. A call comes to
its end when the caller makes enough steps up to some moment, and as many again after the grace
period. A start answers, and does, what `Started` says. After a stop nothing is seen of a run until
a start has answered that one has begun, and whoever sends learns that no run is in progress. -/
theorem lifecycle_of_one_caller (config : LinkConfig) (outbound inbound : Nat) (net : σ)
    (moves : List (Move σ)) :
    let w := (fresh config outbound inbound 1 net).run moves
    (w.transport.running = none ∨ w.transport.detached = none) ∧
    w.transport.runs.countP (fun run => !run.shared.stop.hasExited) ≤ 1 ∧
    (w.threads = [.idle] → ∀ request, request = .stop ∨ (∃ uri, request = .start uri) →
      ∀ first second moment, (∀ now ∈ moments first, now ≤ moment) →
        longestCall ≤ (moments first).length →
        (∀ now ∈ moments second, moment + w.transport.grace ≤ now) →
        longestCall ≤ (moments second).length →
        ∃ front result, front <+: first ++ second ∧
          (w.step (.ask 0 request)).Answers front result) ∧
    (w.threads = [.idle] → ∀ uri during result,
      (w.step (.ask 0 (.start uri))).transport = w.transport ∧
      ((w.step (.ask 0 (.start uri))).Answers during result →
        (w.step (.ask 0 (.start uri))).Started uri during result)) ∧
    ∀ result after, w.threads = [.stopping (.finished result)] → w.Unlaunched after →
      (w.run after).transport.view = .stopped ∧
      ∀ net now m limit, Timeline.send ⟨(w.run after).transport, net, now⟩ m limit =
        (.error .notRunning, ⟨(w.run after).transport, net, now⟩) := by
  intro w
  have hw : w.Solo := (Solo.fresh config outbound inbound net).run moves
  have htakes : w.Takes :=
    takes_run (.fresh config outbound inbound net) (takes_fresh _ _ _ _ _) moves
  refine ⟨hw.one_booked, hw.live_le_one, ?_, ?_, ?_⟩
  · intro hidle request hrequest first second moment hfirst hmany hsecond hmore
    have hnext : (w.step (.ask 0 request)).Solo := hw.step _
    rw [← grace_step w (.ask 0 request)] at hsecond
    rcases hrequest with rfl | ⟨uri, rfl⟩
    · exact hnext.answered_in_time (calls_of_stop hidle) rfl hfirst hmany hsecond hmore
    · exact hnext.answered_in_time (calls_of_start hidle uri) rfl hfirst hmany hsecond hmore
  · intro hidle uri during result
    refine ⟨?_, fun h => h.started (hw.step _) (calls_of_start hidle uri)⟩
    simp [step, hidle, begin, turn]
  · intro result after hstopped hlaunch
    have hrunning := (htakes _ hstopped).resolve_left (by simp)
    have hstill := hw.not_running_run hlaunch hrunning
    exact ⟨Transport.view_of_not_running hstill, fun _ _ _ _ => by simp [Timeline.send, hstill]⟩

/-- One thread, and a network on which two connects succeed. -/
def soloHub : World Network :=
  fresh .default 16 16 1 { Network.silent with outcomes := [.ok (), .ok ()] }

/-- A stop leaves a worker behind that is inside a connect. -/
def leaving : List (Move Network) :=
  [.ask 0 (.start "ws://hub"), .go 0 0 false, .go 0 0 false, .go 0 0 false] ++
    .replicate 4 (.work 0 0) ++ [.ask 0 .stop] ++ .replicate 9 (.go 0 0 false) ++
      .replicate 9 (.go 0 (milliseconds 500) false)

/-- A start waits for that worker and gives up. -/
def refusal : List (Move Network) :=
  .replicate 4 (.go 0 (milliseconds 500) false) ++ .replicate 4 (.go 0 (milliseconds 1000) false)

/-- Nobody is in a call after that stop, and after that start and the end of the worker. -/
def idleAfterStop : List (Move Network) :=
  leaving ++ [.go 0 (milliseconds 500) false]

def idleAfterExit : List (Move Network) :=
  idleAfterStop ++ .ask 0 (.start "ws://hub") :: refusal ++ [.go 0 (milliseconds 1000) false] ++
    .replicate 12 (.work 0 (milliseconds 1000))

/-- The first start after the stop is answered that the transport is busy; the next one begins a
run, at which nothing has happened; in between nothing is seen of the run that was left behind. -/
theorem lifecycle_of_soloHub :
    (∃ id, (soloHub.run idleAfterStop).transport.detached = some id ∧
      ((soloHub.run idleAfterStop).step (.ask 0 (.start "ws://hub"))).GivesUp id refusal) ∧
    ((soloHub.run leaving).run [.work 0 0, .work 0 0]).transport.view = .stopped ∧
    (((soloHub.run idleAfterExit).step (.ask 0 (.start "ws://next"))).run
      (.replicate 3 (.go 0 0 false))).transport.view = .begun "ws://next" ∧
    ∃ front result, front <+: .replicate 15 (.go 0 0 false) ++
        .replicate 15 (.go 0 (milliseconds 500) false) ∧
      ((soloHub.run idleAfterStop).step (.ask 0 .stop)).Answers front result := by
  have hstopped : (soloHub.run leaving).threads = [.stopping (.finished (.ok ()))] := by rfl
  have hidle : (soloHub.run idleAfterStop).threads = [.idle] := by rfl
  have hlater : (soloHub.run idleAfterExit).threads = [.idle] := by rfl
  have hquiet : (soloHub.run leaving).Unlaunched [.work 0 0, .work 0 0] := by decide +kernel
  have hbusy : ((soloHub.run idleAfterStop).step (.ask 0 (.start "ws://hub"))).Answers refusal
      (.error .busy) := by
    decide +kernel
  have hok : ((soloHub.run idleAfterExit).step (.ask 0 (.start "ws://next"))).Answers
      (.replicate 3 (.go 0 0 false)) (.ok ()) := by
    decide +kernel
  obtain ⟨-, -, -, -, hafter⟩ := lifecycle_of_one_caller _ _ _ _ leaving
  obtain ⟨-, -, htimely, hstart, -⟩ := lifecycle_of_one_caller _ _ _ _ idleAfterStop
  obtain ⟨-, -, -, hrestart, -⟩ := lifecycle_of_one_caller _ _ _ _ idleAfterExit
  refine ⟨?_, (hafter _ _ hstopped hquiet).1, ?_, ?_⟩
  · exact ((hstart hidle _ _ _).2 hbusy).busy_iff.mp rfl
  · obtain ⟨now, hview, -⟩ := ((hrestart hlater _ _ _).2 hok).succeeded rfl
    exact hview
  · exact htimely hidle .stop (.inl rfl) _ _ 0 (by decide) (by decide) (by decide +kernel)
      (by decide)

end World

end Uplink
