import Uplink.Proofs.Worker.Attempts
import Uplink.Proofs.Worker.Publication

/-! # Reconnecting

A worker keeps to the order of its landmarks, and its backoff to the failures in a row. So it
waits after each failed connect as long as the schedule says, and after nothing else before it
connects. -/

namespace Uplink

/-! ## Where a worker stands -/

namespace Worker

/-- A worker is at a place, after so many failures in a row. -/
inductive Stands (schedule : List UInt32) (t : StopToken) (w : Worker) : Nat → Place → Prop
  | idle {failures} (hsession : w.session = none) (hopening : w.phase.isOpening = false)
      (hpausing : w.phase.isPausing = false) (hbackoff : w.backoff.At schedule failures) :
      Stands schedule t w failures .idle
  | dialing {failures} (hsession : w.session = none) (hphase : w.phase = .connecting)
      (hbackoff : w.backoff.At schedule failures) : Stands schedule t w failures .dialing
  | opened {failures session} (hsession : w.session = none)
      (hphase : w.phase = .connected (.ok session) ∨ w.phase = .greeting session)
      (hbackoff : w.backoff.At schedule failures) : Stands schedule t w failures .opened
  /-- The last one of the failures is still to be settled. -/
  | refused {failures e} (hsession : w.session = none) (hphase : w.phase = .connected (.error e))
      (hbackoff : w.backoff.At schedule failures) : Stands schedule t w (failures + 1) .failed
  | pausing {failures delay alarm stage} (hsession : w.session = none)
      (hphase : w.phase = .waiting .retry (duration delay) alarm stage)
      (hdelay : schedule[min failures schedule.length - 1]? = some delay)
      (halarm : ∀ due, alarm = some due → duration delay ≤ due)
      (hbackoff : w.backoff.At schedule failures) : Stands schedule t w failures .failed
  | linked {session} (hsession : w.session = some session) (hopening : w.phase.isOpening = false)
      (hpausing : w.phase.isPausing = false) (hbackoff : w.backoff.At schedule 0) :
      Stands schedule t w 0 .linked
  | halted {failures} (hsession : w.session = none)
      (hphase : w.phase = .choosing ∨ w.phase = .exited) (hasked : t.isRequested = true) :
      Stands schedule t w failures .halted

variable {now : Instant} {w w' : Worker} {s s' : Shared} {h : History} {schedule : List UInt32}
  {failures : Nat} {place : Place}

/-- A worker goes on from one place to the next, or stays where it is. -/
def Proceeds (schedule : List UInt32) (failures : Nat) (place : Place) (mark? : Option Landmark)
    (w' : Worker) (t : StopToken) : Prop :=
  ∃ next, Way schedule failures place mark?.toList next ∧
    w'.Stands schedule t (failuresFrom failures mark?.toList) next

theorem proceeds_of_none {t : StopToken} {mark? : Option Landmark} (hmark : mark? = none)
    (hstands : w'.Stands schedule t failures place) :
    Proceeds schedule failures place mark? w' t := by
  subst hmark
  exact ⟨place, .nil, hstands⟩

theorem proceeds_of_some {t : StopToken} {mark? : Option Landmark} {mark : Landmark} {next : Place}
    (hmark : mark? = some mark) (hlead : Leads schedule failures place mark next)
    (hstands : w'.Stands schedule t (mark.tally failures) next) :
    Proceeds schedule failures place mark? w' t := by
  subst hmark
  exact ⟨next, .cons hlead .nil, hstands⟩

/-! One lemma for each place that a worker may be at: by which landmark it leaves. -/

/-- Without a session a worker waits after a failed connect only. -/
theorem not_waiting (hw : w.Sound s.stop) (hsession : w.session = none)
    (hpausing : w.phase.isPausing = false) (purpose : Purpose) (bound : Nat)
    (alarm : Option Instant) (stage : Stage) : w.phase ≠ .waiting purpose bound alarm stage := by
  intro hphase
  cases purpose with
  | retry => simp [hphase, Phase.isPausing] at hpausing
  | work =>
      obtain ⟨session, hheld⟩ := hw.held (by simp [hphase, Phase.isUsing])
      rw [hsession] at hheld
      cases hheld

theorem proceeds_idle (hw : w.Sound s.stop) (hsession : w.session = none)
    (hopening : w.phase.isOpening = false) (hpausing : w.phase.isPausing = false)
    (hbackoff : w.backoff.At schedule failures) (hrule : w.Rule now s h w' s') :
    Proceeds schedule failures .idle (w.strideTo now h w').landmark? w' s'.stop := by
  have hheld := hw.held
  have hnot := not_waiting hw hsession hpausing
  cases hrule with
  | dial _ hphase =>
      exact proceeds_of_some (landmark?_of_dial rfl hphase rfl rfl) .dial
        (.dialing hsession rfl hbackoff)
  | write | deliver | overflow | idleDrop | gone =>
      refine proceeds_of_none ?_ (.idle hsession hopening hpausing hbackoff)
      exact landmark?_of_same (by simp) rfl rfl
  | quit _ hphase | unpumped _ hphase =>
      refine proceeds_of_none ?_ (.idle hsession rfl rfl hbackoff)
      simp [Stride.landmark?, Stride.turn?, strideTo, hphase, hsession]
  | take _ hphase | park _ hphase | expire _ hphase | arm _ hphase | asked _ hphase
  | unasked _ hphase | listen _ hphase | wake _ hphase => exact absurd hphase (hnot _ _ _ _)
  | _ => simp_all [Phase.isOpening, Phase.isUsing]

theorem proceeds_dialing (hsession : w.session = none) (hphase : w.phase = .connecting)
    (hbackoff : w.backoff.At schedule failures) (hrule : w.Rule now s h w' s') :
    Proceeds schedule failures .dialing (w.strideTo now h w').landmark? w' s'.stop := by
  cases hrule with
  | write | deliver | overflow | idleDrop =>
      refine proceeds_of_none ?_ (.dialing hsession hphase hbackoff)
      exact landmark?_of_same (by simp) rfl rfl
  | connect outcome =>
      cases outcome with
      | ok =>
          refine proceeds_of_some rfl .opened ?_
          exact .opened hsession (.inl rfl) hbackoff
      | error e =>
          refine proceeds_of_some rfl .failed ?_
          exact .refused hsession rfl hbackoff
  | _ => simp_all

theorem proceeds_opened (hsession : w.session = none) {session : Session}
    (hphase : w.phase = .connected (.ok session) ∨ w.phase = .greeting session)
    (hbackoff : w.backoff.At schedule failures) (hrule : w.Rule now s h w' s') :
    Proceeds schedule failures .opened (w.strideTo now h w').landmark? w' s'.stop := by
  cases hrule with
  | write | deliver | overflow | idleDrop =>
      refine proceeds_of_none ?_ (.opened hsession hphase hbackoff)
      exact landmark?_of_same (by simp) rfl rfl
  | overtaken _ hconnected hasked =>
      exact proceeds_of_some
        (landmark?_of_overtaken (by simp [NetCall.isConnect]) hconnected rfl rfl)
        (.overtaken (.inl rfl)) (.halted hsession (.inl rfl) hasked)
  | accept _ hconnected =>
      refine proceeds_of_none ?_ (.opened hsession (.inr rfl) hbackoff)
      simp [Stride.landmark?, Stride.turn?, strideTo, hconnected, hsession]
  | greet _ hgreeting =>
      exact proceeds_of_some (landmark?_of_greet rfl hsession rfl) .established
        (.linked rfl rfl rfl hbackoff.reset)
  | _ => simp_all

/-- The failure is settled here: unless a stop was requested the backoff goes on by one delay. -/
theorem proceeds_failed (hsession : w.session = none) {e : ConnectError}
    (hphase : w.phase = .connected (.error e))
    (hbackoff : w.backoff.At schedule failures) (hrule : w.Rule now s h w' s') :
    Proceeds schedule (failures + 1) .failed (w.strideTo now h w').landmark? w' s'.stop := by
  cases hrule with
  | write | deliver | overflow | idleDrop =>
      refine proceeds_of_none ?_ (.refused hsession hphase hbackoff)
      exact landmark?_of_same (by simp) rfl rfl
  | refusedLate _ _ hasked =>
      exact proceeds_of_some (landmark?_of_overtaken (by simp) hphase rfl rfl)
        (.overtaken (.inr rfl)) (.halted hsession (.inl rfl) hasked)
  | refused =>
      exact proceeds_of_none (landmark?_of_refused rfl hphase rfl rfl)
        (.pausing hsession rfl hbackoff.peek nofun hbackoff.advance)
  | _ => simp_all

/-- The wait ends with its alarm, or with a request to stop. -/
theorem proceeds_pausing (hw : w.Sound s.stop) (hsession : w.session = none) {delay : UInt32}
    {alarm : Option Instant} {stage : Stage}
    (hphase : w.phase = .waiting .retry (duration delay) alarm stage)
    (hdelay : schedule[min failures schedule.length - 1]? = some delay)
    (halarm : ∀ due, alarm = some due → duration delay ≤ due)
    (hbackoff : w.backoff.At schedule failures) (hrule : w.Rule now s h w' s') :
    Proceeds schedule failures .failed (w.strideTo now h w').landmark? w' s'.stop := by
  have hdue_le : duration delay ≤ alarm.getD (now + duration delay) := by
    cases alarm with
    | none =>
        rw [Option.getD_none]
        exact Nat.le_add_left _ _
    | some due => exact halarm due rfl
  cases hrule with
  | write | deliver | overflow | idleDrop =>
      refine proceeds_of_none ?_ (.pausing hsession hphase hdelay halarm hbackoff)
      exact landmark?_of_same (by simp) rfl rfl
  | expire _ hwaiting hdue =>
      cases hphase.symm.trans hwaiting
      have hlong : alarm.getD (now + duration delay) - duration delay + duration delay ≤ now := by
        rwa [Nat.sub_add_cancel hdue_le]
      exact proceeds_of_some (landmark?_of_wait rfl hphase (by simp) rfl) (.waited hdelay hlong)
        (.idle hsession rfl rfl hbackoff)
  | arm _ hwaiting hdue =>
      cases hphase.symm.trans hwaiting
      refine proceeds_of_none ?_ (.pausing hsession rfl hdelay ?_ hbackoff)
      · simp [Stride.landmark?, Stride.turn?, strideTo, hphase, hsession]
      · rintro due ⟨⟩
        exact hdue_le
  | asked _ hwaiting hasked =>
      cases hphase.symm.trans hwaiting
      exact proceeds_of_some (landmark?_of_wait rfl hphase (by simp) rfl) (.cut hdelay)
        (.halted hsession (.inl rfl) hasked)
  | unasked _ hwaiting | listen _ hwaiting | wake _ hwaiting =>
      cases hphase.symm.trans hwaiting
      refine proceeds_of_none ?_ (.pausing hsession rfl hdelay halarm hbackoff)
      simp [Stride.landmark?, Stride.turn?, strideTo, hphase, hsession]
  | take _ hwaiting | park _ hwaiting =>
      have hwork := hw.aimed _ _ _ hwaiting
      simp_all
  | _ => simp_all

theorem proceeds_linked {session : Session} (hsession : w.session = some session)
    (hopening : w.phase.isOpening = false) (hpausing : w.phase.isPausing = false)
    (hbackoff : w.backoff.At schedule 0) (hrule : w.Rule now s h w' s') :
    Proceeds schedule 0 .linked (w.strideTo now h w').landmark? w' s'.stop := by
  have hwork (purpose : Purpose) (bound : Nat) (alarm : Option Instant) (stage : Stage)
      (hphase : w.phase = .waiting purpose bound alarm stage) : purpose = .work := by
    cases purpose with
    | retry => simp [hphase, Phase.isPausing] at hpausing
    | work => rfl
  cases hrule with
  | write | deliver | overflow | gone =>
      refine proceeds_of_none ?_ (.linked hsession hopening hpausing hbackoff)
      exact landmark?_of_same (by simp) rfl rfl
  | hangUp =>
      refine proceeds_of_some ?_ .ended (.idle rfl hopening hpausing hbackoff)
      rw [Stride.landmark?_eq_turn? (by simp [strideTo, NetCall.isConnect])]
      simp [Stride.turn?, strideTo, hsession]
  | quiet _ hphase =>
      refine proceeds_of_none ?_ (.linked hsession rfl rfl hbackoff)
      rw [Stride.landmark?_eq_turn? (by simp [strideTo, NetCall.isConnect])]
      simp [Stride.turn?, strideTo, hphase, hsession]
  | event event _ hphase =>
      refine proceeds_of_none ?_ (.linked rfl rfl rfl hbackoff)
      rw [Stride.landmark?_eq_turn? ?_]
      · simp [Stride.turn?, strideTo, hphase, hsession]
      · cases event <;> simp [strideTo, LinkEvent.isTerminal, NetCall.isConnect]
  | probe _ _ hphase | transmit _ _ hphase =>
      refine proceeds_of_none ?_ (.linked hsession rfl rfl hbackoff)
      rw [Stride.landmark?_eq_turn? (by simp [strideTo, NetCall.isConnect])]
      simp [Stride.turn?, strideTo, hphase, hsession]
  | take _ hphase | expire _ hphase | asked _ hphase =>
      obtain rfl := hwork _ _ _ _ hphase
      exact proceeds_of_some (landmark?_of_wait rfl hphase (by simp) rfl) .worked
        (.linked hsession rfl rfl hbackoff)
  | park _ hphase | arm _ hphase | unasked _ hphase | listen _ hphase | wake _ hphase =>
      obtain rfl := hwork _ _ _ _ hphase
      refine proceeds_of_none ?_ (.linked hsession rfl rfl hbackoff)
      simp [Stride.landmark?, Stride.turn?, strideTo, hphase, hsession]
  | quit _ hphase | tick _ hphase | pumped _ hphase | stale _ hphase | due _ hphase
  | rest _ hphase =>
      refine proceeds_of_none ?_ (.linked hsession rfl rfl hbackoff)
      simp [Stride.landmark?, Stride.turn?, strideTo, hphase, hsession]
  | _ => simp_all [Phase.isOpening]

theorem proceeds_halted (hsession : w.session = none)
    (hphase : w.phase = .choosing ∨ w.phase = .exited) (hw : w.Sound s.stop)
    (hasked : s.stop.isRequested = true) (hrule : w.Rule now s h w' s') :
    Proceeds schedule failures .halted (w.strideTo now h w').landmark? w' s'.stop := by
  have hasked' := (isRequested_rule hw hrule).trans hasked
  cases hrule with
  | write | deliver | overflow | idleDrop | gone =>
      refine proceeds_of_none ?_ (.halted hsession hphase hasked')
      exact landmark?_of_same (by simp) rfl rfl
  | quit _ hchoosing =>
      refine proceeds_of_none ?_ (.halted hsession (.inr rfl) hasked)
      simp [Stride.landmark?, Stride.turn?, strideTo, hchoosing, hsession]
  | _ => simp_all

/-- Every step of a worker keeps to the order of its landmarks. -/
theorem proceeds_rule (hw : w.Sound s.stop) (hstands : w.Stands schedule s.stop failures place)
    (hrule : w.Rule now s h w' s') :
    Proceeds schedule failures place (w.strideTo now h w').landmark? w' s'.stop := by
  cases hstands with
  | idle hsession hopening hpausing hbackoff =>
      exact proceeds_idle hw hsession hopening hpausing hbackoff hrule
  | dialing hsession hphase hbackoff => exact proceeds_dialing hsession hphase hbackoff hrule
  | opened hsession hphase hbackoff => exact proceeds_opened hsession hphase hbackoff hrule
  | refused hsession hphase hbackoff => exact proceeds_failed hsession hphase hbackoff hrule
  | pausing hsession hphase hdelay halarm hbackoff =>
      exact proceeds_pausing hw hsession hphase hdelay halarm hbackoff hrule
  | linked hsession hopening hpausing hbackoff =>
      exact proceeds_linked hsession hopening hpausing hbackoff hrule
  | halted hsession hphase hasked => exact proceeds_halted hsession hphase hw hasked hrule

/-! ## Every run -/

/-- At most one connect is in flight, and none after a stop has come in between. -/
theorem inFlight_le {t : StopToken} (hw : w.Owing) (hstands : w.Stands schedule t failures place) :
    w.inFlight ≤ if place = .halted then 0 else 1 := by
  have hfailures := hw.failures
  have hle : w.phase.isPausing.toNat + w.opening ≤ 1 := by
    cases hphase : w.phase with
    | waiting purpose => cases purpose <;> simp [opening, hphase, Phase.isPausing, Phase.isOpening]
    | _ => simp [opening, hphase, Phase.isPausing, Phase.isOpening]
  cases hstands with
  | halted _ hphase =>
      have hnone : w.phase.isPausing.toNat = 0 ∧ w.opening = 0 := by
        rcases hphase with hphase | hphase <;>
          simp [opening, hphase, Phase.isPausing, Phase.isOpening]
      rw [if_pos rfl, inFlight]
      omega
  | _ =>
      simp only [reduceCtorEq, if_false, inFlight]
      omega

/-- What others do leaves a worker where it is: a request to stop is never taken back. -/
theorem Stands.of_requested {t t' : StopToken} (h : w.Stands schedule t failures place)
    (hasked : t.isRequested = true → t'.isRequested = true) :
    w.Stands schedule t' failures place := by
  cases h with
  | idle hsession hopening hpausing hbackoff => exact .idle hsession hopening hpausing hbackoff
  | dialing hsession hphase hbackoff => exact .dialing hsession hphase hbackoff
  | opened hsession hphase hbackoff => exact .opened hsession hphase hbackoff
  | refused hsession hphase hbackoff => exact .refused hsession hphase hbackoff
  | pausing hsession hphase hdelay halarm hbackoff =>
      exact .pausing hsession hphase hdelay halarm hbackoff
  | linked hsession hopening hpausing hbackoff => exact .linked hsession hopening hpausing hbackoff
  | halted hsession hphase hbefore => exact .halted hsession hphase (hasked hbefore)

theorem Stands.requested_of_halted {t : StopToken} (h : w.Stands schedule t failures place)
    (hplace : place = .halted) : t.isRequested = true := by
  cases h with
  | halted _ _ hasked => exact hasked
  | _ => cases hplace

end Worker

namespace Course

/-- A run keeps to the law, with the landmarks that its worker has come to. -/
structure Lawful (c : Course) (schedule : List UInt32) (marks : List Landmark) : Prop where
  way : ∃ place, Way schedule 0 .idle marks place ∧
    c.worker.Stands schedule c.shared.stop (failuresFrom 0 marks) place
  counted : c.worker.Counted c.shared.status.stats marks
  owing : c.worker.Owing
  /-- Every connect on record is a landmark. -/
  recorded : c.history.calls.filterMap NetCall.outcome? = marks.filterMap Landmark.outcome?

theorem lawful_fresh (uri : String) {config : LinkConfig} (outbound inbound : Nat) (now : Instant)
    (hschedule : config.backoffSchedule ≠ []) :
    (fresh uri config outbound inbound now).Lawful config.backoffSchedule [] where
  way := ⟨.idle, .nil, .idle rfl rfl rfl (Backoff.at_ofSchedule hschedule config.schedule_le)⟩
  counted := ⟨rfl, rfl⟩
  owing := .of_none rfl rfl
  recorded := rfl

theorem lawful_rule {c : Course} {now : Instant} {w : Worker} {s : Shared} {h : History}
    {schedule : List UInt32} {marks : List Landmark} (hc : c.Reachable)
    (hrule : c.worker.Rule now c.shared h w s) (hlaw : c.Lawful schedule marks) :
    Lawful ⟨w, s, c.history ++ h⟩ schedule
      (marks ++ (c.worker.strideTo now h w).landmark?.toList) where
  way := by
    obtain ⟨place, hway, hstands⟩ := hlaw.way
    obtain ⟨next, hstep, hnext⟩ := Worker.proceeds_rule hc.sound hstands hrule
    refine ⟨next, hway.append hstep, ?_⟩
    rw [failuresFrom_append]
    exact hnext
  counted := Worker.counted_rule hc.sound hlaw.counted hrule
  owing := Worker.owing_rule hlaw.owing hrule
  recorded := by
    have hstride := Stride.outcomes_eq (s := c.worker.strideTo now h w)
      (Worker.connect_cases hrule)
    rw [History.calls_append, List.filterMap_append, List.filterMap_append, hlaw.recorded,
      ← hstride]
    rfl

/-- What others do changes no counter. -/
theorem stats_of_others {c d : Course} (h : c.Evolves d) (hstill : d.worker = c.worker) :
    d.shared.status.stats = c.shared.status.stats := by
  cases h with
  | work hrule => rw [(Worker.status_of_still hrule hstill).1]
  | @write x hx =>
      cases x with
      | count => cases hx
      | _ => rfl
  | _ => rfl

theorem Lawful.of_others {c d : Course} {schedule : List UInt32} {marks : List Landmark}
    (hlaw : c.Lawful schedule marks) (h : c.Evolves d) (hstill : d.worker = c.worker) :
    d.Lawful schedule marks where
  way := by
    obtain ⟨place, hway, hstands⟩ := hlaw.way
    exact ⟨place, hway, hstill ▸ hstands.of_requested h.isRequested⟩
  counted := by
    rw [hstill, stats_of_others h hstill]
    exact hlaw.counted
  owing := hstill ▸ hlaw.owing
  recorded := by
    rw [calls_of_others h hstill]
    exact hlaw.recorded

end Course

namespace World

variable {σ : Type} [Connector σ] {config : LinkConfig} {outbound inbound threads : Nat} {net : σ}

/-- The landmarks that the worker of a run comes to in some moves. -/
def landmarks (id : Nat) (w : World σ) (moves : List (Move σ)) : List Landmark :=
  Stride.landmarks (w.strides id moves)

theorem lawful_run (hschedule : config.backoffSchedule ≠ []) (moves : List (Move σ)) {id : Nat}
    {c : Course}
    (hc : ((fresh config outbound inbound threads net).run moves).course? id = some c) :
    c.Lawful config.backoffSchedule
      ((fresh config outbound inbound threads net).landmarks id moves) := by
  refine course_induction
    (P := fun _ strides c => c.Lawful config.backoffSchedule (Stride.landmarks strides))
    ?_ ?_ ?_ moves hc
  · intro w uri now _
    exact Course.lawful_fresh uri outbound inbound now hschedule
  · intro w w' strides c now worker shared h hreach hrule _ _ hlaw
    rw [Stride.landmarks_concat]
    exact Course.lawful_rule hreach hrule hlaw
  · intro w w' strides c d hw _ hrule hc hd hstill hlaw
    rcases eq_or_evolves hw hrule hc hd with rfl | hstep
    · exact hlaw
    · exact hlaw.of_others hstep hstill

/-- How a worker reconnects, whatever connects, links, threads and clock do. After the `k`-th failed
connect in a row it waits once, as long as entry `min k n - 1` of the schedule says, which has `n`
entries, and then it begins the next connect, unless a stop comes in between. After a session it
begins the next connect at once. As long as no session begins the waits do not become shorter. A
connect that is overtaken by a stop is the last one, and is no failure and no session. The
attempts that are counted are the failures that are counted, and the sessions, and at most one
more: a connect in flight, or the one that was overtaken. The connects that return among the
landmarks are those on record, no less and no more. -/
theorem reconnects_by_schedule (config : LinkConfig) (outbound inbound threads : Nat) (net : σ)
    (moves : List (Move σ)) (id : Nat) (c : Course) (hvalid : config.validate = .ok ())
    (hc : ((fresh config outbound inbound threads net).run moves).course? id = some c) :
    let schedule := config.backoffSchedule
    let marks := (fresh config outbound inbound threads net).landmarks id moves
    let stats := c.shared.status.stats
    (∀ front e rest, marks = front ++ .returned (.error e) :: rest →
      ∃ delay, schedule[min (failuresFrom 0 front + 1) schedule.length - 1]? = some delay ∧
        (rest = [] ∨ rest = [.overtaken] ∨ ∃ begun ended more,
          rest = .waited .retry (Worker.duration delay) begun ended :: more ∧
            (more = [] ∨
              begun + Worker.duration delay ≤ ended ∧ more.head? = some .dial))) ∧
      (∀ front rest, marks = front ++ .ended :: rest →
        rest = [] ∨ rest.head? = some .dial) ∧
      (∀ front bound begun ended between bound' begun' ended' rest,
        marks = front ++ .waited .retry bound begun ended ::
          (between ++ .waited .retry bound' begun' ended' :: rest) →
        .established ∉ between → bound ≤ bound') ∧
      (∀ front rest, marks = front ++ .overtaken :: rest →
        rest = [] ∧ c.shared.stop.isRequested = true) ∧
      stats.value .connectAttempts + .ofNat (c.worker.owes .connectAttempts) =
        .ofNat (marks.count .dial) ∧
      stats.value .connectAttempts = stats.value .connectFailures +
        .ofNat (marks.count .established) +
          .ofNat (c.worker.inFlight + marks.count .overtaken) ∧
      c.worker.inFlight + marks.count .overtaken ≤ 1 ∧
      c.history.calls.filterMap NetCall.outcome? = marks.filterMap Landmark.outcome? := by
  intro schedule marks stats
  obtain ⟨hschedule, hsorted⟩ := LinkConfig.schedule_of_validate hvalid
  obtain ⟨⟨place, hway, hstands⟩, hcounted, howing, hrecorded⟩ := lawful_run hschedule moves hc
  refine ⟨?_, ?_, ?_, ?_, hcounted.begun, hcounted.attempts_eq howing, ?_, hrecorded⟩
  · exact fun front e rest hmarks => hway.after_failure hschedule hmarks
  · exact fun front rest hmarks => hway.after_end hmarks
  · intro front bound begun ended between bound' begun' ended' rest hmarks hbetween
    exact hway.waits_le hsorted hmarks hbetween
  · intro front rest hmarks
    obtain ⟨hrest, hplace⟩ := hway.after_overtaken hmarks
    exact ⟨hrest, hstands.requested_of_halted hplace⟩
  · have hflight := Worker.inFlight_le howing hstands
    have hovertaken := hway.count_overtaken
    by_cases hplace : place = .halted
    · rw [if_pos hplace] at hflight hovertaken
      exact Nat.add_le_add hflight hovertaken
    · rw [if_neg hplace] at hflight hovertaken
      exact Nat.add_le_add hflight hovertaken

/-- Two connects fail, the third one succeeds, and its link is closed by the peer. -/
def flakyHub : World Network :=
  fresh .default 16 16 1
    { Network.silent with
      outcomes := [.error .unreachable, .error .timeout, .ok ()]
      events := [.disconnected] }

/-- The worker comes to the fourth connect. -/
def untilFourthDial : List (Move Network) :=
  [.ask 0 (.start "ws://hub"), .go 0 0 false, .go 0 0 false, .go 0 0 false] ++
    .replicate 14 (.work 0 0) ++ .replicate 40 (.work 0 (milliseconds 1000)) ++
    .replicate 20 (.work 0 (milliseconds 3000))

/-- It waits one second after the first failure and two after the second one. -/
theorem reconnects_of_flakyHub :
    LinkConfig.default.validate = .ok () ∧
      ∃ c, (flakyHub.run untilFourthDial).course? 0 = some c ∧
        flakyHub.landmarks 0 untilFourthDial =
          [.dial, .returned (.error .unreachable),
            .waited .retry (milliseconds 1000) 0 (milliseconds 1000), .dial,
            .returned (.error .timeout),
            .waited .retry (milliseconds 2000) (milliseconds 1000) (milliseconds 3000), .dial,
            .returned (.ok ()), .established, .ended, .dial] ∧
        c.shared.status.stats.value .connectAttempts + .ofNat (c.worker.owes .connectAttempts) =
          4 ∧
        c.shared.status.stats.value .connectAttempts =
          c.shared.status.stats.value .connectFailures + 1 + .ofNat c.worker.inFlight := by
  have hvalid : LinkConfig.default.validate = .ok () := by decide
  obtain ⟨c, hc⟩ : ∃ c, (flakyHub.run untilFourthDial).course? 0 = some c :=
    exists_course? (by decide +kernel)
  have hmarks : flakyHub.landmarks 0 untilFourthDial =
      [.dial, .returned (.error .unreachable),
        .waited .retry (milliseconds 1000) 0 (milliseconds 1000), .dial,
        .returned (.error .timeout),
        .waited .retry (milliseconds 2000) (milliseconds 1000) (milliseconds 3000), .dial,
        .returned (.ok ()), .established, .ended, .dial] := by
    decide +kernel
  have hcounts : (flakyHub.landmarks 0 untilFourthDial).count .dial = 4 ∧
      (flakyHub.landmarks 0 untilFourthDial).count .established = 1 ∧
      (flakyHub.landmarks 0 untilFourthDial).count .overtaken = 0 := by
    rw [hmarks]
    decide
  obtain ⟨hdials, hsessions, hovertaken⟩ := hcounts
  obtain ⟨-, -, -, -, hbegun, hattempts, -⟩ :=
    reconnects_by_schedule _ _ _ _ _ untilFourthDial 0 c hvalid hc
  refine ⟨hvalid, c, hc, hmarks, hbegun.trans (congrArg UInt32.ofNat hdials), ?_⟩
  rw [hattempts]
  simp only [flakyHub] at hsessions hovertaken
  rw [hsessions, hovertaken]
  rfl

end World

end Uplink
