import Uplink.Proofs.Worker.Publication
import Uplink.Proofs.Worker.Tick

/-! # The last sign of life

A run shows when it last had a sign of life: a session that the worker took up, or something that
came in over its link. The time is kept in whole milliseconds since the run was set up. -/

namespace Uplink

namespace Stride

/-- Whether the worker takes up a session that a connect has led to. -/
def opens (s : Stride) : Bool :=
  s.before.session.isNone && s.after.session.isSome

/-- Whether there is a sign of life. -/
def isVital (s : Stride) : Bool :=
  s.opens || s.events.any LinkEvent.isActivity

variable {p : Stride → Bool} {front back : List Stride} {t t' : Instant}

theorem latest?_append :
    latest? p (front ++ back) = (latest? p back).or (latest? p front) := by
  simp only [latest?, List.filter_append, List.getLast?_append]
  cases (back.filter p).getLast? <;> rfl

theorem latest?_eq_none_iff : latest? p front = none ↔ ∀ s ∈ front, p s = false := by
  simp [latest?]

/-- On a clock that does not go back, the latest one of more strides is not earlier. -/
theorem latest?_mono (hclock : ((front ++ back).map Stride.now).Pairwise (· ≤ ·))
    (h : latest? p front = some t) (h' : latest? p (front ++ back) = some t') : t ≤ t' := by
  rw [List.map_append, List.pairwise_append] at hclock
  rw [latest?_append, Option.or_eq_some_iff] at h'
  rcases h' with hback | ⟨-, hfront⟩
  · obtain ⟨s, hs, rfl⟩ := exists_of_latest? h
    obtain ⟨s', hs', rfl⟩ := exists_of_latest? hback
    exact hclock.2.2 _ (List.mem_map_of_mem hs) _ (List.mem_map_of_mem hs')
  · rw [h, Option.some.injEq] at hfront
    exact Nat.le_of_eq hfront

end Stride

namespace Status

/-- What is shown of a moment in a run that was set up at `epoch`: the milliseconds in between,
modulo `2 ^ 64`, where the greatest remainder stands for no moment at all. -/
def shown? (epoch moment : Instant) : Option Instant :=
  let ms := (moment - epoch) / milliseconds 1 % UInt64.size
  if ms = UInt64.size - 1 then none else some (epoch + milliseconds ms)

theorem lastActivity?_eq_bind {s : Status} {moment? : Option Instant}
    (h : s.activity = moment?.elim noActivity s.activityAt) :
    s.lastActivity? = moment?.bind (shown? s.epoch) := by
  rw [lastActivity?, h]
  cases moment? with
  | none => rfl
  | some moment =>
      have hcell : (s.activityAt moment).toNat =
          (moment - s.epoch) / milliseconds 1 % UInt64.size := by
        rw [activityAt, UInt64.toNat_ofNat']
      have hnone : s.activityAt moment = noActivity ↔
          (moment - s.epoch) / milliseconds 1 % UInt64.size = UInt64.size - 1 := by
        rw [← UInt64.toNat_inj, hcell]
        rfl
      simp only [Option.elim_some, Option.bind_some, shown?, hnone, hcell]

/-- In the range of the cell a moment is shown to the millisecond. -/
theorem shown?_of_lt {epoch moment : Instant}
    (h : moment - epoch < milliseconds (UInt64.size - 1)) :
    shown? epoch moment = some (epoch + milliseconds ((moment - epoch) / milliseconds 1)) := by
  have hms : (moment - epoch) / milliseconds 1 < UInt64.size - 1 := by
    rw [Nat.div_lt_iff_lt_mul (by decide)]
    exact Nat.lt_of_lt_of_eq h (by simp [milliseconds])
  have hmod : (moment - epoch) / milliseconds 1 % UInt64.size =
      (moment - epoch) / milliseconds 1 :=
    Nat.mod_eq_of_lt (Nat.lt_trans hms (by decide))
  simp only [shown?, hmod, Nat.ne_of_lt hms, if_false]

theorem shown?_near {epoch moment : Instant} (hle : epoch ≤ moment)
    (h : moment - epoch < milliseconds (UInt64.size - 1)) :
    ∃ shown, shown? epoch moment = some shown ∧
      shown = epoch + milliseconds ((moment - epoch) / milliseconds 1) ∧ shown ≤ moment ∧
        moment < shown + milliseconds 1 := by
  have hdiv : ∀ n : Nat, milliseconds (n / milliseconds 1) ≤ n ∧
      n < milliseconds (n / milliseconds 1) + milliseconds 1 := by
    intro n
    simp only [milliseconds]
    omega
  obtain ⟨hlow, hhigh⟩ := hdiv (moment - epoch)
  refine ⟨_, shown?_of_lt h, rfl, Nat.add_le_of_le_sub' hle hlow, ?_⟩
  rw [Nat.add_assoc]
  exact (Nat.sub_lt_iff_lt_add' hle).mp hhigh

/-- In the range of the cell an earlier moment is not shown as a later one. -/
theorem shown?_mono {epoch moment later : Instant} (hle : moment ≤ later)
    (h : later - epoch < milliseconds (UInt64.size - 1)) {shown : Instant}
    (hshown : shown? epoch moment = some shown) :
    ∃ shown', shown? epoch later = some shown' ∧ shown ≤ shown' := by
  have hearlier : moment - epoch ≤ later - epoch := Nat.sub_le_sub_right hle epoch
  rw [shown?_of_lt (Nat.lt_of_le_of_lt hearlier h), Option.some.injEq] at hshown
  refine ⟨_, shown?_of_lt h, ?_⟩
  rw [← hshown]
  exact Nat.add_le_add_left (Nat.mul_le_mul_right _ (Nat.div_le_div_right hearlier)) epoch

end Status

namespace Worker

/-! ## What is written -/

/-- The cell of the last sign of life as it will be after the next write. -/
def recording (w : Worker) (status : Status) : UInt64 :=
  match w.todo with
  | .write (.touch moment) :: _ => status.activityAt moment
  | _ => status.activity

/-- No sign of life is waiting to be written. -/
def Silent (todo : List Effect) : Prop :=
  ∀ moment, .write (.touch moment) ∉ todo

theorem recording_of_silent {w : Worker} (h : Silent w.todo) (status : Status) :
    w.recording status = status.activity := by
  unfold recording
  split
  · next moment rest htodo => exact absurd (htodo ▸ List.mem_cons_self) (h moment)
  · rfl

variable {now : Instant} {w w' v : Worker} {s s' : Shared} {h : History}
  {strides front : List Stride}

theorem epoch_rule (hrule : w.Rule now s h w' s') : s'.status.epoch = s.status.epoch := by
  cases hrule with
  | @write x => cases x <;> rfl
  | _ => rfl

/-- The cell changes only in the write of a sign of life. -/
theorem activity_rule (hrule : w.Rule now s h w' s') :
    s'.status.activity = w.recording s.status := by
  cases hrule with
  | @write x todo htodo => cases x <;> simp [recording, htodo, Shared.write] <;> rfl
  | deliver htodo | overflow htodo | hangUp htodo | idleDrop htodo => simp [recording, htodo]
  | _ => simp_all [recording]

theorem silent_eventEffects {session : Session} {event : LinkEvent}
    (h : event.isActivity = false) : Silent (eventEffects session event) := by
  intro moment
  cases event with
  | disconnected | failed =>
      simp [eventEffects, LinkEvent.isActivity, Effect.publish, Write.publish]
  | connected | data | keepAlive => cases h

/-- A sign of life is the first thing to be written after it. -/
theorem todo_of_isActivity (session : Session) {event : LinkEvent}
    (h : event.isActivity = true) :
    ∃ rest, eventEffects session event = .write (.touch session.lastActivity) :: rest ∧
      Silent rest := by
  cases event with
  | data m => exact ⟨[.write (.count .framesReceived), .deliver m], rfl, by simp [Silent]⟩
  | connected | keepAlive => exact ⟨[], rfl, by simp [Silent]⟩
  | disconnected | failed => cases h

/-- A stride that hands out no event and takes up no session has no sign of life. -/
theorem isVital_of_quiet (hcalls : h.calls.filterMap NetCall.event? = [])
    (hsession : w'.session.isSome = true → w.session.isSome = true) :
    (w.strideTo now h w').isVital = false := by
  have hopens : (w.strideTo now h w').opens = false := by
    cases hheld : w.session with
    | some session => simp [Stride.opens, strideTo, hheld]
    | none => simpa [Stride.opens, strideTo, hheld] using hsession
  rw [Stride.isVital, hopens, Stride.events, strideTo, hcalls]
  rfl

/-- A stride with a sign of life is followed by the write of it, and all its calls tell of the peer.
No other stride is followed by such a write. -/
theorem vital_cases (hs : w.Sound s.stop) (hsilent : Silent w.todo.tail)
    (hrule : w.Rule now s h w' s') :
    ((w.strideTo now h w').isVital = true ∧ (∀ call ∈ h.calls, call.isSign = true) ∧
        ∃ rest, w'.todo = .write (.touch now) :: rest ∧ Silent rest) ∨
      (w.strideTo now h w').isVital = false ∧ Silent w'.todo := by
  cases hrule with
  | greet htodo hphase =>
      have hnone : w.session = none := hs.vacant (by rw [hphase]; rfl)
      refine .inl ⟨?_, nofun, _, rfl, ?_⟩
      · simp [Stride.isVital, Stride.opens, strideTo, hnone, greet]
      · simp [Silent, Effect.publish, Write.publish]
  | @event left session event htodo hphase hsession hopen =>
      have hevents : (History.calls ((NetCall.poll (some event) ::
          if event.isTerminal then [.close] else []).map .called)).filterMap NetCall.event? =
            [event] := by
        cases event <;> rfl
      cases hactive : event.isActivity with
      | true =>
          have hlive : event.isTerminal = false := by cases event <;> first | rfl | cases hactive
          obtain ⟨rest, hrest, hquiet⟩ := todo_of_isActivity (session.after event now) hactive
          refine .inl ⟨?_, by simp [hlive, NetCall.isSign, hactive], rest, ?_, hquiet⟩
          · simp only [Stride.isVital, Stride.events, strideTo, hevents]
            simp [hactive]
          · simpa [Session.after, hactive] using hrest
      | false =>
          refine .inr ⟨?_, silent_eventEffects hactive⟩
          simp only [Stride.isVital, Stride.events, strideTo, hevents]
          simp [hactive, Stride.opens, hsession]
  | write htodo | deliver htodo | idleDrop htodo =>
      rw [htodo] at hsilent
      exact .inr ⟨isVital_of_quiet (by simp) id, hsilent⟩
  | overflow htodo =>
      rw [htodo] at hsilent
      refine .inr ⟨isVital_of_quiet (by simp) id, fun moment hmem => ?_⟩
      exact hsilent moment (by simpa using hmem)
  | hangUp htodo =>
      rw [htodo] at hsilent
      exact .inr ⟨isVital_of_quiet (by simp [NetCall.event?]) (by simp), hsilent⟩
  | overtaken htodo | connect _ htodo | quiet htodo =>
      exact .inr ⟨isVital_of_quiet (by simp [NetCall.event?]) id, by simp [Silent, htodo]⟩
  | probe =>
      refine .inr ⟨isVital_of_quiet (by simp [NetCall.event?]) id, ?_⟩
      simp only [probeEffects]
      split <;> simp [Silent]
  | transmit =>
      exact .inr ⟨isVital_of_quiet (by simp [NetCall.event?]) id, by simp [Silent]⟩
  | _ =>
      refine .inr ⟨isVital_of_quiet (by simp) (by simp_all), ?_⟩
      simp_all [Silent, farewell, Effect.publish, Write.publish]

/-- The cell shows the latest sign of life of all strides but the last one, and with the next write
that of all of them. -/
structure Recorded (strides : List Stride) (w : Worker) (status : Status) : Prop where
  shown : status.activity =
    (Stride.latest? Stride.isVital strides.dropLast).elim noActivity status.activityAt
  next : w.recording status =
    (Stride.latest? Stride.isVital strides).elim noActivity status.activityAt
  silent : Silent w.todo.tail

theorem recorded_fresh (uri : String) (config : LinkConfig) (launched epoch : Instant) :
    Recorded [] (fresh uri config launched) (.starting epoch) :=
  ⟨rfl, rfl, nofun⟩

theorem activityAt_of_epoch {status status' : Status} (h : status'.epoch = status.epoch) :
    status'.activityAt = status.activityAt := by
  funext moment
  rw [Status.activityAt, Status.activityAt, h]

theorem Recorded.of_same {status status' : Status} (hw : Recorded strides w status)
    (hepoch : status'.epoch = status.epoch) (hcell : status'.activity = status.activity) :
    Recorded strides w status' := by
  have hat : status'.activityAt = status.activityAt := activityAt_of_epoch hepoch
  have hnext : w.recording status' = w.recording status := by
    unfold recording
    split
    · rw [hat]
    · exact hcell
  exact ⟨by rw [hcell, hat]; exact hw.shown, by rw [hnext, hat]; exact hw.next, hw.silent⟩

theorem recorded_rule (hs : w.Sound s.stop) (hw : Recorded strides w s.status)
    (hrule : w.Rule now s h w' s') :
    Recorded (strides ++ [w.strideTo now h w']) w' s'.status := by
  have hshown : s'.status.activity =
      (Stride.latest? Stride.isVital strides).elim noActivity s'.status.activityAt := by
    rw [activity_rule hrule, activityAt_of_epoch (epoch_rule hrule)]
    exact hw.next
  refine ⟨by simpa using hshown, ?_, ?_⟩
  · rcases vital_cases hs hw.silent hrule with ⟨hvital, -, rest, htodo, -⟩ | ⟨hvital, hsilent⟩
    · rw [Stride.latest?_concat_of_pos hvital]
      simp [recording, htodo, strideTo]
    · rw [Stride.latest?_concat_of_neg hvital, recording_of_silent hsilent]
      exact hshown
  · rcases vital_cases hs hw.silent hrule with ⟨-, -, rest, htodo, hrest⟩ | ⟨-, hsilent⟩
    · rwa [htodo]
    · exact fun moment hmem => hsilent moment (List.mem_of_mem_tail hmem)

/-! ## Sessions and signs -/

/-- Without a session nothing comes in. -/
theorem events_of_vacant (hnone : w.session = none) (hrule : w.Rule now s h w' s') :
    h.calls.filterMap NetCall.event? = [] := by
  cases hrule with
  | overtaken | connect => simp [NetCall.event?]
  | _ => simp_all

/-- A sign of life comes from a session, or with it. -/
theorem Walk.opens_of_vital (hwalk : Walk w strides v) (hnone : w.session = none) :
    (v.session.isSome = true → ∃ x ∈ strides, x.opens = true) ∧
      ((∃ x ∈ strides, x.isVital = true) → ∃ x ∈ strides, x.opens = true) := by
  induction hwalk with
  | stay => simp [hnone]
  | @step strides v now s h v' s' _ _ hrule ih =>
      have hkept (hold : ∃ x ∈ strides, x.opens = true) :
          ∃ x ∈ strides ++ [v.strideTo now h v'], x.opens = true := by
        obtain ⟨x, hx, hopens⟩ := hold
        exact ⟨x, List.mem_append_left _ hx, hopens⟩
      have hnew (hopens : (v.strideTo now h v').opens = true) :
          ∃ x ∈ strides ++ [v.strideTo now h v'], x.opens = true :=
        ⟨_, List.mem_append_right _ List.mem_cons_self, hopens⟩
      constructor
      · intro hsome
        cases hheld : v.session with
        | some session => exact hkept (ih.1 (by rw [hheld]; rfl))
        | none => exact hnew (by simp [Stride.opens, strideTo, hheld, hsome])
      · rintro ⟨x, hx, hvital⟩
        rcases List.mem_append.mp hx with hx | hx
        · exact hkept (ih.2 ⟨x, hx, hvital⟩)
        · obtain rfl := List.mem_singleton.mp hx
          cases hheld : v.session with
          | some session => exact hkept (ih.1 (by rw [hheld]; rfl))
          | none =>
              refine hnew ?_
              have hevents : (v.strideTo now h v').events = [] := events_of_vacant hheld hrule
              simpa [Stride.isVital, hevents] using hvital

theorem Walk.latest?_eq_none_iff (hwalk : Walk w strides v) (hnone : w.session = none) :
    Stride.latest? Stride.isVital strides = none ↔ ∀ x ∈ strides, x.opens = false := by
  rw [Stride.latest?_eq_none_iff]
  constructor
  · intro hall x hx
    have hvital := hall x hx
    rw [Stride.isVital, Bool.or_eq_false_iff] at hvital
    exact hvital.1
  · intro hall x hx
    by_contra hvital
    obtain ⟨y, hy, hopens⟩ :=
      (hwalk.opens_of_vital hnone).2 ⟨x, hx, eq_true_of_ne_false hvital⟩
    rw [hall y hy] at hopens
    cases hopens

/-- A walk without its last stride is a walk. -/
theorem Walk.exists_dropLast (hwalk : Walk w strides v) : ∃ u, Walk w strides.dropLast u := by
  cases hwalk with
  | stay => exact ⟨w, .stay⟩
  | step hwalk => exact ⟨_, by rwa [List.dropLast_concat]⟩

theorem Walk.silent (hwalk : Walk w strides v) (hw : Silent w.todo.tail) :
    Silent v.todo.tail := by
  induction hwalk with
  | stay => exact hw
  | step _ hsound hrule ih =>
      rcases vital_cases hsound ih hrule with ⟨-, -, rest, htodo, hrest⟩ | ⟨-, hsilent⟩
      · rwa [htodo]
      · exact fun moment hmem => hsilent moment (List.mem_of_mem_tail hmem)

/-- A stride with a call that does not tell of the peer has no sign of life. -/
theorem Walk.isVital_of_call (hwalk : Walk w strides v) (hw : Silent w.todo.tail) {x : Stride}
    (hx : x ∈ strides) {call : NetCall} (hcall : call ∈ x.calls) (hsign : call.isSign = false) :
    x.isVital = false := by
  obtain ⟨front, back, rfl⟩ := List.append_of_mem hx
  rw [← List.singleton_append, ← List.append_assoc] at hwalk
  obtain ⟨u, hfront, -⟩ := hwalk.exists_middle
  obtain ⟨s, h, s', hbefore, hsound, hrule, heq⟩ := hfront.exists_rule
  rw [heq] at hcall ⊢
  rcases vital_cases hsound (hbefore.silent hw) hrule with ⟨-, hall, -⟩ | ⟨hvital, -⟩
  · rw [hall call hcall] at hsign
    cases hsign
  · exact hvital

end Worker

namespace Course

theorem epoch_evolves {c d : Course} (h : c.Evolves d) :
    d.shared.status.epoch = c.shared.status.epoch := by
  cases h with
  | work hrule => exact Worker.epoch_rule hrule
  | @write x => cases x <;> rfl
  | _ => rfl

/-- Nobody else writes of a sign of life. -/
theorem activity_of_others {c d : Course} (h : c.Evolves d) (hstill : d.worker = c.worker) :
    d.shared.status.activity = c.shared.status.activity := by
  cases h with
  | work hrule => rw [(Worker.status_of_still hrule hstill).1]
  | @write x hx =>
      cases x with
      | touch => cases hx
      | _ => rfl
  | _ => rfl

theorem Runs.epoch_eq {c d : Course} {deeds : List Deed} {steps : Nat} (h : c.Runs deeds steps d) :
    d.shared.status.epoch = c.shared.status.epoch := by
  induction h with
  | refl => rfl
  | work _ hrule ih => exact (Worker.epoch_rule hrule).trans ih
  | others _ hstep _ _ ih => exact (epoch_evolves hstep).trans ih

end Course

namespace World

variable {σ : Type} [Connector σ] {config : LinkConfig} {outbound inbound threads : Nat} {net : σ}

theorem recorded_run (moves : List (Move σ)) {id : Nat} {c : Course}
    (hc : ((fresh config outbound inbound threads net).run moves).course? id = some c) :
    Worker.Recorded ((fresh config outbound inbound threads net).strides id moves) c.worker
      c.shared.status := by
  refine course_induction
    (P := fun _ strides c => Worker.Recorded strides c.worker c.shared.status) ?_ ?_ ?_ moves hc
  · exact fun w uri now _ => Worker.recorded_fresh uri config now now
  · intro w w' strides c now worker shared h hreach hrule _ _ hw
    exact Worker.recorded_rule hreach.sound hw hrule
  · intro w w' strides c d hw _ hrule hc hd hstill hrecorded
    rcases eq_or_evolves hw hrule hc hd with rfl | hstep
    · exact hrecorded
    · rw [hstill]
      exact hrecorded.of_same (Course.epoch_evolves hstep)
        (Course.activity_of_others hstep hstill)

/-- What a run has done comes first in all that it does. -/
theorem dropLast_strides_append (w : World σ) (id : Nat) (front back : List (Move σ)) :
    ∃ since, (w.strides id (front ++ back)).dropLast = (w.strides id front).dropLast ++ since := by
  rw [strides_append]
  cases hback : (w.run front).strides id back with
  | nil => exact ⟨[], by simp⟩
  | cons s rest =>
      rw [List.dropLast_append_of_ne_nil (by simp)]
      rcases List.eq_nil_or_concat (w.strides id front) with hnil | ⟨init, last, hlast⟩
      · exact ⟨(s :: rest).dropLast, by rw [hnil]; rfl⟩
      · refine ⟨last :: (s :: rest).dropLast, ?_⟩
        rw [hlast, List.concat_eq_append, List.dropLast_concat, List.append_assoc]
        rfl

theorem epoch_run_append (moves more : List (Move σ)) {id : Nat} {c d : Course}
    (hc : ((fresh config outbound inbound threads net).run moves).course? id = some c)
    (hd : ((fresh config outbound inbound threads net).run (moves ++ more)).course? id = some d) :
    d.shared.status.epoch = c.shared.status.epoch := by
  have hsound := (sound_fresh config outbound inbound threads net).run moves
  obtain ⟨e, he, hruns⟩ := runs_run hsound hc more
  rw [run_append, he, Option.some.injEq] at hd
  exact hd ▸ hruns.epoch_eq

/-- The last sign of life of a run, on any clock that does not go back. It is read as the moment of
the latest one that the worker has handled: a session that it took up after a connect, or data, a
control frame or a greeting that came in. A sign has been handled when the next stride has been
made, which writes it. Nothing is read before the first session is taken up. No other call of the
worker counts, be it a connect that fails, a probe or another send, a poll without an event, the end
of a link or a close; and as long as nothing is handled that counts the moment stays. As long as the
moments lie less than `2 ^ 64 - 1` milliseconds after the set-up of the run, each is read rounded
down to whole milliseconds since then, and what is read later is not earlier. -/
theorem last_activity_of_signs (config : LinkConfig) (outbound inbound threads : Nat) (net : σ)
    (moves more : List (Move σ)) (id : Nat) (c d : Course)
    (hc : ((fresh config outbound inbound threads net).run moves).course? id = some c)
    (hd : ((fresh config outbound inbound threads net).run (moves ++ more)).course? id = some d)
    (hclock : (d.shared.status.epoch ::
      ((fresh config outbound inbound threads net).strides id (moves ++ more)).map
        Stride.now).Pairwise (· ≤ ·)) :
    let strides := (fresh config outbound inbound threads net).strides id (moves ++ more)
    let handled := strides.dropLast
    let earlier := ((fresh config outbound inbound threads net).strides id moves).dropLast
    let latest? := Stride.latest? Stride.isVital handled
    let epoch := d.shared.status.epoch
    d.shared.status.lastActivity? = latest?.bind (Status.shown? epoch) ∧
      (latest? = none ↔ ∀ x ∈ handled, x.opens = false) ∧
      (∀ x ∈ strides, ∀ call ∈ x.calls, call.isSign = false → x.isVital = false) ∧
      (∀ since, handled = earlier ++ since → (∀ x ∈ since, x.isVital = false) →
        d.shared.status.lastActivity? = c.shared.status.lastActivity?) ∧
      ((∀ t ∈ latest?, t - epoch < milliseconds (UInt64.size - 1)) →
        (∀ t ∈ latest?, ∃ shown ∈ d.shared.status.lastActivity?,
          shown = epoch + milliseconds ((t - epoch) / milliseconds 1) ∧ shown ≤ t ∧
            t < shown + milliseconds 1) ∧
          ∀ shown ∈ c.shared.status.lastActivity?, ∃ later ∈ d.shared.status.lastActivity?,
            shown ≤ later) := by
  intro strides handled earlier latest? epoch
  have hepoch : c.shared.status.epoch = epoch := (epoch_run_append moves more hc hd).symm
  have hread : d.shared.status.lastActivity? = latest?.bind (Status.shown? epoch) :=
    Status.lastActivity?_eq_bind (recorded_run _ hd).shown
  have hbefore : c.shared.status.lastActivity? =
      (Stride.latest? Stride.isVital earlier).bind (Status.shown? epoch) :=
    hepoch ▸ Status.lastActivity?_eq_bind (recorded_run _ hc).shown
  obtain ⟨uri, launched, hwalk⟩ := walk_run _ hd
  obtain ⟨u, hhandled⟩ := hwalk.exists_dropLast
  rw [List.pairwise_cons] at hclock
  have hsplit {since : List Stride} (hsince : handled = earlier ++ since) :
      latest? = (Stride.latest? Stride.isVital since).or (Stride.latest? Stride.isVital earlier) :=
    (congrArg (Stride.latest? Stride.isVital) hsince).trans Stride.latest?_append
  refine ⟨hread, hhandled.latest?_eq_none_iff rfl,
    fun x hx call hcall hsign => hwalk.isVital_of_call nofun hx hcall hsign, ?_, ?_⟩
  · intro since hsince hquiet
    rw [hread, hbefore, hsplit hsince, Stride.latest?_eq_none_iff.mpr hquiet, Option.none_or]
  · intro hbound
    constructor
    · intro t ht
      obtain ⟨x, hx, rfl⟩ := Stride.exists_of_latest? ht
      have hle : epoch ≤ x.now :=
        hclock.1 _ (List.mem_map_of_mem (List.dropLast_subset _ hx))
      obtain ⟨shown, hshown, hnear⟩ := Status.shown?_near hle (hbound _ ht)
      exact ⟨shown, by rw [hread, ht]; exact hshown, hnear⟩
    · intro shown hshown
      rw [hbefore, Option.mem_def, Option.bind_eq_some_iff] at hshown
      obtain ⟨t, ht, hshown⟩ := hshown
      obtain ⟨since, hsince⟩ :=
        dropLast_strides_append (fresh config outbound inbound threads net) id moves more
      obtain ⟨t', ht'⟩ : ∃ t', latest? = some t' := by
        rw [hsplit hsince, ht]
        cases Stride.latest? Stride.isVital since with
        | none => exact ⟨t, rfl⟩
        | some t' => exact ⟨t', rfl⟩
      have hordered : ((earlier ++ since).map Stride.now).Pairwise (· ≤ ·) := by
        rw [← hsince]
        exact hclock.2.sublist ((List.dropLast_sublist _).map _)
      have hle : t ≤ t' := Stride.latest?_mono hordered ht (by rw [← hsince]; exact ht')
      obtain ⟨later, hlater, hmono⟩ := Status.shown?_mono hle (hbound _ ht') hshown
      exact ⟨later, by rw [hread, ht']; exact hlater, hmono⟩

/-- The peer greets, sends a message and ends the link, and accepts another connect. -/
def chattyHub : World Network :=
  fresh .default 16 16 1
    { Network.silent with
      outcomes := [.ok (), .ok ()]
      events := [.connected, .data (.ofOctets [104, 105]), .disconnected] }

/-- The run is set up between two milliseconds, and the worker handles the message. -/
def untilMessage : List (Move Network) :=
  [.ask 0 (.start "ws://hub"), .go 0 500 false, .go 0 500 false, .go 0 500 false] ++
    .replicate 16 (.work 0 (milliseconds 3 + 700))

/-- The worker handles the end of the link and takes up a second session. -/
def untilReconnect : List (Move Network) :=
  .replicate 16 (.work 0 (milliseconds 9 + 900))

theorem last_activity_of_chattyHub :
    ∃ c d, (chattyHub.run untilMessage).course? 0 = some c ∧
      (chattyHub.run (untilMessage ++ untilReconnect)).course? 0 = some d ∧
      (d.shared.status.epoch ::
        (chattyHub.strides 0 (untilMessage ++ untilReconnect)).map Stride.now).Pairwise (· ≤ ·) ∧
      c.shared.status.lastActivity? = some (500 + milliseconds 3) ∧
      Stride.latest? Stride.isVital
        (chattyHub.strides 0 (untilMessage ++ untilReconnect)).dropLast =
          some (milliseconds 9 + 900) ∧
      ∃ shown ∈ d.shared.status.lastActivity?, shown = 500 + milliseconds 9 ∧
        500 + milliseconds 3 ≤ shown := by
  obtain ⟨c, hc⟩ : ∃ c, (chattyHub.run untilMessage).course? 0 = some c :=
    exists_course? (by decide +kernel)
  obtain ⟨d, hd⟩ : ∃ d, (chattyHub.run (untilMessage ++ untilReconnect)).course? 0 = some d :=
    exists_course? (by decide +kernel)
  have hbefore : ((chattyHub.run untilMessage).course? 0).map
      (fun c => c.shared.status.lastActivity?) = some (some (500 + milliseconds 3)) := by
    decide +kernel
  have hepoch : ((chattyHub.run (untilMessage ++ untilReconnect)).course? 0).map
      (fun d => d.shared.status.epoch) = some 500 := by
    decide +kernel
  have hclock : (500 :: (chattyHub.strides 0 (untilMessage ++ untilReconnect)).map
      Stride.now).Pairwise (· ≤ ·) := by
    decide +kernel
  have hlatest : Stride.latest? Stride.isVital
      (chattyHub.strides 0 (untilMessage ++ untilReconnect)).dropLast =
        some (milliseconds 9 + 900) := by
    decide +kernel
  rw [hc, Option.map_some, Option.some.injEq] at hbefore
  rw [hd, Option.map_some, Option.some.injEq] at hepoch
  rw [← hepoch] at hclock
  obtain ⟨-, -, -, -, hrange⟩ :=
    last_activity_of_signs _ _ _ _ _ untilMessage untilReconnect 0 c d hc hd hclock
  obtain ⟨hnear, hmono⟩ := hrange fun t ht => by
    rw [Option.mem_def.mp ht |>.symm.trans hlatest |> Option.some.inj, hepoch]
    decide
  obtain ⟨shown, hshown, heq, -⟩ := hnear _ hlatest
  obtain ⟨later, hlater, hle⟩ := hmono _ hbefore
  rw [hepoch] at heq
  rw [Option.some.inj (hlater.symm.trans hshown)] at hle
  exact ⟨c, d, hc, hd, hclock, hbefore, hlatest, shown, hshown, heq, hle⟩

end World

end Uplink
