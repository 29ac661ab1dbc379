import Uplink.Proofs.Worker.Course

/-! # What holds of a worker between two steps -/

namespace Uplink

namespace Phase

/-- The session that a phase carries along before it is taken up. -/
def offer? : Phase → Option Session
  | .connected (.ok session) | .greeting session => some session
  | _ => none

/-- Whether a session is being opened. -/
def isOpening : Phase → Bool
  | .connecting | .connected _ | .greeting _ => true
  | _ => false

/-- Whether use will be made of the session. -/
def isUsing : Phase → Bool
  | .judging | .probing | .transmitting _ => true
  | .waiting purpose _ _ _ => purpose = .work
  | _ => false

end Phase

/-- Whether a worker may make a write. Requests and clears are for others. -/
def Write.isWorkers : Write → Bool
  | .state _ | .connected _ | .count _ | .touch _ | .exited | .exit => true
  | .requested | .request | .clearOutbound | .clearInbound => false

theorem Write.ne_clearOutbound {x : Write} (hx : x.isWorkers = true) : x ≠ .clearOutbound := by
  rintro rfl
  cases hx

theorem Write.ne_clearInbound {x : Write} (hx : x.isWorkers = true) : x ≠ .clearInbound := by
  rintro rfl
  cases hx

namespace Shared

theorem outbound_write (s : Shared) {x : Write} (hx : x ≠ .clearOutbound) :
    (s.write x).outbound = s.outbound := by
  cases x <;> first | rfl | exact absurd rfl hx

theorem inbound_write (s : Shared) {x : Write} (hx : x ≠ .clearInbound) :
    (s.write x).inbound = s.inbound := by
  cases x <;> first | rfl | exact absurd rfl hx

theorem hasExited_write (s : Shared) (x : Write) :
    (s.write x).stop.hasExited = true ↔ x = .exited ∨ s.stop.hasExited = true := by
  cases x <;> simp [write, StopToken.storeRequested, StopToken.raiseRequest,
    StopToken.storeExited, StopToken.raiseExit]

theorem exit_write (s : Shared) (x : Write) (hx : x ≠ .exit) :
    (s.write x).stop.exit = s.stop.exit := by
  cases x <;> first | rfl | exact absurd rfl hx

end Shared

namespace Worker

/-- The worker is in good order, with the messages that `t` carries. -/
structure Sound (w : Worker) (t : StopToken) : Prop where
  /-- No session is held while another one is opened. -/
  vacant : w.phase.isOpening = true → w.session = none
  /-- A new session is open. -/
  offered : ∀ session, w.phase.offer? = some session → session.isOpen = true
  /-- A session that has ended is about to be dropped. -/
  live : ∀ session, w.session = some session → .dropSession ∈ w.todo ∨ session.isOpen = true
  /-- Nothing is left to do before use is made of the session. -/
  calm : w.phase.isUsing = true → w.todo = []
  /-- There is a session when use is made of it. -/
  held : w.phase.isUsing = true → ∃ session, w.session = some session
  /-- Only a worker that waits for work looks at the outbound queue. -/
  aimed : ∀ purpose bound alarm, w.phase = .waiting purpose bound alarm .outbound → purpose = .work
  /-- A worker that leaves does nothing but say farewell. -/
  leaving : w.phase = .exited → w.todo <:+ farewell
  /-- It leaves without a session. -/
  parted : w.phase = .exited → .dropSession ∈ w.todo ∨ w.session = none
  /-- It does not leave without notice. -/
  noticed : w.phase = .exited → .write .exited ∈ w.todo ∨ t.hasExited = true
  /-- Nobody else gives notice. -/
  staying : .write .exited ∈ w.todo ∨ .write .exit ∈ w.todo → w.phase = .exited
  /-- A worker writes what is its own to write. -/
  own : ∀ x, .write x ∈ w.todo → x.isWorkers = true
  /-- The notice has been given once it can be seen. -/
  exited : t.hasExited = true → w.phase = .exited ∧ .write .exited ∉ w.todo
  /-- The signal comes after the notice. -/
  raised : t.exit = .raised → t.hasExited = true

theorem sound_fresh (uri : String) (config : LinkConfig) (now : Instant) :
    (fresh uri config now).Sound .fresh := by
  constructor <;> simp [fresh, StopToken.fresh, Phase.isOpening, Phase.offer?, Phase.isUsing]

/-- With nothing left to do, a worker holds no session but one that lives on. -/
theorem Sound.isOpen_of_calm {w : Worker} {t : StopToken} (hw : w.Sound t)
    (htodo : w.todo = []) {session : Session} (hsession : w.session = some session) :
    session.isOpen = true :=
  (hw.live session hsession).resolve_left (by simp [htodo])

theorem Sound.exists_of_isUsing {w : Worker} {t : StopToken} (hw : w.Sound t)
    (h : w.phase.isUsing = true) :
    w.todo = [] ∧ ∃ session, w.session = some session ∧ session.isOpen = true := by
  have htodo : w.todo = [] := hw.calm h
  obtain ⟨session, hsession⟩ := hw.held h
  exact ⟨htodo, session, hsession, hw.isOpen_of_calm htodo hsession⟩

theorem eq_of_exited_suffix_farewell {todo : List Effect}
    (h : .write .exited :: todo <:+ farewell) : todo = [.write .exit] := by
  simpa [farewell, Effect.publish, Write.publish, List.suffix_cons_iff] using h

theorem eq_of_exit_suffix_farewell {todo : List Effect}
    (h : .write .exit :: todo <:+ farewell) : todo = [] := by
  simpa [farewell, Effect.publish, Write.publish, List.suffix_cons_iff] using h

section
variable {now : Instant} {w w' : Worker} {s s' : Shared} {h : History}

theorem vacant_rule (hw : w.Sound s.stop) (hrule : w.Rule now s h w' s') :
    w'.phase.isOpening = true → w'.session = none := by
  have hv := hw.vacant
  cases hrule <;> simp_all [Phase.isOpening, greet]

theorem offered_rule (hw : w.Sound s.stop) (hrule : w.Rule now s h w' s') :
    ∀ session, w'.phase.offer? = some session → session.isOpen = true := by
  have ho := hw.offered
  cases hrule with
  | connect outcome => cases outcome <;> simp [Except.map, Phase.offer?]
  | _ => simp_all [Phase.offer?, greet]

theorem live_rule (hw : w.Sound s.stop) (hrule : w.Rule now s h w' s') :
    ∀ session, w'.session = some session → .dropSession ∈ w'.todo ∨ session.isOpen = true := by
  have hl := hw.live
  cases hrule with
  | greet _ hphase =>
      have := hw.offered _ (by rw [hphase]; rfl)
      simp_all [greet]
  | event event _ _ hsession hopen =>
      cases event <;>
        simp [Session.after, eventEffects, hopen, LinkEvent.isTerminal, LinkEvent.isActivity]
  | _ => simp_all [farewell]

theorem calm_rule (hw : w.Sound s.stop) (hrule : w.Rule now s h w' s') :
    w'.phase.isUsing = true → w'.todo = [] := by
  have hc := hw.calm
  cases hrule <;> simp_all [Phase.isUsing, greet]

theorem held_rule (hw : w.Sound s.stop) (hrule : w.Rule now s h w' s') :
    w'.phase.isUsing = true → ∃ session, w'.session = some session := by
  have hh := hw.held
  have hc := hw.calm
  cases hrule with
  | take _ hphase =>
      have := hw.aimed _ _ _ hphase
      simp_all [Phase.isUsing]
  | park _ hphase =>
      have := hw.aimed _ _ _ hphase
      simp_all [Phase.isUsing]
  | _ => simp_all [Phase.isUsing, greet]

theorem aimed_rule (hw : w.Sound s.stop) (hrule : w.Rule now s h w' s') :
    ∀ purpose bound alarm, w'.phase = .waiting purpose bound alarm .outbound →
      purpose = .work := by
  have ha := hw.aimed
  cases hrule with
  | write | deliver | overflow | hangUp | idleDrop => exact ha
  | listen => cases (s.stop.pollRequest waker).1 <;> simp
  | @wake purpose => cases purpose <;> simp [Purpose.firstStage]
  | _ => simp_all [greet]

/-- What is left of a farewell after one of its effects. -/
theorem Sound.suffix_of_leaving (hw : w.Sound s.stop) {effect : Effect} {todo : List Effect}
    (htodo : w.todo = effect :: todo) (hphase : w.phase = .exited) : todo <:+ farewell :=
  (List.suffix_cons effect todo).trans (htodo ▸ hw.leaving hphase)

theorem leaving_rule (hw : w.Sound s.stop) (hrule : w.Rule now s h w' s') :
    w'.phase = .exited → w'.todo <:+ farewell := by
  have hl := hw.leaving
  cases hrule with
  | write htodo | deliver htodo | hangUp htodo | idleDrop htodo =>
      exact hw.suffix_of_leaving htodo
  | overflow htodo =>
      intro hphase
      have := hl hphase
      simp [htodo, farewell, Effect.publish, Write.publish, List.suffix_cons_iff] at this
  | gone => exact hl
  | _ => simp_all [greet]

theorem parted_rule (hw : w.Sound s.stop) (hrule : w.Rule now s h w' s') :
    w'.phase = .exited → .dropSession ∈ w'.todo ∨ w'.session = none := by
  have hp := hw.parted
  cases hrule <;> simp_all [greet, farewell]

theorem staying_rule (hw : w.Sound s.stop) (hrule : w.Rule now s h w' s') :
    .write .exited ∈ w'.todo ∨ .write .exit ∈ w'.todo → w'.phase = .exited := by
  have hs := hw.staying
  cases hrule with
  | event event =>
      cases event <;> simp [eventEffects, Effect.publish, Write.publish, LinkEvent.isActivity]
  | probe result =>
      simp only [probeEffects]
      split <;> simp
  | write htodo =>
      rw [htodo] at hs
      exact fun h => hs (h.imp (List.mem_cons_of_mem _) (List.mem_cons_of_mem _))
  | _ => simp_all [greet, farewell, Effect.publish, Write.publish]

/-- A worker that carries out an effect has nothing new to write. -/
theorem forall_write_tail {p : Write → Prop} (hw : ∀ x, .write x ∈ w.todo → p x)
    {effect : Effect} {todo : List Effect} (htodo : w.todo = effect :: todo) :
    ∀ x, .write x ∈ todo → p x :=
  fun x hx => hw x (htodo ▸ List.mem_cons_of_mem _ hx)

theorem forall_write_cons {p : Write → Prop} {first : Write} {todo : List Effect}
    (hfirst : p first) (hrest : ∀ x, .write x ∈ todo → p x) :
    ∀ x, .write x ∈ .write first :: todo → p x := by
  intro x hx
  rcases List.mem_cons.mp hx with heq | hx
  · cases heq
    exact hfirst
  · exact hrest x hx

theorem own_rule (hw : w.Sound s.stop) (hrule : w.Rule now s h w' s') :
    ∀ x, .write x ∈ w'.todo → x.isWorkers = true := by
  have ho := hw.own
  cases hrule with
  | write htodo | deliver htodo | hangUp htodo | idleDrop htodo => exact forall_write_tail ho htodo
  | overflow htodo => exact forall_write_cons rfl (forall_write_tail ho htodo)
  | event event =>
      cases event <;>
        simp [eventEffects, Effect.publish, Write.publish, LinkEvent.isActivity, Write.isWorkers]
  | probe result =>
      simp only [probeEffects]
      split <;> simp [Write.isWorkers]
  | _ => simp_all [greet, farewell, Effect.publish, Write.publish, Write.isWorkers]

theorem exited_rule (hw : w.Sound s.stop) (hrule : w.Rule now s h w' s') :
    s'.stop.hasExited = true → w'.phase = .exited ∧ .write .exited ∉ w'.todo := by
  have he := hw.exited
  cases hrule with
  | @write x todo htodo =>
      intro hexited
      rcases (s.hasExited_write x).mp hexited with rfl | hexited
      · have hphase := hw.staying (.inl (by simp [htodo]))
        have htail := eq_of_exited_suffix_farewell (htodo ▸ hw.leaving hphase)
        exact ⟨hphase, by simp [htail]⟩
      · obtain ⟨hphase, hnot⟩ := he hexited
        rw [htodo] at hnot
        exact ⟨hphase, fun hmem => hnot (List.mem_cons_of_mem _ hmem)⟩
  | _ => simp_all [StopToken.pollRequest]

theorem noticed_rule (hw : w.Sound s.stop) (hrule : w.Rule now s h w' s') :
    w'.phase = .exited → .write .exited ∈ w'.todo ∨ s'.stop.hasExited = true := by
  have hn := hw.noticed
  cases hrule with
  | @write x todo htodo =>
      intro hphase
      rw [s.hasExited_write x]
      rcases hn hphase with hmem | hexited
      · rw [htodo, List.mem_cons, Effect.write.injEq] at hmem
        exact hmem.elim (fun heq => .inr (.inl heq.symm)) .inl
      · exact .inr (.inr hexited)
  | _ => simp_all [StopToken.pollRequest, greet, farewell]

theorem raised_rule (hw : w.Sound s.stop) (hrule : w.Rule now s h w' s') :
    s'.stop.exit = .raised → s'.stop.hasExited = true := by
  have hr := hw.raised
  cases hrule with
  | @write x todo htodo =>
      intro hraised
      rw [s.hasExited_write x]
      right
      by_cases hx : x = .exit
      · subst hx
        have hphase := hw.staying (.inr (by simp [htodo]))
        have htail := eq_of_exit_suffix_farewell (htodo ▸ hw.leaving hphase)
        exact (hw.noticed hphase).resolve_left (by simp [htodo, htail])
      · exact hr (s.exit_write x hx ▸ hraised)
  | _ => simp_all [StopToken.pollRequest]

/-- A worker stays in good order. -/
theorem sound_rule (hw : w.Sound s.stop) (hrule : w.Rule now s h w' s') : w'.Sound s'.stop where
  vacant := vacant_rule hw hrule
  offered := offered_rule hw hrule
  live := live_rule hw hrule
  calm := calm_rule hw hrule
  held := held_rule hw hrule
  aimed := aimed_rule hw hrule
  leaving := leaving_rule hw hrule
  parted := parted_rule hw hrule
  noticed := noticed_rule hw hrule
  staying := staying_rule hw hrule
  own := own_rule hw hrule
  exited := exited_rule hw hrule
  raised := raised_rule hw hrule

/-- What others do to the messages of the stop token changes nothing for the worker, as long as
they do not give its notice. -/
theorem Sound.of_eq {t t' : StopToken} (hw : w.Sound t) (hflag : t'.hasExited = t.hasExited)
    (hsignal : t'.exit = .raised → t.exit = .raised) : w.Sound t' :=
  { hw with
    noticed := fun h => hflag ▸ hw.noticed h
    exited := fun h => hw.exited (hflag ▸ h)
    raised := fun h => hflag ▸ hw.raised (hsignal h) }

end

end Worker

namespace Course

theorem sound_evolves {c d : Course} (hc : c.worker.Sound c.shared.stop) (h : Evolves c d) :
    d.worker.Sound d.shared.stop := by
  cases h with
  | work hrule => exact Worker.sound_rule hc hrule
  | push | parkSender | pop | parkReceiver => exact hc
  | @write x hx =>
      cases x with
      | count | touch | exited | exit => simp [Write.isCallers] at hx
      | _ => exact hc.of_eq rfl id
  | listen waker =>
      have hflag : (c.shared.stop.pollExit waker).2.1.hasExited = c.shared.stop.hasExited := rfl
      refine hc.of_eq hflag fun hraised => ?_
      cases hexit : c.shared.stop.exit <;>
        simp [StopToken.pollExit, Signal.poll, hexit] at hraised

/-- The worker of every run is in good order at every moment. -/
theorem Reachable.sound {c : Course} (hc : Reachable c) : c.worker.Sound c.shared.stop := by
  induction hc with
  | fresh => exact Worker.sound_fresh _ _ _
  | next _ hstep ih => exact sound_evolves ih hstep

end Course

end Uplink
