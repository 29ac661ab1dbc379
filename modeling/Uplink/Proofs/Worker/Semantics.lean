import Uplink.Proofs.Worker.Trace

/-! # The rules of the worker

One rule for each thing that a worker can do in a step, with what the outside sees of it. The
network does not occur in the rules: a call may have any outcome. -/

namespace Uplink

namespace Session

/-- The calls by which a session is closed. -/
def closing (s : Session) : List NetCall :=
  if s.isOpen then [.close] else []

/-- The calls by which a session is asked for an event, given the answer of its link. -/
def polling (s : Session) (event? : Option LinkEvent) : List NetCall :=
  if s.isOpen then [.poll event?] else []

/-- The calls by which a session sends a frame, given the answer of its link. -/
def sending (s : Session) (frame : Octets) (timeout : Nat) (result : SendResult) : List NetCall :=
  if s.isOpen then [.send frame timeout result] else []

/-- The session after an event. -/
def after (s : Session) (event : LinkEvent) (now : Instant) : Session :=
  { s with
    isOpen := s.isOpen && !event.isTerminal
    lastActivity := if event.isActivity then now else s.lastActivity }

section
variable (s : Session) {p : NetCall → Prop}

@[simp] theorem forall_mem_closing :
    (∀ call ∈ s.closing, p call) ↔ (s.isOpen = true → p .close) := by
  cases hopen : s.isOpen <;> simp [closing, hopen]

@[simp] theorem forall_mem_polling {event? : Option LinkEvent} :
    (∀ call ∈ s.polling event?, p call) ↔ (s.isOpen = true → p (.poll event?)) := by
  cases hopen : s.isOpen <;> simp [polling, hopen]

@[simp] theorem forall_mem_sending {frame : Octets} {timeout : Nat} {result : SendResult} :
    (∀ call ∈ s.sending frame timeout result, p call) ↔
      (s.isOpen = true → p (.send frame timeout result)) := by
  cases hopen : s.isOpen <;> simp [sending, hopen]

end

variable {σ : Type} [Connector σ]

theorem close_calls (s : Session) (r : Recorded σ) :
    (s.close r).2.calls = r.calls ++ s.closing := by
  cases h : s.isOpen with
  | true => simp [close, closing, h]; rfl
  | false => simp [close, closing, h]

theorem establish_rule (net : σ) (uri : String) (timeout : Nat) (now : Instant) :
    ∃ outcome,
      (establish (Recorded.blank net) uri timeout now).1 =
        outcome.map (fun () => ⟨uri, true, now⟩) ∧
      (establish (Recorded.blank net) uri timeout now).2.calls = [.connect uri timeout outcome] :=
  ⟨(Connector.connect net uri timeout).1, rfl, rfl⟩

theorem note_fst (s : Session) (r : Recorded σ) (event : LinkEvent) (now : Instant) :
    (s.note r event now).1 = s.after event now := by
  cases s with
  | mk uri isOpen lastActivity =>
      cases event <;> cases isOpen <;> rfl

theorem note_calls (s : Session) (r : Recorded σ) (event : LinkEvent) (now : Instant)
    (h : s.isOpen = true) :
    (s.note r event now).2.calls = r.calls ++ if event.isTerminal then [.close] else [] := by
  cases s with
  | mk uri isOpen lastActivity =>
      subst h
      cases event <;> simp [note, close, LinkEvent.isTerminal, LinkEvent.isActivity] <;> rfl

theorem poll_quiet (s : Session) (net : σ) (now : Instant) (hopen : s.isOpen = true)
    (h : (Link.poll net).1 = none) :
    s.poll (Recorded.blank net) now = (none, s, ⟨(Link.poll net).2, [.poll none]⟩) := by
  simp only [poll, hopen, Link.poll, Recorded.blank, h]
  rfl

theorem poll_event (s : Session) (net : σ) (now : Instant) {event : LinkEvent}
    (hopen : s.isOpen = true) (h : (Link.poll net).1 = some event) :
    s.poll (Recorded.blank net) now =
      (some event, s.note (⟨(Link.poll net).2, [.poll (some event)]⟩ : Recorded σ) event now) := by
  simp only [poll, hopen, Link.poll, Recorded.blank, h]
  rfl

theorem send_blank (s : Session) (net : σ) (frame : Octets) (timeout : Nat) :
    ∃ result,
      (s.send (Recorded.blank net) frame timeout).1 =
        (if s.isOpen then result else .error .notConnected) ∧
      (s.send (Recorded.blank net) frame timeout).2.calls = s.sending frame timeout result := by
  refine ⟨(Link.send net frame timeout).1, ?_⟩
  cases h : s.isOpen with
  | true => simp [send, sending, h, Link.send, Recorded.blank]
  | false => simp [send, sending, h, Recorded.blank]

end Session

/-- The counter for the outcome of sending a message. -/
def Counter.ofSend : SendResult → Counter
  | .ok () => .framesSent
  | .error _ => .sendFailures

/-- After its timer a worker is not at the queue, and it has not gone to sleep. -/
@[simp] theorem Stage.afterTimer_ne_outbound (alarm : Option Instant) :
    afterTimer alarm ≠ .outbound := by
  cases alarm <;> simp [afterTimer]

@[simp] theorem Stage.afterTimer_ne_asleep (alarm : Option Instant) :
    afterTimer alarm ≠ .asleep := by
  cases alarm <;> simp [afterTimer]

namespace Worker

/-- What follows a probe. -/
def probeEffects : SendResult → List Effect
  | .ok () => [.write (.count .heartbeatsSent)]
  | .error _ => []

/-- The worker `w` with the block `s` makes a step at the moment `now`. -/
inductive Rule (now : Instant) (w : Worker) (s : Shared) : History → Worker → Shared → Prop
  | write {x todo} (htodo : w.todo = .write x :: todo) :
      Rule now w s [] { w with todo } (s.write x)
  | deliver {m todo inbound woken} (htodo : w.todo = .deliver m :: todo)
      (hroom : s.inbound.tryPush? m = some (inbound, woken)) :
      Rule now w s [.passed .delivered m] { w with todo } { s with inbound }
  | overflow {m todo} (htodo : w.todo = .deliver m :: todo)
      (hfull : s.inbound.tryPush? m = none) :
      Rule now w s [] { w with todo := .write (.count .inboundDropped) :: todo } s
  | hangUp {todo session} (htodo : w.todo = .dropSession :: todo)
      (hsession : w.session = some session) :
      Rule now w s (session.closing.map .called) { w with todo, session := none } s
  | idleDrop {todo} (htodo : w.todo = .dropSession :: todo) (hsession : w.session = none) :
      Rule now w s [] { w with todo } s
  | quit (htodo : w.todo = []) (hphase : w.phase = .choosing)
      (hasked : s.stop.isRequested = true) :
      Rule now w s [] { w with todo := farewell, phase := .exited } s
  | tick {session} (htodo : w.todo = []) (hphase : w.phase = .choosing)
      (hasked : s.stop.isRequested = false) (hsession : w.session = some session) :
      Rule now w s [] { w with phase := .pumping maxEventsPerTick } s
  | dial (htodo : w.todo = []) (hphase : w.phase = .choosing)
      (hasked : s.stop.isRequested = false) (hsession : w.session = none) :
      Rule now w s []
        { w with
          todo := Effect.publish .connecting ++ [.write (.count .connectAttempts)]
          phase := .connecting } s
  | connect (outcome) (htodo : w.todo = []) (hphase : w.phase = .connecting) :
      Rule now w s [.called (.connect w.uri w.config.connectTimeout.toNat outcome)]
        { w with phase := .connected (outcome.map fun () => ⟨w.uri, true, now⟩) } s
  | overtaken {session} (htodo : w.todo = []) (hphase : w.phase = .connected (.ok session))
      (hasked : s.stop.isRequested = true) :
      Rule now w s (session.closing.map .called) { w with phase := .choosing } s
  | accept {session} (htodo : w.todo = []) (hphase : w.phase = .connected (.ok session))
      (hasked : s.stop.isRequested = false) :
      Rule now w s [] { w with phase := .greeting session } s
  | refusedLate {e} (htodo : w.todo = []) (hphase : w.phase = .connected (.error e))
      (hasked : s.stop.isRequested = true) :
      Rule now w s [] { w with phase := .choosing } s
  | refused {e} (htodo : w.todo = []) (hphase : w.phase = .connected (.error e))
      (hasked : s.stop.isRequested = false) :
      Rule now w s []
        { w with
          backoff := w.backoff.advance
          todo := Effect.publish .disconnected ++ [.write (.count .connectFailures)]
          phase := .waiting .retry (duration w.backoff.peek) none .timer } s
  | greet {session} (htodo : w.todo = []) (hphase : w.phase = .greeting session) :
      Rule now w s [] (w.greet session now) s
  | pumped {session} (htodo : w.todo = []) (hphase : w.phase = .pumping 0)
      (hsession : w.session = some session) :
      Rule now w s [] { w with phase := .judging } s
  | unpumped {left} (htodo : w.todo = []) (hphase : w.phase = .pumping left)
      (hsession : w.session = none) :
      Rule now w s [] { w with phase := .choosing } s
  | quiet {left session} (htodo : w.todo = []) (hphase : w.phase = .pumping (left + 1))
      (hsession : w.session = some session) :
      Rule now w s ((session.polling none).map .called) { w with phase := .judging } s
  | event {left session} (event) (htodo : w.todo = []) (hphase : w.phase = .pumping (left + 1))
      (hsession : w.session = some session) (hopen : session.isOpen = true) :
      Rule now w s
        ((.poll (some event) :: if event.isTerminal then [.close] else []).map .called)
        { w with
          session := some (session.after event now)
          todo := eventEffects (session.after event now) event
          phase := .pumping left } s
  | unjudged (htodo : w.todo = []) (hphase : w.phase = .judging) (hsession : w.session = none) :
      Rule now w s [] { w with phase := .choosing } s
  | stale {session} (htodo : w.todo = []) (hphase : w.phase = .judging)
      (hsession : w.session = some session)
      (hidle : 2 * duration w.config.heartbeatInterval < now - session.lastActivity) :
      Rule now w s []
        { w with
          todo := .write (.count .staleDisconnects) :: .dropSession :: Effect.publish .disconnected
          phase := .choosing } s
  | due {session} (htodo : w.todo = []) (hphase : w.phase = .judging)
      (hsession : w.session = some session)
      (hidle : now - session.lastActivity ≤ 2 * duration w.config.heartbeatInterval)
      (hdue : duration w.config.heartbeatInterval ≤ now - w.lastProbe) :
      Rule now w s [] { w with lastProbe := now, phase := .probing } s
  | rest {session} (htodo : w.todo = []) (hphase : w.phase = .judging)
      (hsession : w.session = some session)
      (hidle : now - session.lastActivity ≤ 2 * duration w.config.heartbeatInterval)
      (hdue : now - w.lastProbe < duration w.config.heartbeatInterval) :
      Rule now w s []
        { w with
          phase := .waiting .work
            (min (duration w.config.pollInterval)
              (duration w.config.heartbeatInterval - (now - w.lastProbe)))
            none .outbound } s
  | probe {session} (result) (htodo : w.todo = []) (hphase : w.phase = .probing)
      (hsession : w.session = some session) :
      Rule now w s
        ((session.sending heartbeatProbe.octets w.config.sendTimeout.toNat result).map .called)
        { w with
          todo := probeEffects (if session.isOpen then result else .error .notConnected)
          phase := .choosing } s
  | unprobed (htodo : w.todo = []) (hphase : w.phase = .probing) (hsession : w.session = none) :
      Rule now w s [] { w with phase := .choosing } s
  | take {purpose bound alarm m outbound woken} (htodo : w.todo = [])
      (hphase : w.phase = .waiting purpose bound alarm .outbound)
      (hitem : s.outbound.tryPop? = some (m, outbound, woken)) :
      Rule now w s [] { w with phase := .transmitting m } { s with outbound }
  | park {purpose bound alarm} (htodo : w.todo = [])
      (hphase : w.phase = .waiting purpose bound alarm .outbound)
      (hitem : s.outbound.tryPop? = none) :
      Rule now w s [] { w with phase := .waiting purpose bound alarm .timer }
        { s with outbound := (s.outbound.parkReceiver waker).1 }
  | expire {purpose bound alarm} (htodo : w.todo = [])
      (hphase : w.phase = .waiting purpose bound alarm .timer)
      (hdue : alarm.getD (now + bound) ≤ now) :
      Rule now w s [] { w with phase := .choosing } s
  | arm {purpose bound alarm} (htodo : w.todo = [])
      (hphase : w.phase = .waiting purpose bound alarm .timer)
      (hdue : now < alarm.getD (now + bound)) :
      Rule now w s []
        { w with
          phase := .waiting purpose bound (some (alarm.getD (now + bound))) (.afterTimer alarm) } s
  | asked {purpose bound alarm} (htodo : w.todo = [])
      (hphase : w.phase = .waiting purpose bound alarm .requested)
      (hasked : s.stop.isRequested = true) :
      Rule now w s [] { w with phase := .choosing } s
  | unasked {purpose bound alarm} (htodo : w.todo = [])
      (hphase : w.phase = .waiting purpose bound alarm .requested)
      (hasked : s.stop.isRequested = false) :
      Rule now w s [] { w with phase := .waiting purpose bound alarm .request } s
  | listen {purpose bound alarm} (htodo : w.todo = [])
      (hphase : w.phase = .waiting purpose bound alarm .request) :
      Rule now w s []
        { w with
          phase := .waiting purpose bound alarm
            (if (s.stop.pollRequest waker).1 then .requested else .asleep) }
        { s with stop := (s.stop.pollRequest waker).2.1 }
  | wake {purpose bound alarm} (htodo : w.todo = [])
      (hphase : w.phase = .waiting purpose bound alarm .asleep) :
      Rule now w s [] { w with phase := .waiting purpose bound alarm purpose.firstStage } s
  | transmit {m session} (result) (htodo : w.todo = []) (hphase : w.phase = .transmitting m)
      (hsession : w.session = some session) :
      Rule now w s
        ((session.sending m.octets w.config.sendTimeout.toNat result).map .called ++
          [.passed .transmitted m])
        { w with
          todo := [.write (.count (.ofSend
            (if session.isOpen then result else .error .notConnected)))]
          phase := .choosing } s
  | lose {m} (htodo : w.todo = []) (hphase : w.phase = .transmitting m)
      (hsession : w.session = none) :
      Rule now w s [] { w with phase := .choosing } s
  | gone (htodo : w.todo = []) (hphase : w.phase = .exited) : Rule now w s [] w s

/-! ## Every step follows a rule -/

variable {σ : Type} [Connector σ]

theorem perform_rule (now : Instant) (w : Worker) (s : Shared) (net : σ) {effect : Effect}
    {todo : List Effect} (htodo : w.todo = effect :: todo) :
    let next := { w with todo }.perform s (Recorded.blank net) effect
    Rule now w s (next.2.2.calls.map .called ++ w.marks s) next.1 next.2.1 := by
  cases effect with
  | write x =>
      simpa [perform, marks, htodo, Recorded.blank] using Rule.write htodo
  | deliver m =>
      cases hq : s.inbound.tryPush? m with
      | some pair =>
          obtain ⟨inbound, woken⟩ := pair
          have hfull : s.inbound.isFull = false := by
            cases hf : s.inbound.isFull with
            | false => rfl
            | true => simp [Queue.tryPush?, hf] at hq
          simpa [perform, hq, marks, htodo, hfull, Recorded.blank] using Rule.deliver htodo hq
      | none =>
          have hfull : s.inbound.isFull = true := by
            cases hf : s.inbound.isFull with
            | true => rfl
            | false => simp [Queue.tryPush?, hf] at hq
          simpa [perform, hq, marks, htodo, hfull, Recorded.blank] using Rule.overflow htodo hq
  | dropSession =>
      cases hs : w.session with
      | some session =>
          simpa [perform, hs, marks, htodo, Session.close_calls, Recorded.blank] using
            Rule.hangUp htodo hs
      | none => simpa [perform, hs, marks, htodo, Recorded.blank] using Rule.idleDrop htodo hs

theorem settleConnect_rule (now : Instant) (w : Worker) (s : Shared) (net : σ)
    {result : Except ConnectError Session} (htodo : w.todo = [])
    (hphase : w.phase = .connected result) :
    let next := w.settleConnect s (Recorded.blank net) result
    Rule now w s (next.2.calls.map .called) next.1 s := by
  cases result with
  | ok session =>
      cases hasked : s.stop.isRequested with
      | true =>
          simpa [settleConnect, hasked, Session.close_calls, Recorded.blank] using
            Rule.overtaken htodo hphase hasked
      | false =>
          simpa [settleConnect, hasked, Recorded.blank] using Rule.accept htodo hphase hasked
  | error e =>
      cases hasked : s.stop.isRequested with
      | true =>
          simpa [settleConnect, hasked, Recorded.blank] using
            Rule.refusedLate htodo hphase hasked
      | false =>
          simpa [settleConnect, hasked, Backoff.nextDelay, Purpose.firstStage, Recorded.blank] using
            Rule.refused htodo hphase hasked

theorem pump_rule (now : Instant) (w : Worker) (s : Shared) (net : σ) {left : Nat}
    (htodo : w.todo = []) (hphase : w.phase = .pumping left) :
    let next := w.pump (Recorded.blank net) now left
    Rule now w s (next.2.calls.map .called) next.1 s := by
  cases hs : w.session with
  | none =>
      cases left with
      | zero => simpa [pump, hs, Recorded.blank] using Rule.unpumped htodo hphase hs
      | succ left => simpa [pump, hs, Recorded.blank] using Rule.unpumped htodo hphase hs
  | some session =>
      cases left with
      | zero => simpa [pump, hs, Recorded.blank] using Rule.pumped htodo hphase hs
      | succ left =>
          have hquiet : Rule now w s _ _ s := Rule.quiet htodo hphase hs
          cases ho : session.isOpen with
          | false =>
              simpa [pump, hs, Session.poll, ho, Session.polling, Recorded.blank] using hquiet
          | true =>
              cases he : (Link.poll net).1 with
              | none =>
                  simpa [pump, hs, session.poll_quiet net now ho he, Session.polling, ho] using
                    hquiet
              | some event =>
                  simpa [pump, hs, session.poll_event net now ho he, Session.note_fst,
                    Session.note_calls _ _ _ _ ho] using
                    Rule.event event htodo hphase hs ho

theorem judge_rule (now : Instant) (w : Worker) (s : Shared) (htodo : w.todo = [])
    (hphase : w.phase = .judging) : Rule now w s [] (w.judge now) s := by
  cases hs : w.session with
  | none => simpa [judge, hs] using Rule.unjudged htodo hphase hs
  | some session =>
      by_cases hidle : 2 * duration w.config.heartbeatInterval < now - session.lastActivity
      · simpa [judge, hs, hidle] using Rule.stale htodo hphase hs hidle
      · have hidle' := Nat.le_of_not_lt hidle
        by_cases hdue : duration w.config.heartbeatInterval ≤ now - w.lastProbe
        · simpa [judge, hs, hidle, hdue] using Rule.due htodo hphase hs hidle' hdue
        · simpa [judge, hs, hidle, hdue, Purpose.firstStage] using
            Rule.rest htodo hphase hs hidle' (Nat.lt_of_not_le hdue)

theorem probe_rule (now : Instant) (w : Worker) (s : Shared) (net : σ) (htodo : w.todo = [])
    (hphase : w.phase = .probing) :
    let next := w.transmit (Recorded.blank net) heartbeatProbe.octets
      [.write (.count .heartbeatsSent)] []
    Rule now w s (next.2.calls.map .called) next.1 s := by
  cases hs : w.session with
  | none => simpa [transmit, hs, Recorded.blank] using Rule.unprobed htodo hphase hs
  | some session =>
      obtain ⟨result, hresult, hcalls⟩ :=
        session.send_blank net heartbeatProbe.octets w.config.sendTimeout.toNat
      have hrule : Rule now w s _ _ s := Rule.probe result htodo hphase hs
      simp only [transmit, hs, hresult, hcalls]
      generalize (if session.isOpen then result else .error .notConnected) = outcome at hrule ⊢
      cases outcome <;> simpa [probeEffects, hs] using hrule

theorem transmit_rule (now : Instant) (w : Worker) (s : Shared) (net : σ) {m : Message}
    (htodo : w.todo = []) (hphase : w.phase = .transmitting m) :
    let next := w.transmit (Recorded.blank net) m.octets [.write (.count .framesSent)]
      [.write (.count .sendFailures)]
    Rule now w s (next.2.calls.map .called ++ w.marks s) next.1 s := by
  cases hs : w.session with
  | none =>
      simpa [transmit, hs, marks, htodo, hphase, Recorded.blank] using Rule.lose htodo hphase hs
  | some session =>
      obtain ⟨result, hresult, hcalls⟩ :=
        session.send_blank net m.octets w.config.sendTimeout.toNat
      have hrule : Rule now w s _ _ s := Rule.transmit result htodo hphase hs
      simp only [transmit, hs, hresult, hcalls, marks, htodo, hphase]
      generalize (if session.isOpen then result else .error .notConnected) = outcome at hrule ⊢
      cases outcome <;> simpa [Counter.ofSend, hs] using hrule

theorem look_rule (now : Instant) (w : Worker) (s : Shared) {purpose : Purpose} {bound : Nat}
    {alarm : Option Instant} {stage : Stage} (htodo : w.todo = [])
    (hphase : w.phase = .waiting purpose bound alarm stage) :
    Rule now w s [] (w.look s now purpose bound alarm stage).1
      (w.look s now purpose bound alarm stage).2 := by
  cases stage with
  | outbound =>
      cases hq : s.outbound.tryPop? with
      | some triple =>
          obtain ⟨m, outbound, woken⟩ := triple
          simpa [look, hq] using Rule.take htodo hphase hq
      | none => simpa [look, hq] using Rule.park htodo hphase hq
  | timer =>
      by_cases hdue : alarm.getD (now + bound) ≤ now
      · simpa [look, hdue] using Rule.expire htodo hphase hdue
      · simpa [look, hdue] using Rule.arm htodo hphase (Nat.lt_of_not_le hdue)
  | requested =>
      cases hasked : s.stop.isRequested with
      | true =>
          simpa [look, heed, StopToken.lookForRequest, hasked] using Rule.asked htodo hphase hasked
      | false =>
          simpa [look, heed, StopToken.lookForRequest, hasked] using
            Rule.unasked htodo hphase hasked
  | request =>
      have hlisten : Rule now w s [] _ _ := .listen htodo hphase
      cases hseen : (s.stop.pollRequest waker).1 <;>
        simpa [look, heed, StopToken.lookForRequest, hseen] using hlisten
  | asleep => exact Rule.wake htodo hphase

theorem choose_rule (now : Instant) (w : Worker) (s : Shared) (htodo : w.todo = [])
    (hphase : w.phase = .choosing) : Rule now w s [] (w.choose s) s := by
  cases hasked : s.stop.isRequested with
  | true => simpa [choose, hasked] using Rule.quit htodo hphase hasked
  | false =>
      cases hs : w.session with
      | some session => simpa [choose, hasked, hs] using Rule.tick htodo hphase hasked hs
      | none => simpa [choose, hasked, hs] using Rule.dial htodo hphase hasked hs

theorem decide_rule (now : Instant) (w : Worker) (s : Shared) (net : σ) (htodo : w.todo = []) :
    let next := w.decide s (Recorded.blank net) now
    Rule now w s (next.2.2.calls.map .called ++ w.marks s) next.1 next.2.1 := by
  cases hphase : w.phase with
  | choosing =>
      simpa [decide, marks, htodo, hphase, Recorded.blank] using choose_rule now w s htodo hphase
  | connecting =>
      obtain ⟨outcome, hresult, hcalls⟩ :=
        Session.establish_rule net w.uri w.config.connectTimeout.toNat now
      have hrule : Rule now w s _ _ s := Rule.connect outcome htodo hphase
      simpa [decide, marks, htodo, hphase, hresult, hcalls] using hrule
  | connected result =>
      simpa [decide, marks, htodo, hphase] using settleConnect_rule now w s net htodo hphase
  | greeting session =>
      simpa [decide, marks, htodo, hphase, Recorded.blank] using Rule.greet htodo hphase
  | pumping left => simpa [decide, marks, htodo, hphase] using pump_rule now w s net htodo hphase
  | judging =>
      simpa [decide, marks, htodo, hphase, Recorded.blank] using judge_rule now w s htodo hphase
  | probing => simpa [decide, marks, htodo, hphase] using probe_rule now w s net htodo hphase
  | waiting purpose bound alarm stage =>
      simpa [decide, marks, htodo, hphase, Recorded.blank] using look_rule now w s htodo hphase
  | transmitting m => simpa only [decide, hphase] using transmit_rule now w s net htodo hphase
  | exited => simpa [decide, marks, htodo, hphase, Recorded.blank] using Rule.gone htodo hphase

/-- Every step of a worker follows a rule, whatever the network answers. -/
theorem step_rule (now : Instant) (w : Worker) (s : Shared) (net : σ) :
    let next := w.step s (Recorded.blank net) now
    Rule now w s (next.2.2.calls.map .called ++ w.marks s) next.1 next.2.1 := by
  cases htodo : w.todo with
  | nil => simpa only [step, htodo] using decide_rule now w s net htodo
  | cons effect todo => simpa only [step, htodo] using perform_rule now w s net htodo

/-- A worker never clears a queue. -/
theorem not_cleared_rule {now : Instant} {w w' : Worker} {s s' : Shared} {h : History}
    (hrule : Rule now w s h w' s') (side : Side) : .cleared side ∉ h := by
  cases hrule with
  | event event => cases event.isTerminal <;> simp
  | _ => simp

end Worker

end Uplink
