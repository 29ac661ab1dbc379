import Uplink.Network
import Uplink.Proofs.Transport.Invariant
import Uplink.Proofs.Worker.Invariant

/-! # The discipline of links

A worker opens a link, uses it, and closes it before it opens another one. -/

namespace Uplink

/-! ## Calls in good order -/

namespace NetCall

/-- Whether a call makes use of an open link. -/
def isUse : NetCall → Bool
  | .send _ _ _ | .poll _ => true
  | .connect _ _ _ | .close => false

end NetCall

/-- Calls in good order, after which a link is open or not. -/
inductive Disciplined : List NetCall → Bool → Prop
  | none : Disciplined [] false
  | refused {calls uri timeout e} (h : Disciplined calls false) :
      Disciplined (calls ++ [.connect uri timeout (.error e)]) false
  | opened {calls uri timeout} (h : Disciplined calls false) :
      Disciplined (calls ++ [.connect uri timeout (.ok ())]) true
  | used {calls call} (h : Disciplined calls true) (hcall : call.isUse = true) :
      Disciplined (calls ++ [call]) true
  | closed {calls} (h : Disciplined calls true) : Disciplined (calls ++ [.close]) false

/-- What a worker does with a link from its opening on, before the link is closed. -/
inductive LinkUse : List NetCall → Prop
  | mk {uri timeout uses} (huses : ∀ call ∈ uses, call.isUse = true) :
      LinkUse (.connect uri timeout (.ok ()) :: uses)

/-- All that becomes of one connect: it fails, or the link is used and closed once. -/
inductive LinkBlock : List NetCall → Prop
  | refused {uri timeout e} : LinkBlock [.connect uri timeout (.error e)]
  | closed {calls} (h : LinkUse calls) : LinkBlock (calls ++ [.close])

/-- Calls in good order are a sequence of finished blocks, followed by one unfinished block while
a link is open. -/
theorem Disciplined.blocks {calls : List NetCall} {isOpen : Bool} (h : Disciplined calls isOpen) :
    ∃ (blocks : List (List NetCall)) (rest : List NetCall),
      calls = blocks.flatten ++ rest ∧ (∀ block ∈ blocks, LinkBlock block) ∧
      (rest = [] ∧ isOpen = false ∨ LinkUse rest ∧ isOpen = true) := by
  induction h with
  | none => exact ⟨[], [], rfl, by simp, .inl ⟨rfl, rfl⟩⟩
  | @refused calls uri timeout e _ ih =>
      obtain ⟨blocks, rest, rfl, hblocks, ⟨rfl, _⟩ | ⟨_, hopen⟩⟩ := ih
      · refine ⟨blocks ++ [[.connect uri timeout (.error e)]], [], by simp, ?_, .inl ⟨rfl, rfl⟩⟩
        simp only [List.mem_append, List.mem_singleton]
        rintro block (hb | rfl)
        · exact hblocks block hb
        · exact .refused
      · cases hopen
  | @opened calls uri timeout _ ih =>
      obtain ⟨blocks, rest, rfl, hblocks, ⟨rfl, _⟩ | ⟨_, hopen⟩⟩ := ih
      · exact ⟨blocks, [.connect uri timeout (.ok ())], by simp, hblocks, .inr ⟨.mk (by simp), rfl⟩⟩
      · cases hopen
  | @used calls call _ hcall ih =>
      obtain ⟨blocks, rest, rfl, hblocks, ⟨_, hopen⟩ | ⟨⟨huses⟩, _⟩⟩ := ih
      · cases hopen
      · refine ⟨blocks, _, List.append_assoc _ _ _, hblocks, .inr ⟨.mk ?_, rfl⟩⟩
        intro c hc
        rcases List.mem_append.mp hc with hc | hc
        · exact huses c hc
        · rwa [List.mem_singleton.mp hc]
  | closed _ ih =>
      obtain ⟨blocks, rest, rfl, hblocks, ⟨_, hopen⟩ | ⟨huse, _⟩⟩ := ih
      · cases hopen
      · refine ⟨blocks ++ [rest ++ [.close]], [], by simp, ?_, .inl ⟨rfl, rfl⟩⟩
        simp only [List.mem_append, List.mem_singleton]
        rintro block (hb | rfl)
        · exact hblocks block hb
        · exact .closed huse

/-! ## The sessions of a worker -/

namespace Worker

/-- The sessions that a worker holds: one that it has taken up, and one that it is about to. -/
def sessions (w : Worker) : List Session :=
  w.session.toList ++ w.phase.offer?.toList

/-- Whether a link of the worker is open. -/
def holdsLink (w : Worker) : Bool :=
  w.sessions.any (·.isOpen)

theorem isOpening_of_offer {phase : Phase} {session : Session}
    (h : phase.offer? = some session) : phase.isOpening = true := by
  cases phase with
  | connected | greeting => rfl
  | _ => simp [Phase.offer?] at h

theorem Sound.offer_eq_none {w : Worker} {t : StopToken} (hw : w.Sound t) {session : Session}
    (h : w.session = some session) : w.phase.offer? = none := by
  cases ho : w.phase.offer? with
  | none => rfl
  | some _ => simp [hw.vacant (isOpening_of_offer ho)] at h

/-- A worker that has left holds no session. -/
theorem Sound.sessions_of_exited {w : Worker} {t : StopToken} (hw : w.Sound t)
    (h : t.hasExited = true) : w.sessions = [] := by
  obtain ⟨hphase, hnot⟩ := hw.exited h
  have hdrop : .dropSession ∉ w.todo := by
    have hl := hw.leaving hphase
    simp only [farewell, Effect.publish, Write.publish, List.map, List.cons_append,
      List.nil_append, List.suffix_cons_iff, List.suffix_nil] at hl
    rcases hl with hl | hl | hl | hl | hl | hl <;> simp_all
  simp [sessions, (hw.parted hphase).resolve_left hdrop, hphase, Phase.offer?]

section
variable {now : Instant} {w w' : Worker} {s s' : Shared} {h : History} {calls : List NetCall}

/-- Closing a session ends the use of its link, if it is still open. -/
theorem disciplined_closing {session : Session} (hcalls : Disciplined calls session.isOpen) :
    Disciplined (calls ++ session.closing) false := by
  cases hopen : session.isOpen with
  | true => simpa [Session.closing, hopen] using (hopen ▸ hcalls).closed
  | false => simpa [Session.closing, hopen] using hcalls

theorem holdsLink_of_session {session : Session} (hw : w.Sound s.stop)
    (hsession : w.session = some session) : w.holdsLink = session.isOpen := by
  simp [holdsLink, sessions, hsession, hw.offer_eq_none hsession]

/-- One step of a worker keeps its calls in good order. -/
theorem disciplined_rule (hw : w.Sound s.stop) (hrule : w.Rule now s h w' s')
    (hcalls : Disciplined calls w.holdsLink) :
    Disciplined (calls ++ h.calls) w'.holdsLink := by
  cases hrule with
  | write | overflow | deliver | idleDrop | gone =>
      show Disciplined (calls ++ []) w.holdsLink
      rwa [List.append_nil]
  | @hangUp _ session _ hsession =>
      rw [holdsLink_of_session hw hsession] at hcalls
      simpa [holdsLink, sessions, hw.offer_eq_none hsession] using disciplined_closing hcalls
  | connect outcome _ hphase =>
      have hnone := hw.vacant (by rw [hphase]; rfl)
      have hfalse : w.holdsLink = false := by
        simp [holdsLink, sessions, hnone, hphase, Phase.offer?]
      rw [hfalse] at hcalls
      cases outcome with
      | error e =>
          simpa [holdsLink, sessions, hnone, Phase.offer?,
            Except.map] using hcalls.refused
      | ok u =>
          simpa [holdsLink, sessions, hnone, Phase.offer?,
            Except.map] using hcalls.opened
  | @overtaken session _ hphase =>
      have hnone := hw.vacant (by rw [hphase]; rfl)
      have hheld : w.holdsLink = session.isOpen := by
        simp [holdsLink, sessions, hnone, hphase, Phase.offer?]
      rw [hheld] at hcalls
      simpa [holdsLink, sessions, hnone, Phase.offer?] using disciplined_closing hcalls
  | greet _ hphase =>
      have hnone := hw.vacant (by rw [hphase]; rfl)
      simpa [holdsLink, sessions, hnone, hphase, greet, Phase.offer?] using hcalls
  | @quiet _ session htodo hphase hsession =>
      have hopen := hw.isOpen_of_calm htodo hsession
      rw [holdsLink_of_session hw hsession, hopen] at hcalls
      simpa [holdsLink, sessions, hsession, hopen, Session.polling, Phase.offer?] using
        hcalls.used rfl
  | @event _ session event htodo hphase hsession hopen =>
      rw [holdsLink_of_session hw hsession, hopen] at hcalls
      have hpolled : Disciplined (calls ++ [.poll (some event)]) true := hcalls.used rfl
      cases hend : event.isTerminal with
      | false =>
          simpa [holdsLink, sessions, Session.after, hopen, hend, Phase.offer?] using hpolled
      | true =>
          simpa [holdsLink, sessions, Session.after, hopen, hend, Phase.offer?] using hpolled.closed
  | @probe session result htodo hphase hsession =>
      have hopen := hw.isOpen_of_calm htodo hsession
      rw [holdsLink_of_session hw hsession, hopen] at hcalls
      simpa [holdsLink, sessions, hsession, hopen, Session.sending, Phase.offer?] using
        hcalls.used rfl
  | @transmit m session result htodo hphase hsession =>
      have hopen := hw.isOpen_of_calm htodo hsession
      rw [holdsLink_of_session hw hsession, hopen] at hcalls
      simpa [holdsLink, sessions, hsession, hopen, Session.sending, Phase.offer?] using
        hcalls.used rfl
  | _ => simp_all [holdsLink, sessions, Phase.offer?]

end

end Worker

/-! ## A whole run -/

namespace Course

theorem disciplined_evolves {c d : Course} (hsound : c.worker.Sound c.shared.stop)
    (hc : Disciplined c.history.calls c.worker.holdsLink) (h : Evolves c d) :
    Disciplined d.history.calls d.worker.holdsLink := by
  cases h with
  | work hrule =>
      rw [History.calls_append]
      exact Worker.disciplined_rule hsound hrule hc
  | push | pop | write => simpa using hc
  | parkSender | parkReceiver | listen => exact hc

/-- The calls of every worker are in good order at every moment. -/
theorem Reachable.disciplined {c : Course} (hc : Reachable c) :
    Disciplined c.history.calls c.worker.holdsLink := by
  induction hc with
  | fresh => exact .none
  | next hc hstep ih => exact disciplined_evolves hc.sound ih hstep

end Course

/-! ## Every run -/

/-- Whatever threads, network and clock do, the calls that a worker makes are a sequence of finished
blocks: a connect, and when it succeeds some use of the link and one close. An unfinished block
comes last while a link is open, and none is left when the worker has given notice of its exit. -/
theorem World.blocks_of_calls {σ : Type} [Connector σ] (config : LinkConfig)
    (outbound inbound threads : Nat) (net : σ) (moves : List (Move σ)) (id : Nat) (c : Course)
    (hc : ((World.fresh config outbound inbound threads net).run moves).course? id = some c) :
    ∃ (blocks : List (List NetCall)) (rest : List NetCall),
      c.history.calls = blocks.flatten ++ rest ∧ (∀ block ∈ blocks, LinkBlock block) ∧
      (rest = [] ∧ c.worker.holdsLink = false ∨ LinkUse rest ∧ c.worker.holdsLink = true) ∧
      (c.shared.stop.hasExited = true → rest = []) := by
  have hreach := World.reachable_course config outbound inbound threads net moves hc
  obtain ⟨blocks, rest, hcalls, hblocks, hrest⟩ := hreach.disciplined.blocks
  refine ⟨blocks, rest, hcalls, hblocks, hrest, fun hexited => ?_⟩
  have hheld : c.worker.holdsLink = false := by
    simp [Worker.holdsLink, hreach.sound.sessions_of_exited hexited]
  rcases hrest with ⟨hrest, _⟩ | ⟨_, hopen⟩
  · exact hrest
  · simp [hheld] at hopen

/-- A message is sent, and a stop ends the run. -/
def World.brief : World Network :=
  (World.fresh .default 16 16 1 { Network.silent with outcomes := [.ok ()] }).run
    ([.ask 0 (.start "ws://hub"), .go 0 0 false, .go 0 0 false, .go 0 0 false,
      .ask 0 (.send .empty false), .go 0 0 false] ++ .replicate 16 (.work 0 0) ++
      [.ask 0 .stop] ++ .replicate 5 (.go 0 0 false) ++ .replicate 8 (.work 0 0))

/-- Its worker makes four calls: a connect, a poll, a send and a close. -/
theorem World.blocks_of_brief :
    ∃ c : Course, brief.course? 0 = some c ∧ c.history.calls.length = 4 ∧
      c.shared.stop.hasExited = true ∧ ∃ blocks : List (List NetCall),
        c.history.calls = blocks.flatten ∧ ∀ block ∈ blocks, LinkBlock block := by
  obtain ⟨c, hc⟩ : ∃ c, brief.course? 0 = some c := exists_course? (by decide)
  have hfacts : (brief.course? 0).map
      (fun c => (c.history.calls.length, c.shared.stop.hasExited)) = some (4, true) := by
    decide
  simp only [hc, Option.map_some, Option.some.injEq, Prod.mk.injEq] at hfacts
  obtain ⟨blocks, rest, hcalls, hblocks, _, hrest⟩ := World.blocks_of_calls _ _ _ _ _ _ _ c hc
  rw [hrest hfacts.2, List.append_nil] at hcalls
  exact ⟨c, hc, hfacts.1, hfacts.2, blocks, hcalls, hblocks⟩

end Uplink
