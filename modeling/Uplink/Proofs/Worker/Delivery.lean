import Uplink.Network
import Uplink.Proofs.Queue.Laws
import Uplink.Proofs.Transport.Invariant
import Uplink.Proofs.Worker.Invariant

/-! # Outbound delivery

A message that a caller has pushed is in the outbound queue, in the hands of the worker, or was
given to a session, and no message overtakes another one. -/

namespace Uplink

/-- The message that a worker has taken out of the outbound queue and not sent yet. -/
def Phase.hand : Phase → List Message
  | .transmitting m => [m]
  | _ => []

theorem Phase.length_hand_le (phase : Phase) : phase.hand.length ≤ 1 := by
  cases phase <;> simp [hand]

namespace Course

/-! ## Order -/

/-- What has been accepted, as far as it was not cleared, is what was transmitted, what the worker
has in its hands, and what is queued, in this order. -/
def InOrder (c : Course) : Prop :=
  c.history.messages .transmitted ++ c.worker.phase.hand ++ c.shared.outbound.items =
    c.history.messages .accepted

theorem inOrder_rule {c : Course} {now : Instant} {w : Worker} {s : Shared} {h : History}
    (hsound : c.worker.Sound c.shared.stop) (hrule : c.worker.Rule now c.shared h w s)
    (hc : InOrder c) : InOrder ⟨w, s, c.history ++ h⟩ := by
  simp only [InOrder, History.messages_append] at hc ⊢
  cases hrule with
  | write htodo =>
      have hx := hsound.own _ (htodo ▸ List.mem_cons_self)
      simpa [c.shared.outbound_write (Write.ne_clearOutbound hx)] using hc
  | deliver | overflow | idleDrop | hangUp => simpa using hc
  | take htodo hphase hitem =>
      simpa [hphase, Phase.hand, Queue.items_of_tryPop hitem] using hc
  | transmit result htodo hphase =>
      simpa [hphase, Phase.hand] using hc
  | lose htodo hphase hsession =>
      -- No message is in the worker's hands without a session.
      obtain ⟨session, hsome⟩ := hsound.held (by simp [hphase, Phase.isUsing])
      simp [hsession] at hsome
  | _ => simp_all [Phase.hand, Worker.greet, Queue.parkReceiver]

theorem inOrder_evolves {c d : Course} (hsound : c.worker.Sound c.shared.stop) (h : Evolves c d)
    (hc : .cleared .outbound ∉ c.history → InOrder c)
    (hclear : .cleared .outbound ∉ d.history) : InOrder d := by
  cases h with
  | work hrule =>
      have hbefore := hc fun hmem => hclear (List.mem_append_left _ hmem)
      exact inOrder_rule hsound hrule hbefore
  | push hpush =>
      have := hc (by simpa using hclear)
      simp only [InOrder, History.messages_append, Queue.items_of_tryPush hpush] at this ⊢
      simpa [← List.append_assoc] using this
  | pop => simpa [InOrder] using hc (by simpa using hclear)
  | parkSender | parkReceiver | listen => exact hc hclear
  | @write x hx =>
      have hx : x ≠ .clearOutbound := by
        rintro rfl
        simp [Write.marks] at hclear
      simpa [InOrder, c.shared.outbound_write hx] using
        hc fun hmem => hclear (List.mem_append_left _ hmem)

/-- As long as the outbound queue of a run was not cleared, nothing is lost, doubled or
overtaken. -/
theorem Reachable.inOrder {c : Course} (hc : Reachable c)
    (hclear : .cleared .outbound ∉ c.history) : InOrder c := by
  induction hc with
  | fresh => rfl
  | next hc hstep ih => exact inOrder_evolves hc.sound hstep ih hclear

end Course

/-! ## The worker's part -/

namespace Worker

/-- The only thing that a worker does to the outbound queue is to take the oldest message, and it
does so only with an open session at hand. -/
theorem outbound_rule {now : Instant} {w w' : Worker} {s s' : Shared} {h : History}
    (hw : w.Sound s.stop) (hrule : w.Rule now s h w' s') :
    s'.outbound.items = s.outbound.items ∨
      ∃ m session, s.outbound.items = m :: s'.outbound.items ∧ w'.phase.hand = [m] ∧
        w.session = some session ∧ session.isOpen = true := by
  cases hrule with
  | write htodo =>
      have hx := Write.ne_clearOutbound (hw.own _ (htodo ▸ List.mem_cons_self))
      exact .inl (by rw [s.outbound_write hx])
  | @take purpose bound alarm m outbound woken htodo hphase hitem =>
      have hpurpose := hw.aimed _ _ _ hphase
      obtain ⟨session, hsession⟩ := hw.held (by simp [hphase, hpurpose, Phase.isUsing])
      have hopen := hw.isOpen_of_calm htodo hsession
      exact .inr ⟨m, session, Queue.items_of_tryPop hitem, rfl, hsession, hopen⟩
  | _ => exact .inl rfl

end Worker

/-! ## Counts -/

/-- Whether an effect counts a transmission. -/
def Effect.countsSend : Effect → Bool
  | .write (.count .framesSent) | .write (.count .sendFailures) => true
  | _ => false

/-- How many transmissions a worker has still to count. -/
def Worker.uncounted (w : Worker) : Nat :=
  w.todo.countP Effect.countsSend

/-- How many transmissions were counted. -/
def LinkStats.sends (s : LinkStats) : UInt32 :=
  s.framesSent + s.sendFailures

namespace Course

/-- Every transmission is counted, the latest one perhaps a step later. -/
structure Counted (c : Course) : Prop where
  sends_eq : c.shared.status.stats.sends + .ofNat c.worker.uncounted =
    .ofNat (c.history.messages .transmitted).length
  uncounted_le : c.worker.uncounted ≤ 1

theorem sends_write (s : Shared) (x : Write) :
    (s.write x).status.stats.sends =
      s.status.stats.sends + if Effect.countsSend (.write x) then 1 else 0 := by
  cases x with
  | count counter =>
      cases counter <;>
        simp [Shared.write, Status.count, LinkStats.bump, LinkStats.sends, Effect.countsSend]
      · ac_rfl
      · ac_rfl
  | _ =>
      simp [Shared.write, Effect.countsSend, Status.storeState, Status.storeConnected, Status.touch]

theorem countP_eventEffects (session : Session) (event : LinkEvent) :
    (Worker.eventEffects session event).countP Effect.countsSend = 0 := by
  cases event <;> rfl

theorem uncounted_of_head {w : Worker} {effect : Effect} {todo : List Effect}
    (htodo : w.todo = effect :: todo) :
    w.uncounted = todo.countP Effect.countsSend + if effect.countsSend then 1 else 0 := by
  rw [Worker.uncounted, htodo, List.countP_cons]

theorem countsSend_ofSend (result : SendResult) :
    Effect.countsSend (.write (.count (.ofSend result))) = true := by
  cases result <;> rfl

theorem Counted.of_eq {c d : Course} (hc : Counted c)
    (hstats : d.shared.status.stats = c.shared.status.stats)
    (huncounted : d.worker.uncounted = c.worker.uncounted)
    (hsent : d.history.messages .transmitted = c.history.messages .transmitted) : Counted d := by
  constructor
  · rw [hstats, huncounted, hsent]
    exact hc.sends_eq
  · rw [huncounted]
    exact hc.uncounted_le

theorem counted_rule {c : Course} {now : Instant} {w : Worker} {s : Shared} {h : History}
    (hrule : c.worker.Rule now c.shared h w s) (hc : Counted c) :
    Counted ⟨w, s, c.history ++ h⟩ := by
  cases hrule with
  | @write x todo htodo =>
      obtain ⟨heq, hle⟩ := hc
      rw [uncounted_of_head htodo] at heq hle
      constructor
      · simp only [sends_write, List.append_nil]
        rw [← heq]
        split
        · simp [Worker.uncounted]
          ac_rfl
        · simp [Worker.uncounted]
      · exact Nat.le_trans (Nat.le_add_right _ _) hle
  | transmit result htodo hphase =>
      have heq := hc.sends_eq
      simp only [Worker.uncounted, htodo, List.countP_nil] at heq
      constructor
      · simp only [Worker.uncounted, List.countP_singleton, countsSend_ofSend,
          History.messages_append, History.messages_called]
        simpa [UInt32.ofNat_add] using heq
      · simp [Worker.uncounted, countsSend_ofSend]
  | event event htodo =>
      refine hc.of_eq rfl ?_ ?_
      · simp [Worker.uncounted, htodo, countP_eventEffects]
      · cases event.isTerminal <;> simp
  | probe result htodo =>
      refine hc.of_eq rfl ?_ (by simp)
      generalize (if Session.isOpen _ then result else .error .notConnected) = outcome
      cases outcome <;> simp [Worker.uncounted, htodo, Worker.probeEffects, Effect.countsSend]
  | deliver htodo | overflow htodo | hangUp htodo | idleDrop htodo =>
      refine hc.of_eq rfl ?_ (by simp)
      simp [Worker.uncounted, htodo, Effect.countsSend]
  | _ =>
      refine hc.of_eq rfl ?_ (by simp)
      simp_all [Worker.uncounted, Effect.countsSend, Effect.publish, Write.publish, Worker.greet,
        Worker.farewell]

theorem counted_evolves {c d : Course} (h : Evolves c d) (hc : Counted c) : Counted d := by
  cases h with
  | work hrule => exact counted_rule hrule hc
  | push | parkSender | pop | parkReceiver | listen => exact hc.of_eq rfl rfl (by simp)
  | @write x hx =>
      refine hc.of_eq ?_ rfl (by simp)
      cases x <;> first | rfl | cases hx

/-- Every transmission of every run is counted. -/
theorem Reachable.counted {c : Course} (hc : Reachable c) : Counted c := by
  induction hc with
  | fresh => exact ⟨rfl, Nat.zero_le _⟩
  | next _ hstep ih => exact counted_evolves hstep ih

end Course

end Uplink
