import Uplink.Network
import Uplink.Proofs.Transport.Invariant
import Uplink.Proofs.Worker.Delivery

/-! # After a stop

The queues of a run have no closed state. Once a stop has cleared them, what may still pass through
them comes from those who hold the block of the run since before: calls in progress, and the
worker as long as it has not ended. -/

namespace Uplink

/-! ## What a worker may still deliver -/

/-- Whether an effect hands a message over. -/
def Effect.delivers : Effect → Bool
  | .deliver _ => true
  | _ => false

/-- How many events a worker may still handle in its tick. -/
def Phase.left : Phase → Nat
  | .pumping left => left
  | _ => 0

/-- How many messages a worker may deliver before its next tick. -/
def Worker.deliveriesLeft (w : Worker) : Nat :=
  w.todo.countP Effect.delivers + w.phase.left

namespace Worker

theorem countP_delivers_le (session : Session) (event : LinkEvent) :
    (eventEffects session event).countP Effect.delivers ≤ 1 := by
  cases event <;>
    simp [eventEffects, LinkEvent.isActivity, Effect.delivers, Effect.publish, Write.publish]

section
variable {now : Instant} {w w' : Worker} {s s' : Shared} {h : History}

theorem countP_delivers_probeEffects (result : SendResult) :
    (probeEffects result).countP Effect.delivers = 0 := by
  cases result <;> rfl

theorem accepted_rule (hrule : w.Rule now s h w' s') : h.messages .accepted = [] := by
  cases hrule with
  | event event => cases event.isTerminal <;> simp
  | _ => simp

theorem received_rule (hrule : w.Rule now s h w' s') : h.messages .received = [] := by
  cases hrule with
  | event event => cases event.isTerminal <;> simp
  | _ => simp

/-- What is delivered goes to the end of the inbound queue, and the worker does nothing else
to it. -/
theorem inbound_rule (hw : w.Sound s.stop) (hrule : w.Rule now s h w' s') :
    s'.inbound.items = s.inbound.items ++ h.messages .delivered := by
  cases hrule with
  | write htodo =>
      have hx := Write.ne_clearInbound (hw.own _ (htodo ▸ List.mem_cons_self))
      simp [s.inbound_write hx]
  | deliver htodo hroom => simpa using Queue.items_of_tryPush hroom
  | event event => cases event.isTerminal <;> simp
  | _ => simp

/-- Only with a new tick, which a worker does not begin once it was asked to end, does it come to
deliver more. -/
theorem deliveries_rule (hrule : w.Rule now s h w' s') :
    (h.messages .delivered).length + w'.deliveriesLeft ≤ w.deliveriesLeft ∨
      s.stop.isRequested = false ∧ h = [] ∧ w'.deliveriesLeft = maxEventsPerTick := by
  cases hrule with
  | tick htodo _ hnot => exact .inr ⟨hnot, rfl, by simp [deliveriesLeft, htodo, Phase.left]⟩
  | write htodo | deliver htodo | overflow htodo | hangUp htodo | idleDrop htodo =>
      left
      simp [deliveriesLeft, htodo, Effect.delivers, List.countP_cons]
      try omega
  | event event htodo hphase =>
      left
      have := countP_delivers_le (Session.after ‹_› event now) event
      cases event.isTerminal <;> simp [deliveriesLeft, htodo, hphase, Phase.left] <;> omega
  | probe | transmit =>
      left
      simp [deliveriesLeft, countP_delivers_probeEffects, Effect.delivers, Phase.left]
  | _ =>
      left
      simp_all [deliveriesLeft, Phase.left, Effect.delivers, greet, farewell, Effect.publish,
        Write.publish]

theorem deliveriesLeft_of_exited {t : StopToken} (hw : w.Sound t) (h : t.hasExited = true) :
    w.deliveriesLeft = 0 := by
  obtain ⟨hphase, -⟩ := hw.exited h
  have hnone : farewell.countP Effect.delivers = 0 := by decide
  have hle := (hw.leaving hphase).sublist.countP_le (p := Effect.delivers)
  rw [hnone] at hle
  simpa [deliveriesLeft, hphase, Phase.left] using hle

end

end Worker

/-- The queue on one side. -/
def Shared.queue (s : Shared) : Side → Queue Message
  | .outbound => s.outbound
  | .inbound => s.inbound

namespace Course

theorem Evolves.deliveriesLeft_le {c d : Course} (h : c.Evolves d)
    (hc : c.worker.deliveriesLeft ≤ maxEventsPerTick) :
    d.worker.deliveriesLeft ≤ maxEventsPerTick := by
  cases h with
  | work hrule =>
      rcases Worker.deliveries_rule hrule with hle | ⟨_, _, heq⟩
      · exact Nat.le_trans (Nat.le_trans (Nat.le_add_left _ _) hle) hc
      · exact Nat.le_of_eq heq
  | _ => exact hc

theorem Reachable.deliveriesLeft_le {c : Course} (hc : Reachable c) :
    c.worker.deliveriesLeft ≤ maxEventsPerTick := by
  induction hc with
  | fresh => exact Nat.zero_le _
  | next _ hstep ih => exact hstep.deliveriesLeft_le ih

/-! ## From one moment to a later one -/

/-- What passed on the way from the course `c` to the later course `d`, and where it is now. -/
structure Passes (c d : Course) (accepted delivered received : List Message) : Prop where
  accepted_eq : d.history.messages .accepted = c.history.messages .accepted ++ accepted
  delivered_eq : d.history.messages .delivered = c.history.messages .delivered ++ delivered
  received_eq : d.history.messages .received = c.history.messages .received ++ received
  /-- What is still to be sent was there or was accepted since. -/
  outbound_suffix : d.shared.outbound.items <:+ c.shared.outbound.items ++ accepted
  /-- What was received or is there to be received was there or was delivered since. -/
  inbound_sublist : (received ++ d.shared.inbound.items).Sublist
    (c.shared.inbound.items ++ delivered)
  /-- Once it was asked to end, the worker delivers what it had left to deliver, at most. -/
  delivered_le : c.shared.stop.isRequested = true →
    delivered.length + d.worker.deliveriesLeft ≤ c.worker.deliveriesLeft

theorem Passes.refl (c : Course) : Passes c c [] [] [] := by
  constructor <;> simp

theorem Passes.trans {c d e : Course} {a a' b b' r r' : List Message} (h : Passes c d a b r)
    (hasked : c.shared.stop.isRequested = true → d.shared.stop.isRequested = true)
    (h' : Passes d e a' b' r') : Passes c e (a ++ a') (b ++ b') (r ++ r') where
  accepted_eq := by rw [h'.accepted_eq, h.accepted_eq, List.append_assoc]
  delivered_eq := by rw [h'.delivered_eq, h.delivered_eq, List.append_assoc]
  received_eq := by rw [h'.received_eq, h.received_eq, List.append_assoc]
  outbound_suffix := by
    obtain ⟨front, hfront⟩ := h.outbound_suffix
    rw [← List.append_assoc, ← hfront, List.append_assoc]
    exact h'.outbound_suffix.trans (List.suffix_append _ _)
  inbound_sublist := by
    have hlater := h'.inbound_sublist.append_left r
    have hearlier := h.inbound_sublist.append_right b'
    simp only [List.append_assoc] at hlater hearlier ⊢
    exact hlater.trans hearlier
  delivered_le := by
    intro hc
    have hle := h.delivered_le hc
    have hle' := h'.delivered_le (hasked hc)
    rw [List.length_append]
    omega

theorem passes_rule {c : Course} {now : Instant} {w : Worker} {s : Shared} {h : History}
    (hc : c.worker.Sound c.shared.stop) (hrule : c.worker.Rule now c.shared h w s) :
    Passes c ⟨w, s, c.history ++ h⟩ [] (h.messages .delivered) [] := by
  constructor
  · simp [Worker.accepted_rule hrule]
  · simp
  · simp [Worker.received_rule hrule]
  · rw [List.append_nil]
    rcases Worker.outbound_rule hc hrule with heq | ⟨m, _, heq, _⟩
    · exact heq ▸ List.suffix_refl _
    · exact heq ▸ List.suffix_cons _ _
  · simp [Worker.inbound_rule hc hrule]
  · intro hasked
    exact (Worker.deliveries_rule hrule).resolve_right (by simp [hasked])

/-- Nothing passes when others than the worker look or write. -/
theorem Passes.of_write (c : Course) {x : Write} (hx : x.isCallers = true) :
    Passes c { c with shared := c.shared.write x, history := c.history ++ x.marks } [] [] [] where
  accepted_eq := by simp
  delivered_eq := by simp
  received_eq := by simp
  outbound_suffix := by
    cases x with
    | clearOutbound => exact List.nil_suffix
    | _ => simp [Shared.write]
  inbound_sublist := by
    cases x with
    | clearInbound => exact List.nil_sublist _
    | _ => simp [Shared.write]
  delivered_le := by simp

theorem Evolves.passes {c d : Course} (hc : c.worker.Sound c.shared.stop) (h : c.Evolves d) :
    ∃ accepted delivered received, Passes c d accepted delivered received := by
  cases h with
  | work hrule => exact ⟨_, _, _, passes_rule hc hrule⟩
  | @push m outbound woken hpush =>
      refine ⟨[m], [], [], ?_⟩
      constructor <;> simp [Queue.items_of_tryPush hpush]
  | @pop m inbound woken hpop =>
      refine ⟨[], [], [m], ?_⟩
      constructor <;> simp [Queue.items_of_tryPop hpop]
  | parkSender | parkReceiver | listen =>
      refine ⟨[], [], [], ?_⟩
      constructor <;> simp [Queue.parkSender, Queue.parkReceiver]
  | write hx => exact ⟨[], [], [], .of_write c hx⟩

/-! ## The moment of a clear -/

/-- A queue is empty when it was cleared just now. -/
theorem Reachable.items_of_cleared {c : Course} (hc : Reachable c) (side : Side)
    (hlast : c.history.getLast? = some (.cleared side)) : (c.shared.queue side).items = [] := by
  induction hc with
  | fresh => cases hlast
  | @next c d hc hstep ih =>
      cases hstep with
      | @work now w s h hrule =>
          rcases List.eq_nil_or_concat h with rfl | ⟨front, x, rfl⟩
          · rw [List.append_nil] at hlast
            have hempty := ih hlast
            cases side with
            | outbound =>
                rcases Worker.outbound_rule hc.sound hrule with heq | ⟨m, _, heq, _⟩
                · exact heq.trans hempty
                · simp [Shared.queue, heq] at hempty
            | inbound => simpa [Shared.queue, Worker.inbound_rule hc.sound hrule] using hempty
          · rw [List.concat_eq_append, ← List.append_assoc, List.getLast?_concat] at hlast
            cases hlast
            exact absurd (by simp) (Worker.not_cleared_rule hrule side)
      | push | pop => simp at hlast
      | parkSender | parkReceiver | listen => cases side <;> exact ih hlast
      | @write x hx =>
          cases x with
          | clearOutbound =>
              cases side with
              | outbound => rfl
              | inbound => simp [Write.marks] at hlast
          | clearInbound =>
              cases side with
              | outbound => simp [Write.marks] at hlast
              | inbound => rfl
          | _ =>
              have hempty := ih (by simpa [Write.marks] using hlast)
              cases side <;> exact hempty

end Course

/-! ## Calls in progress -/

/-- Whether a thread is about to push into the outbound queue of a run. -/
def Activity.sendsTo (id : Nat) (activity : Activity) : Bool :=
  match activity.aim? with
  | some (run, .send _) => run = id
  | _ => false

namespace World

variable {σ : Type}

/-- How many threads are sending to a run. -/
def senders (w : World σ) (id : Nat) : Nat :=
  w.threads.countP (Activity.sendsTo id)

/-- The messages that a run has accepted. -/
def accepted (w : World σ) (id : Nat) : List Message :=
  (w.history id).messages .accepted

theorem accepted_append (w : World σ) (transport : Transport) (net : σ) (threads : List Activity)
    (j id : Nat) (h : History) :
    (⟨transport, net, threads, w.log ++ h.map (j, ·)⟩ : World σ).accepted id =
      w.accepted id ++ if j = id then h.messages .accepted else [] := by
  rw [accepted, history_append, History.messages_append]
  split <;> rfl

theorem accepted_marks (w : World σ) (transport : Transport) (net : σ) (threads : List Activity)
    (call : Transport.Procedure) (id : Nat) :
    (⟨transport, net, threads, w.log ++ call.marks⟩ : World σ).accepted id = w.accepted id := by
  have hnil : (⟨transport, net, threads, w.log ++ []⟩ : World σ).accepted id = w.accepted id := by
    simp [accepted, history]
  cases call with
  | write j xs rest =>
      cases xs with
      | nil => exact hnil
      | cons x xs =>
          have := w.accepted_append transport net threads j id x.marks
          simpa [Transport.Procedure.marks] using this
  | _ => exact hnil

/-- With every message that a released run accepts, one of the calls that send to it is over, and
no call joins them. -/
theorem senders_rule {w w' : World σ} {id : Nat} (hid : w.Released id) (hrule : w.Rule w') :
    (w'.accepted id).length + w'.senders id ≤ (w.accepted id).length + w.senders id := by
  have hturn {thread : Nat} {old new : Activity} (hthread : w.threads[thread]? = some old)
      (hnew : new.sendsTo id = true → old.sendsTo id = true) :
      (w.threads.set thread new).countP (Activity.sendsTo id) ≤ w.senders id := by
    have hcount := countP_turn (Activity.sendsTo id) new hthread
    rw [senders]
    by_cases hsends : new.sendsTo id = true
    · rw [if_pos hsends, if_pos (hnew hsends)] at hcount
      omega
    · rw [if_neg hsends] at hcount
      omega
  have hkeep {thread : Nat} {old new : Activity} (hthread : w.threads[thread]? = some old)
      (hnew : new.sendsTo id = true → old.sendsTo id = true) :
      (w.accepted id).length + (w.threads.set thread new).countP (Activity.sendsTo id) ≤
        (w.accepted id).length + w.senders id :=
    Nat.add_le_add_left (hturn hthread hnew) _
  have hidle : Activity.idle.sendsTo id = false := rfl
  have hfree {old : Activity} : Activity.idle.sendsTo id = true → old.sendsTo id = true := by
    simp [hidle]
  cases hrule with
  | rest | drift => exact Nat.le_refl _
  | work net hrun hrule =>
      simp only [record, senders, accepted_append, Worker.accepted_rule hrule]
      simp
  | beginStart hthread | beginStop hthread =>
      exact hkeep hthread (by simp [Activity.sendsTo, Activity.aim?])
  | finish hthread | giveUp hthread => exact hkeep hthread hfree
  | @beginTry _ j action _ hthread hrunning =>
      -- A call that begins takes up the run in progress, which is not this one.
      have hj : j ≠ id := fun heq => hid.2 (heq ▸ hrunning)
      refine hkeep hthread ?_
      cases action <;> simp [Activity.sendsTo, Activity.aim?, hj]
  | start hthread hrule | stop hthread hrule =>
      simp only [senders, turn, accepted_marks]
      exact hkeep hthread (by simp [Activity.sendsTo, Activity.aim?])
  | @push thread activity j m _ _ _ hthread haim =>
      simp only [record, turn, updateShared, accepted_append, senders, List.length_append]
      by_cases hj : j = id
      · have hsends : activity.sendsTo id = true := by simp [Activity.sendsTo, haim, hj]
        have hcount := countP_turn (Activity.sendsTo id) .idle hthread
        rw [if_pos hsends, hidle] at hcount
        simp [hj] at hcount ⊢
        omega
      · simpa [hj, senders] using hkeep hthread hfree
  | pop hthread haim =>
      simp only [record, turn, updateShared, accepted_append, senders]
      simpa [senders] using hkeep hthread hfree
  | await hthread => exact hkeep hthread fun h => h
  | parkSender hthread _ hnext | parkReceiver hthread _ hnext =>
      refine hkeep hthread ?_
      rcases hnext with rfl | rfl
      · exact hfree
      · exact fun h => h

/-! ## After the clear -/

/-- What a released run that was asked to end comes to, with the calls that still send to it. -/
structure Aftermath (w : World σ) (id : Nat) (c : Course) (w' : World σ) : Prop where
  sound : w'.Sound
  released : w'.Released id
  senders_le : (w'.accepted id).length + w'.senders id ≤ (w.accepted id).length + w.senders id
  passes : ∃ d, w'.course? id = some d ∧ d.Reachable ∧ d.shared.stop.isRequested = true ∧
    ∃ accepted delivered received, c.Passes d accepted delivered received

theorem aftermath_rule {w w' w'' : World σ} {id : Nat} {c : Course} (h : w.Aftermath id c w')
    (hrule : w'.Rule w'') : w.Aftermath id c w'' where
  sound := sound_rule h.sound hrule
  released := (grows_rule h.sound hrule).released id h.released
  senders_le := Nat.le_trans (senders_rule h.released hrule) h.senders_le
  passes := by
    obtain ⟨d, hd, hreach, hrequested, a, b, r, hpasses⟩ := h.passes
    obtain ⟨e, he, rfl | hstep⟩ := (hd ▸ follows_rule h.sound hrule id).exists_of_some
    · exact ⟨_, he, hreach, hrequested, a, b, r, hpasses⟩
    · obtain ⟨a', b', r', hpasses'⟩ := hstep.passes hreach.sound
      exact ⟨e, he, hreach.next hstep, hstep.isRequested hrequested, _, _, _,
        hpasses.trans (fun _ => hrequested) hpasses'⟩

theorem aftermath_run [Connector σ] {w : World σ} {id : Nat} {c : Course} (hw : w.Sound)
    (hc : w.course? id = some c) (hreach : c.Reachable) (hid : w.Released id)
    (hasked : c.shared.stop.isRequested = true) (moves : List (Move σ)) :
    w.Aftermath id c (w.run moves) :=
  run_induction (P := w.Aftermath id c)
    ⟨hw, hid, Nat.le_refl _, c, hc, hreach, hasked, [], [], [], .refl c⟩
    (fun w' move h => aftermath_rule h (w'.step_rule move)) moves

/-- Once a stop has cleared a queue of a run, whatever happens afterwards: the run accepts at most
one message for each call that was sending to it, its worker delivers no more than the rest of a
tick and nothing if it had exited, and what is received, or found in a queue, was left there or
has passed since. At the moment of a clear nothing is left. -/
theorem outcome_after_clear [Connector σ] (config : LinkConfig) (outbound inbound threads : Nat)
    (net : σ) (before after : List (Move σ)) (id : Nat) (c : Course) (side : Side)
    (hc : ((fresh config outbound inbound threads net).run before).course? id = some c)
    (hclear : .cleared side ∈ c.history) :
    let w := (fresh config outbound inbound threads net).run before
    (∀ side, c.history.getLast? = some (.cleared side) → (c.shared.queue side).items = []) ∧
    ∃ (d : Course) (accepted delivered received : List Message),
      (w.run after).course? id = some d ∧
      d.history.messages .accepted = c.history.messages .accepted ++ accepted ∧
      accepted.length ≤ w.senders id ∧
      d.shared.outbound.items <:+ c.shared.outbound.items ++ accepted ∧
      d.history.messages .delivered = c.history.messages .delivered ++ delivered ∧
      delivered.length ≤ maxEventsPerTick ∧
      (c.shared.stop.hasExited = true → delivered = []) ∧
      d.history.messages .received = c.history.messages .received ++ received ∧
      (received ++ d.shared.inbound.items).Sublist (c.shared.inbound.items ++ delivered) := by
  intro w
  have hw : w.Sound := (sound_fresh config outbound inbound threads net).run before
  have hreach : c.Reachable := reachable_course config outbound inbound threads net before hc
  rw [course_history hc] at hclear
  obtain ⟨hid, c', hc', hasked⟩ := hw.cleared id side (mem_log_of_mem_history hclear)
  obtain rfl : c' = c := Option.some.inj (hc'.symm.trans hc)
  have hafter := aftermath_run hw hc hreach hid hasked after
  obtain ⟨d, hd, hdreach, _, accepted, delivered, received, hpasses⟩ := hafter.passes
  have hle := hpasses.delivered_le hasked
  refine ⟨hreach.items_of_cleared, d, accepted, delivered, received, hd, hpasses.accepted_eq, ?_,
    hpasses.outbound_suffix, hpasses.delivered_eq, ?_, ?_, hpasses.received_eq,
    hpasses.inbound_sublist⟩
  · have hsenders := hafter.senders_le
    rw [World.accepted, World.accepted, ← course_history hd, ← course_history hc,
      hpasses.accepted_eq, List.length_append] at hsenders
    omega
  · have := hreach.deliveriesLeft_le
    omega
  · intro hexited
    have hzero := Worker.deliveriesLeft_of_exited hreach.sound hexited
    exact List.eq_nil_of_length_eq_zero (by omega)

/-- A stop has given up on a worker in the middle of a tick and cleared both queues, while one
thread waits to send and another one to receive. -/
def abandoned : World Network :=
  (fresh .default 1 16 3
      { Network.silent with outcomes := [.ok ()], events := [.data .empty, .data .empty] }).run
    ([.ask 0 (.start "ws://hub"), .go 0 0 false, .go 0 0 false, .go 0 0 false] ++
      .replicate 11 (.work 0 0) ++
      [.ask 0 (.send .empty false), .go 0 0 false, .ask 1 (.send .empty true), .go 1 0 false,
        .ask 2 (.receive true), .go 2 0 false, .ask 0 .stop] ++
      .replicate 9 (.go 0 0 false) ++ .replicate 6 (.go 0 (milliseconds 1000000) false))

/-- The worker handles two more events, and both threads look at their queue again. -/
def overtime : List (Move Network) :=
  .replicate 8 (.work 0 0) ++ [.go 2 0 false, .go 1 0 false]

/-- One of the calls in progress, and not more than one, can still send. -/
theorem outcome_of_abandoned :
    ∃ (c d : Course) (accepted : List Message), abandoned.course? 0 = some c ∧
      .cleared .inbound ∈ c.history ∧ c.shared.inbound.items = [] ∧
      (abandoned.run overtime).course? 0 = some d ∧
      d.history.messages .accepted = c.history.messages .accepted ++ accepted ∧
      accepted.length ≤ 1 := by
  obtain ⟨c, hc⟩ : ∃ c, abandoned.course? 0 = some c := exists_course? (by decide +kernel)
  have hfacts : (abandoned.course? 0).map (fun c =>
      (decide (.cleared .inbound ∈ c.history), c.shared.inbound.items)) = some (true, []) := by
    decide +kernel
  simp only [hc, Option.map_some, Option.some.injEq, Prod.mk.injEq, decide_eq_true_eq] at hfacts
  obtain ⟨_, d, accepted, _, _, hd, heq, hle, _⟩ :=
    outcome_after_clear _ _ _ _ _ _ overtime _ c .inbound hc hfacts.1
  exact ⟨c, d, accepted, hc, hfacts.1, hfacts.2, hd, heq, hle⟩

/-- A message is accepted and another one handed out after both queues were cleared, and messages
are left in either queue. -/
theorem traffic_after_clear :
    ∃ c d : Course, abandoned.course? 0 = some c ∧ (abandoned.run overtime).course? 0 = some d ∧
      .cleared .outbound ∈ c.history ∧ .cleared .inbound ∈ c.history ∧
      (d.history.messages .accepted).length = (c.history.messages .accepted).length + 1 ∧
      (d.history.messages .received).length = (c.history.messages .received).length + 1 ∧
      d.shared.outbound.items ≠ [] ∧ d.shared.inbound.items ≠ [] := by
  obtain ⟨c, hc⟩ : ∃ c, abandoned.course? 0 = some c := exists_course? (by decide +kernel)
  obtain ⟨d, hd⟩ : ∃ d, (abandoned.run overtime).course? 0 = some d :=
    exists_course? (by decide +kernel)
  have hbefore : (abandoned.course? 0).map (fun c =>
      (decide (.cleared .outbound ∈ c.history), decide (.cleared .inbound ∈ c.history),
        (c.history.messages .accepted).length, (c.history.messages .received).length)) =
      some (true, true, 1, 0) := by
    decide +kernel
  have hafter : ((abandoned.run overtime).course? 0).map (fun d =>
      ((d.history.messages .accepted).length, (d.history.messages .received).length,
        d.shared.outbound.items.length, d.shared.inbound.items.length)) = some (2, 1, 1, 1) := by
    decide +kernel
  simp only [hc, Option.map_some, Option.some.injEq, Prod.mk.injEq, decide_eq_true_eq] at hbefore
  simp only [hd, Option.map_some, Option.some.injEq, Prod.mk.injEq] at hafter
  obtain ⟨houtbound, hinbound, haccepted, hreceived⟩ := hbefore
  obtain ⟨haccepted', hreceived', hsent, hleft⟩ := hafter
  refine ⟨c, d, hc, hd, houtbound, hinbound, ?_, ?_, ?_, ?_⟩
  · rw [haccepted, haccepted']
  · rw [hreceived, hreceived']
  · exact List.ne_nil_of_length_eq_add_one hsent
  · exact List.ne_nil_of_length_eq_add_one hleft

end World

end Uplink
