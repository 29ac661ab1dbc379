import Uplink.Network
import Uplink.Proofs.Transport.Aftermath

/-! # Inbound delivery

A data frame that a worker has polled is on its way to the inbound queue, has arrived there, or
was dropped because it met a full queue. None is dropped for another reason, none is doubled, and
no frame overtakes another one. -/

namespace Uplink

/-- The data frame that a call brings. -/
def NetCall.data? : NetCall → Option Message
  | .poll (some (.data m)) => some m
  | _ => none

@[simp] theorem NetCall.data?_connect (uri : String) (timeout : Nat)
    (outcome : Except ConnectError Unit) : (connect uri timeout outcome).data? = none := rfl

@[simp] theorem NetCall.data?_send (frame : Octets) (timeout : Nat) (result : SendResult) :
    (send frame timeout result).data? = none := rfl

@[simp] theorem NetCall.data?_close : close.data? = none := rfl

/-- The data frames that a worker polled from its links. -/
def History.polled (h : History) : List Message :=
  h.calls.filterMap NetCall.data?

@[simp] theorem History.polled_append (h k : History) :
    polled (h ++ k) = polled h ++ polled k := by
  simp [polled]

/-- The data frame that is to be handed over. -/
def Effect.frame? : Effect → Option Message
  | .deliver m => some m
  | _ => none

@[simp] theorem Effect.frame?_write (x : Write) : (write x).frame? = none := rfl

@[simp] theorem Effect.frame?_deliver (m : Message) : (deliver m).frame? = some m := rfl

@[simp] theorem Effect.frame?_dropSession : dropSession.frame? = none := rfl

/-- The data frames that a worker has polled and not handed over yet. -/
def Worker.incoming (w : Worker) : List Message :=
  w.todo.filterMap Effect.frame?

/-- How often a worker has still to count. -/
def Worker.owes (w : Worker) (counter : Counter) : Nat :=
  w.todo.count (.write (.count counter))

/-- What a counter shows. -/
def LinkStats.value (s : LinkStats) : Counter → UInt32
  | .connectAttempts => s.connectAttempts
  | .connectFailures => s.connectFailures
  | .staleDisconnects => s.staleDisconnects
  | .framesSent => s.framesSent
  | .sendFailures => s.sendFailures
  | .framesReceived => s.framesReceived
  | .inboundDropped => s.inboundDropped
  | .heartbeatsSent => s.heartbeatsSent

theorem LinkStats.value_bump (s : LinkStats) (c counter : Counter) :
    (s.bump c).value counter = s.value counter + if c = counter then 1 else 0 := by
  cases c <;> cases counter <;> simp [bump, value]

theorem Shared.value_write (s : Shared) (x : Write) (counter : Counter) :
    (s.write x).status.stats.value counter =
      s.status.stats.value counter + if x = .count counter then 1 else 0 := by
  cases x with
  | count c => simpa [write, Status.count] using s.status.stats.value_bump c counter
  | _ => simp [write, Status.storeState, Status.storeConnected, Status.touch]

namespace Session

theorem filterMap_closing (s : Session) : s.closing.filterMap NetCall.data? = [] := by
  simp [NetCall.data?]

theorem filterMap_polling (s : Session) : (s.polling none).filterMap NetCall.data? = [] := by
  simp [NetCall.data?]

theorem filterMap_sending (s : Session) (frame : Octets) (timeout : Nat) (result : SendResult) :
    (s.sending frame timeout result).filterMap NetCall.data? = [] := by
  simp [NetCall.data?]

end Session

/-! ## Arrivals -/

/-- A data frame that comes to the inbound queue. -/
structure Arrival where
  frame : Message
  /-- Whether there is no room for it. -/
  meetsFull : Bool

/-- The arrival that the worker of a run brings about in its next step. -/
def Course.arriving (c : Course) : List Arrival :=
  match c.worker.todo with
  | .deliver m :: _ => [⟨m, c.shared.inbound.isFull⟩]
  | _ => []

/-- The frames that find room. -/
def roomy (arrivals : List Arrival) : List Message :=
  (arrivals.filter (!·.meetsFull)).map (·.frame)

@[simp] theorem roomy_append (arrivals more : List Arrival) :
    roomy (arrivals ++ more) = roomy arrivals ++ roomy more := by
  simp [roomy]

namespace Course

theorem arriving_of_cons {c : Course} {m : Message} {todo : List Effect}
    (htodo : c.worker.todo = .deliver m :: todo) :
    c.arriving = [⟨m, c.shared.inbound.isFull⟩] := by
  simp [arriving, htodo]

theorem arriving_of_ne {c : Course} (hnot : ∀ m todo, c.worker.todo ≠ .deliver m :: todo) :
    c.arriving = [] := by
  cases htodo : c.worker.todo with
  | nil => simp [arriving, htodo]
  | cons effect todo =>
      cases effect with
      | deliver m => exact absurd htodo (hnot m todo)
      | write | dropSession => simp [arriving, htodo]

/-- The frames polled from the links of a run are accounted for by the arrivals. -/
structure Received (c : Course) (arrivals : List Arrival) : Prop where
  polled_eq : arrivals.map (·.frame) ++ c.worker.incoming = c.history.polled
  delivered_eq : c.history.messages .delivered = roomy arrivals
  received_eq : c.shared.status.stats.value .framesReceived +
    .ofNat (c.worker.owes .framesReceived) = .ofNat c.history.polled.length
  dropped_eq : c.shared.status.stats.value .inboundDropped +
    .ofNat (c.worker.owes .inboundDropped) = .ofNat (arrivals.countP (·.meetsFull))
  /-- Frames are handed over one at a time. -/
  incoming_le : c.worker.incoming.length + c.worker.owes .inboundDropped ≤ 1
  owes_le : c.worker.owes .framesReceived ≤ 1

theorem received_fresh (uri : String) (config : LinkConfig) (outbound inbound : Nat)
    (now : Instant) : Received (.fresh uri config outbound inbound now) [] := by
  constructor <;> first | rfl | exact Nat.zero_le _

theorem Received.of_eq {c d : Course} {arrivals : List Arrival} (hc : Received c arrivals)
    (hpolled : d.history.polled = c.history.polled)
    (hdelivered : d.history.messages .delivered = c.history.messages .delivered)
    (hstats : d.shared.status.stats = c.shared.status.stats)
    (hincoming : d.worker.incoming = c.worker.incoming)
    (howes : ∀ counter ∈ [Counter.framesReceived, .inboundDropped],
      d.worker.owes counter = c.worker.owes counter) : Received d arrivals := by
  have hreceived := howes .framesReceived (by simp)
  have hdropped := howes .inboundDropped (by simp)
  constructor
  · rw [hincoming, hpolled]
    exact hc.polled_eq
  · rw [hdelivered]
    exact hc.delivered_eq
  · rw [hstats, hreceived, hpolled]
    exact hc.received_eq
  · rw [hstats, hdropped]
    exact hc.dropped_eq
  · rw [hincoming, hdropped]
    exact hc.incoming_le
  · rw [hreceived]
    exact hc.owes_le

/-- A step with which no frame comes or goes. -/
theorem Received.of_quiet {c : Course} {arrivals : List Arrival} {w : Worker} {s : Shared}
    {h : History} (hc : Received c arrivals)
    (hnot : ∀ m todo, c.worker.todo ≠ .deliver m :: todo) (hpolled : h.polled = [])
    (hdelivered : h.messages .delivered = [])
    (hstats : s.status.stats = c.shared.status.stats)
    (hincoming : w.incoming = c.worker.incoming)
    (howes : ∀ counter ∈ [Counter.framesReceived, .inboundDropped],
      w.owes counter = c.worker.owes counter) :
    Received ⟨w, s, c.history ++ h⟩ (arrivals ++ c.arriving) := by
  rw [arriving_of_ne hnot, List.append_nil]
  exact hc.of_eq (by simp [hpolled]) (by simp [hdelivered]) hstats hincoming howes

section
variable {c : Course} {now : Instant} {arrivals : List Arrival}

theorem received_write {x : Write} {w : Worker} (htodo : c.worker.todo = .write x :: w.todo)
    (hc : Received c arrivals) : Received ⟨w, c.shared.write x, c.history⟩ arrivals := by
  have howes (counter : Counter) :
      c.worker.owes counter = w.owes counter + if x = .count counter then 1 else 0 := by
    simp [Worker.owes, htodo, List.count_cons]
  have hincoming : c.worker.incoming = w.incoming := by
    simp [Worker.incoming, htodo, List.filterMap_cons]
  obtain ⟨hpolled, hdelivered, hreceived, hdropped, hle, howesle⟩ := hc
  rw [hincoming] at hpolled hle
  rw [howes] at hreceived hdropped hle howesle
  -- What is counted now is owed no longer.
  have hpaid (counter : Counter) (n : Nat) :
      (c.shared.write x).status.stats.value counter + .ofNat n =
        c.shared.status.stats.value counter +
          .ofNat (n + if x = .count counter then 1 else 0) := by
    rw [Shared.value_write]
    by_cases hx : x = .count counter
    · simp [hx]
      ac_rfl
    · simp [hx]
  refine ⟨hpolled, hdelivered, ?_, ?_, ?_, ?_⟩
  · exact (hpaid _ _).trans hreceived
  · exact (hpaid _ _).trans hdropped
  · exact Nat.le_trans (Nat.le_add_right _ _) (Nat.add_assoc _ _ _ ▸ hle)
  · exact Nat.le_trans (Nat.le_add_right _ _) howesle

/-- A frame that comes to the queue is delivered if there is room, and else will be counted. -/
theorem received_arrive {m : Message} {todo : List Effect} {w : Worker} {s : Shared} {h : History}
    (htodo : c.worker.todo = .deliver m :: todo)
    (hcalls : h.calls = []) (hstats : s.status.stats = c.shared.status.stats)
    (hfound : c.shared.inbound.isFull = false ∧ h.messages .delivered = [m] ∧ w.todo = todo ∨
      c.shared.inbound.isFull = true ∧ h.messages .delivered = [] ∧
        w.todo = .write (.count .inboundDropped) :: todo)
    (hc : Received c arrivals) :
    Received ⟨w, s, c.history ++ h⟩ (arrivals ++ c.arriving) := by
  obtain ⟨hpolled, hdelivered, hreceived, hdropped, hle, howesle⟩ := hc
  have hincoming : c.worker.incoming = m :: w.incoming := by
    rcases hfound with ⟨-, -, hw⟩ | ⟨-, -, hw⟩ <;>
      simp [Worker.incoming, htodo, hw, List.filterMap_cons]
  have howed : c.worker.owes .framesReceived = w.owes .framesReceived := by
    rcases hfound with ⟨-, -, hw⟩ | ⟨-, -, hw⟩ <;> simp [Worker.owes, htodo, hw]
  have hmissed : w.owes .inboundDropped =
      c.worker.owes .inboundDropped + if c.shared.inbound.isFull then 1 else 0 := by
    rcases hfound with ⟨hroom, -, hw⟩ | ⟨hfull, -, hw⟩
    · simp [Worker.owes, htodo, hw, hroom]
    · simp [Worker.owes, htodo, hw, hfull]
  rw [hincoming] at hpolled hle
  rw [List.length_cons] at hle
  rw [howed] at hreceived howesle
  have hsame : (c.history ++ h).polled = c.history.polled := by
    simp [History.polled, hcalls]
  constructor
  · simp [arriving_of_cons htodo, hsame, ← hpolled]
  · rcases hfound with ⟨hroom, hpassed, -⟩ | ⟨hfull, hpassed, -⟩
    · simp [arriving_of_cons htodo, roomy, hpassed, hdelivered, hroom]
    · simp [arriving_of_cons htodo, roomy, hpassed, hdelivered, hfull]
  · rw [hsame, hstats]
    exact hreceived
  · rw [hstats, hmissed, arriving_of_cons htodo, List.countP_append, UInt32.ofNat_add,
      UInt32.ofNat_add, ← hdropped]
    simp [List.countP_singleton]
    ac_rfl
  · simp only [hmissed]
    split <;> omega
  · exact howesle

/-- A data frame that was polled is going to be counted and handed over. -/
theorem received_poll {m : Message} {session : Session} {w : Worker} {h : History}
    (htodo : c.worker.todo = []) (hw : w.todo = Worker.eventEffects session (.data m))
    (hbrought : h.polled = [m]) (hpassed : h.messages .delivered = [])
    (hc : Received c arrivals) :
    Received ⟨w, c.shared, c.history ++ h⟩ (arrivals ++ c.arriving) := by
  obtain ⟨hpolled, hdelivered, hreceived, hdropped, -, -⟩ := hc
  simp only [Worker.incoming, Worker.owes, htodo, List.filterMap_nil, List.append_nil,
    List.count_nil] at hpolled hreceived hdropped
  have hincoming : w.incoming = [m] := by
    simp [Worker.incoming, hw, Worker.eventEffects, LinkEvent.isActivity, List.filterMap_cons]
  have howes : w.owes .framesReceived = 1 ∧ w.owes .inboundDropped = 0 := by
    simp [Worker.owes, hw, Worker.eventEffects, LinkEvent.isActivity]
  rw [arriving_of_ne (by simp [htodo]), List.append_nil]
  constructor
  · simp [hincoming, hbrought, hpolled]
  · simp [hpassed, hdelivered]
  · simpa [howes.1, hbrought, UInt32.ofNat_add] using hreceived
  · simpa [howes.2] using hdropped
  · simp [hincoming, howes.2]
  · simp [howes.1]

theorem received_rule {w : Worker} {s : Shared} {h : History}
    (hrule : c.worker.Rule now c.shared h w s) (hc : Received c arrivals) :
    Received ⟨w, s, c.history ++ h⟩ (arrivals ++ c.arriving) := by
  cases hrule with
  | write htodo =>
      rw [arriving_of_ne (by simp [htodo]), List.append_nil, List.append_nil]
      exact received_write htodo hc
  | deliver htodo hroom =>
      have hfull := (Queue.tryPush?_eq_some_iff.mp hroom).1
      refine received_arrive htodo ?_ ?_ (.inl ⟨hfull, ?_, ?_⟩) hc <;> simp
  | overflow htodo hfull =>
      have hfull := Queue.tryPush?_eq_none_iff.mp hfull
      refine received_arrive htodo ?_ ?_ (.inr ⟨hfull, ?_, ?_⟩) hc <;> simp
  | event event htodo =>
      cases event with
      | data m => exact received_poll htodo rfl rfl rfl hc
      | connected | disconnected | keepAlive | failed =>
          refine hc.of_quiet (by simp [htodo]) rfl rfl rfl ?_ ?_
          · simp [Worker.incoming, htodo, Worker.eventEffects, LinkEvent.isActivity,
              Effect.publish, Write.publish]
          · simp [Worker.owes, htodo, Worker.eventEffects, LinkEvent.isActivity, Effect.publish,
              Write.publish]
  | hangUp htodo hsession | idleDrop htodo hsession =>
      refine hc.of_quiet (by simp [htodo]) ?_ ?_ rfl ?_ ?_
      · simp [History.polled, Session.filterMap_closing]
      · simp
      · simp [Worker.incoming, htodo, List.filterMap_cons]
      · simp [Worker.owes, htodo]
  | transmit result htodo | probe result htodo =>
      refine hc.of_quiet (by simp [htodo]) ?_ ?_ rfl ?_ ?_
      · simp [History.polled, Session.filterMap_sending]
      · simp
      all_goals
        generalize (if Session.isOpen _ then result else .error .notConnected) = outcome
        cases outcome <;>
          simp [Worker.incoming, Worker.owes, htodo, Worker.probeEffects, Counter.ofSend]
  | _ =>
      refine hc.of_quiet ?_ ?_ ?_ rfl ?_ ?_
      · simp [*]
      · simp [History.polled, Session.filterMap_closing, Session.filterMap_polling]
      · simp
      · simp_all [Worker.incoming, Worker.greet, Worker.farewell, Effect.publish, Write.publish]
      · simp_all [Worker.owes, Worker.greet, Worker.farewell, Effect.publish, Write.publish]

/-- A worker that hands a frame over goes on to something else. -/
theorem arriving_of_still {w : Worker} {s : Shared} {h : History}
    (hrule : c.worker.Rule now c.shared h w s) (hstill : w.todo = c.worker.todo) :
    c.arriving = [] := by
  apply arriving_of_ne
  intro m todo htodo
  cases hrule <;> simp_all

end

/-- What others do makes no difference to what a worker has received. -/
theorem received_of_still {c d : Course} {arrivals : List Arrival} (h : c.Evolves d)
    (hstill : d.worker = c.worker) (hc : Received c arrivals) : Received d arrivals := by
  cases h with
  | work hrule =>
      have hnone := arriving_of_still hrule (congrArg (·.todo) hstill)
      have := received_rule hrule hc
      rwa [hnone, List.append_nil] at this
  | push | pop | parkSender | parkReceiver | listen =>
      exact hc.of_eq (by simp [History.polled]) (by simp) rfl rfl fun _ _ => rfl
  | @write x hx =>
      refine hc.of_eq (by simp [History.polled]) (by simp) ?_ rfl fun _ _ => rfl
      cases x <;> first | rfl | cases hx

/-! ## Order -/

/-- As long as the inbound queue of a run was not cleared, what was delivered is what was received
and what is there to be received. -/
theorem Reachable.inbound_eq {c : Course} (hc : Reachable c)
    (hclear : .cleared .inbound ∉ c.history) :
    c.history.messages .received ++ c.shared.inbound.items = c.history.messages .delivered := by
  induction hc with
  | fresh => rfl
  | @next c d hc hstep ih =>
      cases hstep with
      | work hrule =>
          have hbefore := ih fun hmem => hclear (List.mem_append_left _ hmem)
          simp [Worker.received_rule hrule, Worker.inbound_rule hc.sound hrule,
            ← List.append_assoc, hbefore]
      | pop hpop =>
          have hbefore := ih (by simpa using hclear)
          simpa [Queue.items_of_tryPop hpop] using hbefore
      | push => simpa using ih (by simpa using hclear)
      | parkSender | parkReceiver | listen => exact ih hclear
      | @write x hx =>
          have hx : x ≠ .clearInbound := by
            rintro rfl
            simp [Write.marks] at hclear
          simpa [c.shared.inbound_write hx] using
            ih fun hmem => hclear (List.mem_append_left _ hmem)

end Course

/-! ## Every run -/

namespace Transport

/-- The worker of a run. -/
def worker? (t : Transport) (id : Nat) : Option Worker :=
  t.runs[id]?.map (·.worker)

@[simp] theorem worker?_updateShared (t : Transport) (j : Nat) (f : Shared → Shared) (id : Nat) :
    (t.updateShared j f).worker? id = t.worker? id := by
  simp only [worker?, updateShared, updateRun, List.getElem?_modify]
  by_cases hj : j = id <;> simp [hj, Function.comp_def]

theorem worker?_launch {t : Transport} {id : Nat} {v : Worker} (h : t.worker? id = some v)
    (uri : String) (now : Instant) : (t.launch uri now).worker? id = some v := by
  obtain ⟨run, hrun, hv⟩ := Option.map_eq_some_iff.mp h
  have hlt := (List.getElem?_eq_some_iff.mp hrun).1
  simp [worker?, launch, List.getElem?_append_left hlt, hrun, hv]

/-- A start or a stop leaves the workers as they are. -/
theorem worker?_rule {t t' : Transport} {id : Nat} {v : Worker} {now : Instant} {caller : Waker}
    {call next : Procedure} (hrule : t.Rule now caller call t' next)
    (h : t.worker? id = some v) : t'.worker? id = some v := by
  cases hrule with
  | launch => exact worker?_launch h _ now
  | write | signalled | unsignalled => exact (worker?_updateShared t _ _ id).trans h
  | _ => exact h

/-- A run without its queues and its status: the worker and the stop token. -/
def core? (t : Transport) (id : Nat) : Option (Worker × StopToken) :=
  t.runs[id]?.map fun run => (run.worker, run.shared.stop)

theorem worker?_eq_map_core? (t : Transport) (id : Nat) :
    t.worker? id = (t.core? id).map (·.1) := by
  simp [worker?, core?, Function.comp_def]

theorem core?_updateShared (t : Transport) (j : Nat) {f : Shared → Shared}
    (hf : ∀ shared, (f shared).stop = shared.stop) (id : Nat) :
    (t.updateShared j f).core? id = t.core? id := by
  simp only [core?, updateShared, updateRun, List.getElem?_modify]
  by_cases hj : j = id <;> simp [hj, hf, Function.comp_def]

theorem core?_trySend (t : Transport) (run : Nat) (m : Message) (id : Nat) :
    (t.trySend run m).2.core? id = t.core? id := by
  unfold trySend
  split
  · refine t.core?_updateShared run ?_ id
    exact fun _ => rfl
  · rfl

theorem core?_tryReceive (t : Transport) (run : Nat) (id : Nat) :
    (t.tryReceive run).2.core? id = t.core? id := by
  unfold tryReceive
  split
  · refine t.core?_updateShared run ?_ id
    exact fun _ => rfl
  · rfl

theorem core?_pollSend (t : Transport) (run : Nat) (pending : Queue.Pending Message)
    (expired : Bool) (id : Nat) :
    (t.pollSend run pending expired).2.1.core? id = t.core? id := by
  unfold pollSend
  split
  · rfl
  · refine t.core?_updateShared run ?_ id
    exact fun _ => rfl

theorem core?_pollReceive (t : Transport) (run : Nat) (pending : Queue.Pending Message)
    (expired : Bool) (id : Nat) :
    (t.pollReceive run pending expired).2.1.core? id = t.core? id := by
  unfold pollReceive
  split
  · rfl
  · refine t.core?_updateShared run ?_ id
    exact fun _ => rfl

end Transport

namespace World

variable {σ : Type}

theorem worker?_of_course? {w : World σ} {id : Nat} {c : Course} (hc : w.course? id = some c) :
    w.transport.worker? id = some c.worker := by
  obtain ⟨run, hrun, rfl⟩ := Option.map_eq_some_iff.mp hc
  simp [Transport.worker?, hrun]

theorem core?_begin (w : World σ) (thread : Nat) (request : Request) (id : Nat) :
    (w.begin thread request).transport.core? id = w.transport.core? id := by
  cases request with
  | start | stop => rfl
  | send | receive => cases hrunning : w.transport.running <;> simp [begin, hrunning, turn]

/-- A thread that looks at a queue for the first time leaves worker and stop token alone. -/
theorem core?_attempt (w : World σ) (thread run : Nat) (timed : Bool)
    (action : Queue.Action Message) (id : Nat) :
    (w.attempt thread run timed action).transport.core? id = w.transport.core? id := by
  cases action with
  | send m =>
      have hkept := w.transport.core?_trySend run m id
      simp only [attempt]
      split
      · next heq => simpa [heq, turn, record] using hkept
      · rfl
  | receive =>
      have hkept := w.transport.core?_tryReceive run id
      simp only [attempt]
      split
      · next heq => simpa [heq, turn, record] using hkept
      · rfl

/-- So does one that waits at a queue. -/
theorem core?_poll (w : World σ) (thread run : Nat) (expired : Bool)
    (action : Queue.Action Message) (id : Nat) :
    (w.poll thread run expired action).transport.core? id = w.transport.core? id := by
  cases action with
  | send m =>
      have hkept :=
        w.transport.core?_pollSend run (.start (.send m) true (waker thread)) expired id
      simp only [poll]
      split <;> next heq => simpa [heq, turn, record] using hkept
  | receive =>
      have hkept :=
        w.transport.core?_pollReceive run (.start .receive true (waker thread)) expired id
      simp only [poll]
      split <;> next heq => simpa [heq, turn, record] using hkept

theorem worker?_advance {w : World σ} {id : Nat} {v : Worker}
    (h : w.transport.worker? id = some v) (now : Instant) (thread : Nat) (expired : Bool)
    (activity : Activity) :
    (w.advance now thread expired activity).transport.worker? id = some v := by
  cases activity with
  | idle => exact h
  | starting call | stopping call =>
      have hcall := Transport.worker?_rule (w.transport.stepCall_rule now (waker thread) call) h
      cases call with
      | finished => exact h
      | _ => exact hcall
  | trying run action timed =>
      rwa [Transport.worker?_eq_map_core?, advance, core?_attempt,
        ← Transport.worker?_eq_map_core?]
  | waiting run action =>
      rwa [Transport.worker?_eq_map_core?, advance, core?_poll, ← Transport.worker?_eq_map_core?]

/-- The arrivals at the inbound queue of a run in one move. -/
def arriving (w : World σ) (id : Nat) : Move σ → List Arrival
  | .work run _ => if run = id then (w.course? id).elim [] Course.arriving else []
  | _ => []

theorem arriving_of_none {w : World σ} {id : Nat} (hnone : w.course? id = none)
    (move : Move σ) : w.arriving id move = [] := by
  cases move with
  | work run now => simp [arriving, hnone]
  | drift | ask | go => rfl

variable [Connector σ]

/-- Only its own steps change a worker. -/
theorem worker?_step {w : World σ} {id : Nat} {v : Worker} {move : Move σ}
    (hmove : ∀ now, move ≠ .work id now) (h : w.transport.worker? id = some v) :
    (w.step move).transport.worker? id = some v := by
  cases move with
  | drift net => exact h
  | work j now =>
      have hj : j ≠ id := fun hj => hmove now (hj ▸ rfl)
      simp only [step, work]
      split
      · exact h
      · next run hrun =>
          simpa [record, Transport.stepWorker, hrun, Transport.worker?, Transport.updateRun,
            List.getElem?_modify, hj] using h
  | ask thread request =>
      simp only [step]
      split
      · rwa [Transport.worker?_eq_map_core?, core?_begin, ← Transport.worker?_eq_map_core?]
      · exact h
  | go thread now expired =>
      simp only [step]
      split
      · exact worker?_advance h now thread expired _
      · exact h

/-- The arrivals at the inbound queue of a run, in order. -/
def arrivals (id : Nat) (w : World σ) : List (Move σ) → List Arrival
  | [] => []
  | move :: moves => w.arriving id move ++ (w.step move).arrivals id moves

/-- What a step of its worker makes of a run. -/
theorem course?_work {w : World σ} {id : Nat} {c : Course} (hc : w.course? id = some c)
    (now : Instant) :
    ∃ worker shared h, c.worker.Rule now c.shared h worker shared ∧
      (w.work now id).course? id = some ⟨worker, shared, c.history ++ h⟩ := by
  obtain ⟨run, hrun, rfl⟩ := Option.map_eq_some_iff.mp hc
  refine ⟨_, _, _, run.worker.step_rule now run.shared w.net, ?_⟩
  simp only [work, hrun, Transport.stepWorker, Transport.updateRun, record]
  rw [course?_of_modify]
  simp [hrun]

theorem received_step {w : World σ} (hw : w.Sound) {id : Nat} {c : Course}
    (hc : w.course? id = some c) {arrivals : List Arrival} (hreceived : c.Received arrivals)
    (move : Move σ) :
    ∃ d, (w.step move).course? id = some d ∧ d.Received (arrivals ++ w.arriving id move) := by
  by_cases hmove : ∃ now, move = .work id now
  · obtain ⟨now, rfl⟩ := hmove
    obtain ⟨worker, shared, h, hrule, hd⟩ := course?_work hc now
    refine ⟨_, hd, ?_⟩
    simpa [arriving, hc] using Course.received_rule hrule hreceived
  · have hmove : ∀ now, move ≠ .work id now := fun now h => hmove ⟨now, h⟩
    have hnone : w.arriving id move = [] := by
      cases move with
      | work run now =>
          have hrun : run ≠ id := fun hrun => hmove now (hrun ▸ rfl)
          simp [arriving, hrun]
      | drift | ask | go => rfl
    have hstill := worker?_step hmove (worker?_of_course? hc)
    obtain ⟨d, hd, heq | hstep⟩ := (hc ▸ follows_rule hw (w.step_rule move) id).exists_of_some
    · exact ⟨d, hd, by simpa [hnone, heq] using hreceived⟩
    · have hsame : d.worker = c.worker :=
        Option.some.inj ((worker?_of_course? hd).symm.trans hstill)
      exact ⟨d, hd, by simpa [hnone] using Course.received_of_still hstep hsame hreceived⟩

/-- The arrivals account for all that a run has polled, whatever is done in its world. -/
theorem received_run {w : World σ} (hw : w.Sound) {id : Nat} {before : List Arrival}
    (hunborn : w.course? id = none → before = [])
    (hreceived : ∀ c, w.course? id = some c → c.Received before) (moves : List (Move σ))
    {d : Course} (hd : (w.run moves).course? id = some d) :
    d.Received (before ++ w.arrivals id moves) := by
  induction moves generalizing w before with
  | nil => simpa [arrivals] using hreceived d hd
  | cons move moves ih =>
      rw [arrivals, ← List.append_assoc]
      refine ih (sound_rule hw (w.step_rule move)) ?_ ?_ hd
      · intro hnone
        cases hc : w.course? id with
        | none => rw [hunborn hc, arriving_of_none hc, List.append_nil]
        | some c =>
            obtain ⟨e, he, -⟩ := received_step hw hc (hreceived c hc) move
            simp [hnone] at he
      · intro e he
        cases hc : w.course? id with
        | none =>
            rw [hunborn hc, arriving_of_none hc, List.append_nil]
            have hfollows := follows_rule hw (w.step_rule move) id
            rw [hc, he] at hfollows
            cases hfollows with
            | born uri config outbound inbound now =>
                exact Course.received_fresh uri config outbound inbound now
        | some c =>
            obtain ⟨e', he', hnext⟩ := received_step hw hc (hreceived c hc) move
            obtain rfl : e' = e := Option.some.inj (he'.symm.trans he)
            exact hnext

/-- Whatever threads, network and clock do, until a stop clears the inbound queue of a run, the
messages received and those that can be received are in order the data frames that arrived at the
queue and did not meet it full. The frames that arrived, met the queue full or not, and the one
that the worker is about to hand over are in order the data frames that it polled from its links.
Every frame polled and every frame that met the queue full is counted, the latest one perhaps in
one of the worker's next steps. -/
theorem inbound_in_order (config : LinkConfig) (outbound inbound threads : Nat) (net : σ)
    (moves : List (Move σ)) (id : Nat) (c : Course)
    (hc : ((fresh config outbound inbound threads net).run moves).course? id = some c)
    (hclear : .cleared .inbound ∉ c.history) :
    let arrivals := (fresh config outbound inbound threads net).arrivals id moves
    c.history.messages .received ++ c.shared.inbound.items =
        (arrivals.filter (!·.meetsFull)).map (·.frame) ∧
      arrivals.map (·.frame) ++ c.worker.incoming = c.history.polled ∧
      c.shared.status.stats.framesReceived + .ofNat (c.worker.owes .framesReceived) =
        .ofNat c.history.polled.length ∧
      c.shared.status.stats.inboundDropped + .ofNat (c.worker.owes .inboundDropped) =
        .ofNat (arrivals.countP (·.meetsFull)) ∧
      c.worker.incoming.length + c.worker.owes .inboundDropped ≤ 1 ∧
      c.worker.owes .framesReceived ≤ 1 ∧
      (c.worker.todo = [] → c.worker.incoming = [] ∧ c.worker.owes .framesReceived = 0 ∧
        c.worker.owes .inboundDropped = 0) := by
  intro arrivals
  have hreach := reachable_course config outbound inbound threads net moves hc
  have hreceived : c.Received ([] ++ arrivals) :=
    received_run (sound_fresh config outbound inbound threads net) (fun _ => rfl)
      (by simp [fresh, course?]) moves hc
  rw [List.nil_append] at hreceived
  refine ⟨?_, hreceived.polled_eq, hreceived.received_eq, hreceived.dropped_eq,
    hreceived.incoming_le, hreceived.owes_le, ?_⟩
  · rw [hreach.inbound_eq hclear, hreceived.delivered_eq, roomy]
  · intro htodo
    simp [Worker.incoming, Worker.owes, htodo]

/-- A link that brings three frames to a queue with room for one. -/
def crowd : World Network :=
  fresh .default 1 1 1
    { Network.silent with
      outcomes := [.ok ()]
      events := [.data (.ofOctets [1]), .data (.ofOctets [2]), .data (.ofOctets [3])] }

/-- The first frame is received after the second one has come to the queue. -/
def rush : List (Move Network) :=
  [.ask 0 (.start "ws://hub"), .go 0 0 false, .go 0 0 false, .go 0 0 false] ++
    .replicate 20 (.work 0 0) ++ [.ask 0 (.receive false), .go 0 0 false] ++
    .replicate 4 (.work 0 0)

/-- The second frame is missing, and the third one is there. -/
theorem order_of_rush :
    ∃ c : Course, (crowd.run rush).course? 0 = some c ∧ .cleared .inbound ∉ c.history ∧
      (crowd.arrivals 0 rush).map (·.meetsFull) = [false, true, false] ∧
      (c.history.messages .received).length = 1 ∧ c.shared.inbound.items.length = 1 ∧
      c.history.messages .received ++ c.shared.inbound.items =
        ((crowd.arrivals 0 rush).filter (!·.meetsFull)).map (·.frame) := by
  obtain ⟨c, hc⟩ : ∃ c, (crowd.run rush).course? 0 = some c := exists_course? (by decide +kernel)
  have hfacts : ((crowd.run rush).course? 0).map (fun c =>
      (decide (.cleared .inbound ∈ c.history), (c.history.messages .received).length,
        c.shared.inbound.items.length)) = some (false, 1, 1) := by
    decide +kernel
  have harrivals : (crowd.arrivals 0 rush).map (·.meetsFull) = [false, true, false] := by
    decide +kernel
  simp only [hc, Option.map_some, Option.some.injEq, Prod.mk.injEq,
    decide_eq_false_iff_not] at hfacts
  obtain ⟨hclear, hreceived, hqueued⟩ := hfacts
  exact ⟨c, hc, hclear, harrivals, hreceived, hqueued,
    (inbound_in_order _ _ _ _ _ rush _ c hc hclear).1⟩

end World

end Uplink
