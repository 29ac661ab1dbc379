import Uplink.Proofs.Transport.World

/-! # The rules of starts and stops, and of everything around a transport

One rule for each thing that may happen next. -/

namespace Uplink

namespace Transport

/-- A start or a stop makes its next step at the moment `now`. -/
inductive Rule (now : Instant) (caller : Waker) (t : Transport) :
    Procedure → Transport → Procedure → Prop
  | nothingLeft {uri} (hdetached : t.detached = none) :
      Rule now caller t (.reap uri) t (.launch uri)
  | reap {uri id} (hdetached : t.detached = some id) :
      Rule now caller t (.reap uri) { t with detached := none }
        (.await id none .flag (.launch uri) (.detach id (.finished (.error .busy))))
  | refuse {uri id} (hrunning : t.running = some id) :
      Rule now caller t (.launch uri) t (.finished (.error .alreadyStarted))
  | launch {uri} (hrunning : t.running = none) :
      Rule now caller t (.launch uri) (t.launch uri now) (.finished (.ok ()))
  | nothingRuns (hrunning : t.running = none) : Rule now caller t .take t (.finished (.ok ()))
  | take {id} (hrunning : t.running = some id) :
      Rule now caller t .take { t with running := none } (.stopRun id)
  | written {id next} : Rule now caller t (.write id [] next) t next
  | write {id x xs next} :
      Rule now caller t (.write id (x :: xs) next) (t.updateShared id (·.write x))
        (.write id xs next)
  | lost {id alarm stage exited late} (hrun : t.runs[id]? = none) :
      Rule now caller t (.await id alarm stage exited late) t late
  | flagged {id run alarm exited late} (hrun : t.runs[id]? = some run)
      (hexited : run.shared.stop.hasExited = true) :
      Rule now caller t (.await id alarm .flag exited late) t exited
  | unflagged {id run alarm exited late} (hrun : t.runs[id]? = some run)
      (hexited : run.shared.stop.hasExited = false) :
      Rule now caller t (.await id alarm .flag exited late) t
        (.await id alarm .signal exited late)
  | signalled {id run alarm exited late} (hrun : t.runs[id]? = some run)
      (hexit : run.shared.stop.exit = .raised) :
      Rule now caller t (.await id alarm .signal exited late)
        (t.updateShared id fun shared =>
          { shared with stop := (run.shared.stop.pollExit caller).2.1 })
        exited
  | unsignalled {id run alarm exited late} (hrun : t.runs[id]? = some run)
      (hexit : run.shared.stop.exit ≠ .raised) :
      Rule now caller t (.await id alarm .signal exited late)
        (t.updateShared id fun shared =>
          { shared with stop := (run.shared.stop.pollExit caller).2.1 })
        (.await id alarm .timer exited late)
  | expire {id run alarm exited late} (hrun : t.runs[id]? = some run)
      (hdue : alarm.getD (now + t.grace) ≤ now) :
      Rule now caller t (.await id alarm .timer exited late) t late
  | arm {id run alarm exited late} (hrun : t.runs[id]? = some run)
      (hdue : now < alarm.getD (now + t.grace)) :
      Rule now caller t (.await id alarm .timer exited late) t
        (.await id (some (alarm.getD (now + t.grace))) .asleep exited late)
  | wake {id run alarm exited late} (hrun : t.runs[id]? = some run) :
      Rule now caller t (.await id alarm .asleep exited late) t
        (.await id alarm .signal exited late)
  | detach {id next} : Rule now caller t (.detach id next) { t with detached := some id } next
  | over {result} : Rule now caller t (.finished result) t (.finished result)

/-- Every step of a start or a stop follows a rule. -/
theorem stepCall_rule (now : Instant) (caller : Waker) (t : Transport) (call : Procedure) :
    Rule now caller t call (t.stepCall now caller call).1 (t.stepCall now caller call).2 := by
  cases call with
  | reap uri =>
      cases hdetached : t.detached with
      | none => simpa [stepCall, hdetached] using Rule.nothingLeft hdetached
      | some id =>
          simpa [stepCall, hdetached, Procedure.awaitExit] using Rule.reap hdetached
  | launch uri =>
      cases hrunning : t.running with
      | none => simpa [stepCall, hrunning] using Rule.launch hrunning
      | some id => simpa [stepCall, hrunning] using Rule.refuse hrunning
  | take =>
      cases hrunning : t.running with
      | none => simpa [stepCall, hrunning] using Rule.nothingRuns hrunning
      | some id => simpa [stepCall, hrunning] using Rule.take hrunning
  | write id xs next =>
      cases xs with
      | nil => exact .written
      | cons x xs => exact .write
  | await id alarm stage exited late =>
      cases hrun : t.runs[id]? with
      | none => simpa [stepCall, hrun] using Rule.lost hrun
      | some run =>
          simp only [stepCall, hrun]
          cases stage with
          | flag =>
              cases hexited : run.shared.stop.hasExited with
              | true => simpa [lookForExit, hexited] using Rule.flagged hrun hexited
              | false => simpa [lookForExit, hexited] using Rule.unflagged hrun hexited
          | signal =>
              by_cases hexit : run.shared.stop.exit = .raised
              · have hseen : (run.shared.stop.pollExit caller).1 = true := by
                  simp [StopToken.pollExit, Signal.poll, hexit]
                simpa [lookForExit, hseen] using Rule.signalled hrun hexit
              · have hseen : (run.shared.stop.pollExit caller).1 = false := by
                  cases h : run.shared.stop.exit <;> simp_all [StopToken.pollExit, Signal.poll]
                simpa [lookForExit, hseen] using Rule.unsignalled hrun hexit
          | timer =>
              by_cases hdue : alarm.getD (now + t.grace) ≤ now
              · simpa [lookForExit, hdue] using Rule.expire hrun hdue
              · simpa [lookForExit, hdue] using Rule.arm hrun (Nat.lt_of_not_le hdue)
          | asleep => exact .wake hrun
  | detach id next => exact .detach
  | finished result => exact .over

end Transport

/-- What a thread wants from the queues of a run. -/
def Activity.aim? : Activity → Option (Nat × Queue.Action Message)
  | .trying run action _ | .waiting run action => some (run, action)
  | .idle | .starting _ | .stopping _ => none

/-- The start or the stop that a thread is in. -/
def Activity.call? : Activity → Option Transport.Procedure
  | .starting call | .stopping call => some call
  | .idle | .trying _ _ _ | .waiting _ _ => none

namespace World

variable {σ : Type}

/-- What may happen next in a world. -/
inductive Rule (w : World σ) : World σ → Prop
  | rest : Rule w w
  | drift (net) : Rule w { w with net }
  | work {now id run worker shared h} (net) (hrun : w.transport.runs[id]? = some run)
      (hrule : run.worker.Rule now run.shared h worker shared) :
      Rule w
        ({ w with transport := w.transport.updateRun id fun _ => ⟨worker, shared⟩, net }.record
          id h)
  | beginStart {thread uri} (hthread : w.threads[thread]? = some .idle) :
      Rule w (w.turn thread (.starting (.reap uri)))
  | beginStop {thread} (hthread : w.threads[thread]? = some .idle) :
      Rule w (w.turn thread (.stopping .take))
  | beginTry {thread id action timed} (hthread : w.threads[thread]? = some .idle)
      (hrunning : w.transport.running = some id) :
      Rule w (w.turn thread (.trying id action timed))
  | finish {thread activity result} (hthread : w.threads[thread]? = some activity)
      (hcall : activity.call? = some (.finished result)) : Rule w (w.turn thread .idle)
  | start {now thread call transport next}
      (hthread : w.threads[thread]? = some (.starting call))
      (hrule : w.transport.Rule now (waker thread) call transport next) :
      Rule w
        { w.turn thread (.starting next) with transport, log := w.log ++ call.marks }
  | stop {now thread call transport next}
      (hthread : w.threads[thread]? = some (.stopping call))
      (hrule : w.transport.Rule now (waker thread) call transport next) :
      Rule w
        { w.turn thread (.stopping next) with transport, log := w.log ++ call.marks }
  | push {thread activity id m run outbound woken}
      (hthread : w.threads[thread]? = some activity) (haim : activity.aim? = some (id, .send m))
      (hrun : w.transport.runs[id]? = some run)
      (hpush : run.shared.outbound.tryPush? m = some (outbound, woken)) :
      Rule w
        (((w.updateShared id fun shared => { shared with outbound }).turn thread .idle).record id
          [.passed .accepted m])
  | pop {thread activity id m run inbound woken}
      (hthread : w.threads[thread]? = some activity) (haim : activity.aim? = some (id, .receive))
      (hrun : w.transport.runs[id]? = some run)
      (hpop : run.shared.inbound.tryPop? = some (m, inbound, woken)) :
      Rule w
        (((w.updateShared id fun shared => { shared with inbound }).turn thread .idle).record id
          [.passed .received m])
  | giveUp {thread activity} (hthread : w.threads[thread]? = some activity)
      (hcall : activity.call? = none) : Rule w (w.turn thread .idle)
  | await {thread id action timed}
      (hthread : w.threads[thread]? = some (.trying id action timed)) :
      Rule w (w.turn thread (.waiting id action))
  | parkSender {thread id run next} (hthread : w.threads[thread]? = some (.waiting id action))
      (hrun : w.transport.runs[id]? = some run) (hnext : next = .idle ∨ next = .waiting id action) :
      Rule w
        ((w.updateShared id fun shared =>
          { shared with outbound := (run.shared.outbound.parkSender (waker thread)).1 }).turn thread
            next)
  | parkReceiver {thread id run next} (hthread : w.threads[thread]? = some (.waiting id action))
      (hrun : w.transport.runs[id]? = some run) (hnext : next = .idle ∨ next = .waiting id action) :
      Rule w
        ((w.updateShared id fun shared =>
          { shared with inbound := (run.shared.inbound.parkReceiver (waker thread)).1 }).turn thread
            next)

/-! ## Every move follows a rule -/

theorem begin_rule (w : World σ) (thread : Nat) (request : Request)
    (hthread : w.threads[thread]? = some .idle) : Rule w (w.begin thread request) := by
  cases request with
  | start uri => exact .beginStart hthread
  | stop => exact .beginStop hthread
  | send m timed =>
      cases hrunning : w.transport.running with
      | none => simpa [begin, hrunning] using Rule.rest
      | some id => simpa [begin, hrunning] using Rule.beginTry hthread hrunning
  | receive timed =>
      cases hrunning : w.transport.running with
      | none => simpa [begin, hrunning] using Rule.rest
      | some id => simpa [begin, hrunning] using Rule.beginTry hthread hrunning

theorem attempt_rule (w : World σ) (thread id : Nat) (action : Queue.Action Message) (timed : Bool)
    (hthread : w.threads[thread]? = some (.trying id action timed)) :
    Rule w (w.attempt thread id timed action) := by
  have hfail : Rule w (w.turn thread (if timed then .waiting id action else .idle)) := by
    cases timed with
    | true => exact .await hthread
    | false => exact .giveUp hthread rfl
  cases action with
  | send m =>
      cases hrun : w.transport.runs[id]? with
      | none => simpa [attempt, Transport.trySend, hrun] using hfail
      | some run =>
          cases hpush : run.shared.outbound.tryPush? m with
          | none => simpa [attempt, Transport.trySend, hrun, hpush] using hfail
          | some pair =>
              simpa [attempt, Transport.trySend, hrun, hpush, updateShared] using
                Rule.push hthread rfl hrun hpush
  | receive =>
      cases hrun : w.transport.runs[id]? with
      | none => simpa [attempt, Transport.tryReceive, hrun] using hfail
      | some run =>
          cases hpop : run.shared.inbound.tryPop? with
          | none => simpa [attempt, Transport.tryReceive, hrun, hpop] using hfail
          | some triple =>
              simpa [attempt, Transport.tryReceive, hrun, hpop, updateShared] using
                Rule.pop hthread rfl hrun hpop

theorem poll_rule (w : World σ) (thread id : Nat) (expired : Bool) (action : Queue.Action Message)
    (hthread : w.threads[thread]? = some (.waiting id action)) :
    Rule w (w.poll thread id expired action) := by
  cases action with
  | send m =>
      cases hrun : w.transport.runs[id]? with
      | none => simpa [poll, Transport.pollSend, hrun] using Rule.giveUp hthread rfl
      | some run =>
          cases hpush : run.shared.outbound.tryPush? m with
          | none =>
              have hpark (next : Activity) (hnext : next = .idle ∨ next = .waiting id (.send m)) :
                  Rule w _ := .parkSender hthread hrun hnext
              cases expired with
              | true =>
                  simpa [poll, Transport.pollSend, hrun, Queue.Pending.poll, Queue.Pending.start,
                    hpush, Queue.Pending.wait, updateShared] using hpark _ (.inl rfl)
              | false =>
                  simpa [poll, Transport.pollSend, hrun, Queue.Pending.poll, Queue.Pending.start,
                    hpush, Queue.Pending.wait, updateShared] using hpark _ (.inr rfl)
          | some pair =>
              simpa [poll, Transport.pollSend, hrun, Queue.Pending.poll, Queue.Pending.start,
                hpush, updateShared] using Rule.push hthread rfl hrun hpush
  | receive =>
      cases hrun : w.transport.runs[id]? with
      | none => simpa [poll, Transport.pollReceive, hrun] using Rule.giveUp hthread rfl
      | some run =>
          cases hpop : run.shared.inbound.tryPop? with
          | none =>
              have hpark (next : Activity) (hnext : next = .idle ∨ next = .waiting id .receive) :
                  Rule w _ := .parkReceiver hthread hrun hnext
              cases expired with
              | true =>
                  simpa [poll, Transport.pollReceive, hrun, Queue.Pending.poll, Queue.Pending.start,
                    hpop, Queue.Pending.wait, updateShared] using hpark _ (.inl rfl)
              | false =>
                  simpa [poll, Transport.pollReceive, hrun, Queue.Pending.poll, Queue.Pending.start,
                    hpop, Queue.Pending.wait, updateShared] using hpark _ (.inr rfl)
          | some triple =>
              simpa [poll, Transport.pollReceive, hrun, Queue.Pending.poll, Queue.Pending.start,
                hpop, updateShared] using Rule.pop hthread rfl hrun hpop

theorem advance_rule (w : World σ) (now : Instant) (thread : Nat) (expired : Bool)
    (activity : Activity) (hthread : w.threads[thread]? = some activity) :
    Rule w (w.advance now thread expired activity) := by
  cases activity with
  | idle => exact .giveUp hthread rfl
  | starting call =>
      have hstart := Rule.start hthread (w.transport.stepCall_rule now (waker thread) call)
      cases call with
      | finished result => exact .finish hthread rfl
      | _ => exact hstart
  | stopping call =>
      have hstop := Rule.stop hthread (w.transport.stepCall_rule now (waker thread) call)
      cases call with
      | finished result => exact .finish hthread rfl
      | _ => exact hstop
  | trying id action timed => exact attempt_rule w thread id action timed hthread
  | waiting id action => exact poll_rule w thread id expired action hthread

variable [Connector σ]

theorem work_rule (w : World σ) (now : Instant) (id : Nat) : Rule w (w.work now id) := by
  cases hrun : w.transport.runs[id]? with
  | none => simpa [work, hrun] using Rule.rest
  | some run =>
      have hrule := run.worker.step_rule now run.shared w.net
      simpa [work, Transport.stepWorker, hrun] using Rule.work _ hrun hrule

/-- Every move follows a rule, whatever the network answers. -/
theorem step_rule (w : World σ) (move : Move σ) : Rule w (w.step move) := by
  cases move with
  | drift net => exact .drift net
  | work id now => exact work_rule w now id
  | ask thread request =>
      cases hthread : w.threads[thread]? with
      | none => simpa [step, hthread] using Rule.rest
      | some activity =>
          cases activity with
          | idle => simpa [step, hthread] using begin_rule w thread request hthread
          | _ => simpa [step, hthread] using Rule.rest
  | go thread now expired =>
      cases hthread : w.threads[thread]? with
      | none => simpa [step, hthread] using Rule.rest
      | some activity =>
          simpa [step, hthread] using advance_rule w now thread expired activity hthread

end World

end Uplink
