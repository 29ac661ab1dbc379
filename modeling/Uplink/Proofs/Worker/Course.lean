import Uplink.Proofs.Worker.Semantics

/-! # The course of a run

A run as it goes on from one atomic step to the next. The worker follows its rules; between two of
its steps anybody may use the queues, and a start or a stop may write to the block or look for the
exit. -/

namespace Uplink

namespace Write

/-- Whether a start or a stop may make the write. Counts, signs of life and the notice of the exit
are the worker's. -/
def isCallers : Write → Bool
  | .state _ | .connected _ | .requested | .request | .clearOutbound | .clearInbound => true
  | .count _ | .touch _ | .exited | .exit => false

/-- What is seen of a write from outside. -/
def marks : Write → History
  | .clearOutbound => [.cleared .outbound]
  | .clearInbound => [.cleared .inbound]
  | _ => []

@[simp] theorem calls_marks (x : Write) : x.marks.calls = [] := by
  cases x <;> rfl

@[simp] theorem messages_marks (passage : Passage) (x : Write) :
    x.marks.messages passage = [] := by
  cases x <;> rfl

end Write

/-- A run with its history. -/
structure Course where
  worker : Worker
  shared : Shared
  history : History

namespace Course

/-- A run that was started just now. -/
def fresh (uri : String) (config : LinkConfig) (outbound inbound : Nat) (now : Instant) : Course :=
  ⟨.fresh uri config now, .fresh outbound inbound now, []⟩

/-- One atomic step, of the worker or of somebody else. -/
inductive Evolves (c : Course) : Course → Prop
  | work {now w s h} (hrule : c.worker.Rule now c.shared h w s) : Evolves c ⟨w, s, c.history ++ h⟩
  | push {m outbound woken} (hpush : c.shared.outbound.tryPush? m = some (outbound, woken)) :
      Evolves c
        { c with
          shared := { c.shared with outbound }
          history := c.history ++ [.passed .accepted m] }
  | parkSender (waker : Waker) :
      Evolves c
        { c with
          shared := { c.shared with outbound := (c.shared.outbound.parkSender waker).1 } }
  | pop {m inbound woken} (hpop : c.shared.inbound.tryPop? = some (m, inbound, woken)) :
      Evolves c
        { c with
          shared := { c.shared with inbound }
          history := c.history ++ [.passed .received m] }
  | parkReceiver (waker : Waker) :
      Evolves c
        { c with
          shared := { c.shared with inbound := (c.shared.inbound.parkReceiver waker).1 } }
  | write {x : Write} (hx : x.isCallers = true) :
      Evolves c { c with shared := c.shared.write x, history := c.history ++ x.marks }
  | listen (waker : Waker) :
      Evolves c { c with shared := { c.shared with stop := (c.shared.stop.pollExit waker).2.1 } }

/-- What may become of a run. -/
inductive Reachable : Course → Prop
  | fresh (uri config outbound inbound now) : Reachable (.fresh uri config outbound inbound now)
  | next {c d} : Reachable c → Evolves c d → Reachable d

end Course

end Uplink
