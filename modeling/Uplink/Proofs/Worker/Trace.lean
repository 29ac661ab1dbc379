import Uplink.Transport

/-! # The history of a run

The calls that a worker makes to its connector and to its links, and the messages that pass
between a run and the outside, in the order in which they happen. -/

namespace Uplink

/-- A call to the connector or to a link, with its outcome. -/
inductive NetCall
  | connect (uri : String) (timeout : Nat) (outcome : Except ConnectError Unit)
  | send (frame : Octets) (timeout : Nat) (result : SendResult)
  | poll (event? : Option LinkEvent)
  | close

/-- Where a message passes. -/
inductive Passage
  /-- From a caller into the outbound queue. -/
  | accepted
  /-- From the worker, which took it out of the outbound queue, to its session. -/
  | transmitted
  /-- From the worker into the inbound queue. -/
  | delivered
  /-- From the inbound queue to a caller. -/
  | received
deriving DecidableEq

/-- One of the two queues of a run. -/
inductive Side
  | outbound
  | inbound
deriving DecidableEq

/-- Something that happens to a run. -/
inductive Happening
  /-- Its worker makes a call. -/
  | called (call : NetCall)
  /-- A message passes. -/
  | passed (passage : Passage) (m : Message)
  /-- A stop clears a queue. -/
  | cleared (side : Side)

namespace Happening

def call? : Happening → Option NetCall
  | .called call => some call
  | _ => none

def message? (passage : Passage) : Happening → Option Message
  | .passed p m => if p = passage then some m else none
  | _ => none

def isClear (side : Side) : Happening → Bool
  | .cleared s => s = side
  | _ => false

end Happening

/-- What happened to a run, first things first. -/
abbrev History := List Happening

namespace History

/-- The calls of the worker. -/
def calls (h : History) : List NetCall :=
  h.filterMap Happening.call?

/-- The messages that passed somewhere. -/
def messages (passage : Passage) (h : History) : List Message :=
  h.filterMap (Happening.message? passage)

@[simp] theorem calls_append (h k : History) : calls (h ++ k) = calls h ++ calls k :=
  List.filterMap_append

@[simp] theorem messages_append (passage : Passage) (h k : History) :
    messages passage (h ++ k) = messages passage h ++ messages passage k :=
  List.filterMap_append

@[simp] theorem calls_nil : calls [] = [] := rfl

@[simp] theorem calls_cons_called (call : NetCall) (h : History) :
    calls (.called call :: h) = call :: calls h := rfl

@[simp] theorem calls_cons_passed (passage : Passage) (m : Message) (h : History) :
    calls (.passed passage m :: h) = calls h := rfl

@[simp] theorem calls_cons_cleared (side : Side) (h : History) :
    calls (.cleared side :: h) = calls h := rfl

@[simp] theorem messages_nil (passage : Passage) : messages passage [] = [] := rfl

@[simp] theorem messages_cons_called (passage : Passage) (call : NetCall) (h : History) :
    messages passage (.called call :: h) = messages passage h := rfl

@[simp] theorem messages_cons_passed (passage p : Passage) (m : Message) (h : History) :
    messages passage (.passed p m :: h) =
      (if p = passage then [m] else []) ++ messages passage h := by
  by_cases hp : p = passage <;> simp [messages, Happening.message?, hp]

@[simp] theorem messages_cons_cleared (passage : Passage) (side : Side) (h : History) :
    messages passage (.cleared side :: h) = messages passage h := rfl

@[simp] theorem calls_called (calls : List NetCall) :
    History.calls (calls.map .called) = calls := by
  induction calls with
  | nil => rfl
  | cons call calls ih => simp [ih]

@[simp] theorem messages_called (passage : Passage) (calls : List NetCall) :
    messages passage (calls.map .called) = [] := by
  induction calls with
  | nil => rfl
  | cons call calls ih => simp [ih]

theorem any_isClear (side : Side) (h : History) :
    h.any (Happening.isClear side) = true ↔ .cleared side ∈ h := by
  rw [List.any_eq_true]
  constructor
  · rintro ⟨x, hx, hclear⟩
    cases x with
    | cleared s =>
        obtain rfl : s = side := by simpa [Happening.isClear] using hclear
        exact hx
    | called | passed => simp [Happening.isClear] at hclear
  · exact fun hmem => ⟨_, hmem, by simp [Happening.isClear]⟩

instance (side : Side) (h : History) : Decidable (.cleared side ∈ h) :=
  decidable_of_iff _ (any_isClear side h)

end History

/-! ## Recording the calls -/

/-- A network that keeps a record of the calls made to it, in order. -/
structure Recorded (σ : Type) where
  net : σ
  calls : List NetCall

namespace Recorded

variable {σ : Type} [Connector σ]

instance : Connector (Recorded σ) where
  send r frame timeout :=
    let (result, net) := Link.send r.net frame timeout
    (result, ⟨net, r.calls ++ [.send frame timeout result]⟩)
  poll r :=
    let (event?, net) := Link.poll r.net
    (event?, ⟨net, r.calls ++ [.poll event?]⟩)
  close r := ⟨Link.close r.net, r.calls ++ [.close]⟩
  connect r uri timeout :=
    let (outcome, net) := Connector.connect r.net uri timeout
    (outcome, ⟨net, r.calls ++ [.connect uri timeout outcome]⟩)

/-- A network with nothing on record. -/
def blank (net : σ) : Recorded σ :=
  ⟨net, []⟩

/-! Keeping a record changes nothing. -/

theorem close_net (r : Recorded σ) (s : Session) :
    ((s.close r).1, (s.close r).2.net) = s.close r.net := by
  cases h : s.isOpen <;> simp [Session.close, h, Link.close]

theorem send_net (r : Recorded σ) (s : Session) (frame : Octets) (timeout : Nat) :
    ((s.send r frame timeout).1, (s.send r frame timeout).2.net) =
      s.send r.net frame timeout := by
  cases h : s.isOpen <;> simp [Session.send, h, Link.send]

theorem note_net (r : Recorded σ) (s : Session) (event : LinkEvent) (now : Instant) :
    ((s.note r event now).1, (s.note r event now).2.net) = s.note r.net event now := by
  cases h : event.isTerminal <;> simp [Session.note, h, ← close_net]

theorem poll_net (r : Recorded σ) (s : Session) (now : Instant) :
    ((s.poll r now).1, (s.poll r now).2.1, (s.poll r now).2.2.net) = s.poll r.net now := by
  cases h : s.isOpen with
  | false => simp [Session.poll, h]
  | true =>
      cases he : Link.poll r.net with
      | mk event? net =>
          cases event? with
          | none => simp [Session.poll, h, Link.poll, he]
          | some event =>
              simp only [Session.poll, h, Link.poll, he]
              exact congrArg (some event, ·) (note_net ⟨net, _⟩ s event now)

theorem perform_net (r : Recorded σ) (w : Worker) (s : Shared) (effect : Effect) :
    let next := w.perform s r effect
    (next.1, next.2.1, next.2.2.net) = w.perform s r.net effect := by
  cases effect with
  | write x => rfl
  | deliver m => cases h : s.inbound.tryPush? m <;> simp [Worker.perform, h]
  | dropSession => cases h : w.session <;> simp [Worker.perform, h, ← close_net]

theorem settleConnect_net (r : Recorded σ) (w : Worker) (s : Shared)
    (result : Except ConnectError Session) :
    ((w.settleConnect s r result).1, (w.settleConnect s r result).2.net) =
      w.settleConnect s r.net result := by
  cases result <;> cases h : s.stop.isRequested <;>
    simp [Worker.settleConnect, h, ← close_net]

theorem pump_net (r : Recorded σ) (w : Worker) (now : Instant) (left : Nat) :
    ((w.pump r now left).1, (w.pump r now left).2.net) = w.pump r.net now left := by
  cases left with
  | zero => rfl
  | succ left =>
      cases hs : w.session with
      | none => simp [Worker.pump, hs]
      | some session =>
          simp only [Worker.pump, hs, ← poll_net]
          obtain ⟨event?, next, r⟩ : Option LinkEvent × Session × Recorded σ := session.poll r now
          cases event? <;> rfl

theorem transmit_net (r : Recorded σ) (w : Worker) (frame : Octets) (good bad : List Effect) :
    ((w.transmit r frame good bad).1, (w.transmit r frame good bad).2.net) =
      w.transmit r.net frame good bad := by
  cases hs : w.session with
  | none => simp [Worker.transmit, hs]
  | some session => simp [Worker.transmit, hs, ← send_net]

/-- A worker does the same whether a record is kept or not. -/
theorem step_net (r : Recorded σ) (w : Worker) (s : Shared) (now : Instant) :
    let next := w.step s r now
    (next.1, next.2.1, next.2.2.net) = w.step s r.net now := by
  cases htodo : w.todo with
  | cons effect todo => simpa only [Worker.step, htodo] using perform_net r { w with todo } s effect
  | nil =>
      simp only [Worker.step, htodo]
      cases hphase : w.phase with
      | choosing | judging | greeting | waiting | exited => simp [Worker.decide, hphase]
      | connecting => simp [Worker.decide, hphase, Session.establish, Connector.connect]
      | connected result => simp [Worker.decide, hphase, ← settleConnect_net]
      | pumping left => simp [Worker.decide, hphase, ← pump_net]
      | probing | transmitting => simp [Worker.decide, hphase, ← transmit_net]

end Recorded

/-- What else is seen of a worker's next step: a message that passes. -/
def Worker.marks (w : Worker) (shared : Shared) : History :=
  match w.todo, w.phase with
  | .deliver m :: _, _ => if shared.inbound.isFull then [] else [.passed .delivered m]
  | [], .transmitting m => if w.session.isSome then [.passed .transmitted m] else []
  | _, _ => []

end Uplink
