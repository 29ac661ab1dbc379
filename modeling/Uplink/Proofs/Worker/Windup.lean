import Mathlib.Algebra.Ring.Nat
import Uplink.Proofs.Worker.Attention
import Uplink.Proofs.Worker.Deeds
import Uplink.Proofs.Worker.Discipline

/-! # Winding up

What a worker still does once it was asked to end, wherever it stands at that moment: little, in a
few steps, and nothing after it has given notice. -/

namespace Uplink

/-! ## Calls that are left -/

/-- The calls of which only so many are left. -/
inductive CallKind
  | connect
  | poll
  | send
deriving DecidableEq

def NetCall.kind? : NetCall → Option CallKind
  | .connect _ _ _ => some .connect
  | .poll _ => some .poll
  | .send _ _ _ => some .send
  | .close => none

/-- How many calls are of a kind. -/
def NetCall.count (kind : CallKind) (calls : List NetCall) : Nat :=
  calls.countP fun call => call.kind? = some kind

@[simp] theorem NetCall.count_append (kind : CallKind) (calls more : List NetCall) :
    count kind (calls ++ more) = count kind calls + count kind more :=
  List.countP_append

@[simp] theorem NetCall.count_nil (kind : CallKind) : count kind [] = 0 := rfl

theorem NetCall.count_singleton (kind : CallKind) (call : NetCall) :
    count kind [call] = if call.kind? = some kind then 1 else 0 := by
  simp [count, List.countP_singleton]

@[simp] theorem NetCall.count_closing (kind : CallKind) (s : Session) :
    count kind s.closing = 0 := by
  by_cases hopen : s.isOpen <;> simp [Session.closing, hopen, count, kind?]

theorem NetCall.count_polling_le (kind : CallKind) (s : Session) (event? : Option LinkEvent) :
    count kind (s.polling event?) ≤ if kind = .poll then 1 else 0 := by
  by_cases hopen : s.isOpen <;>
    cases kind <;> simp [Session.polling, hopen, count, kind?]

theorem NetCall.count_sending_le (kind : CallKind) (s : Session) (frame : Octets) (timeout : Nat)
    (result : SendResult) :
    count kind (s.sending frame timeout result) ≤ if kind = .send then 1 else 0 := by
  by_cases hopen : s.isOpen <;>
    cases kind <;> simp [Session.sending, hopen, count, kind?]

/-- How many calls of a kind a worker may make in a phase and after it, if it begins no other
tick and no other connect. -/
def Phase.allowance : CallKind → Phase → Nat
  | .connect, .connecting => 1
  | .poll, .pumping left => left
  | .send, .pumping _ | .send, .judging | .send, .probing | .send, .waiting _ _ _ _
  | .send, .transmitting _ => 1
  | _, _ => 0

/-- The most steps that an effect takes: a frame that finds no room is counted in a step of its
own. -/
def Effect.cost : Effect → Nat
  | .deliver _ => 2
  | .write _ | .dropSession => 1

def Stage.cost : Stage → Nat
  | .requested => 7
  | .request => 8
  | .timer => 9
  | .outbound => 10
  | .asleep => 11

/-- The most steps from a phase to the end, once the worker was asked to end. -/
def Phase.cost : Phase → Nat
  | .exited => 0
  | .choosing => 6
  | .connected _ => 7
  | .connecting | .probing | .transmitting _ => 8
  | .waiting _ _ _ stage => stage.cost
  | .greeting _ => 10
  | .judging => 11
  | .pumping left => 12 + 5 * left

/-- Whether a write publishes that a session is established. -/
def Write.tellsConnected : Write → Bool
  | .state s | .connected s => s = .connected
  | _ => false

/-- The last writes of a worker. -/
def lastWrites : List Write :=
  Write.publish .stopped ++ [.exited, .exit]

namespace Worker

/-- What a worker is about to publish is true of it. -/
structure Candid (w : Worker) : Prop where
  connected : ∀ x, .write x ∈ w.todo → x.tellsConnected = true → w.phase = .choosing
  stopped : ∀ x ∈ lastWrites, .write x ∈ w.todo → w.phase = .exited

/-- The most steps that a worker makes until it is gone, once it was asked to end. -/
def stepsLeft (w : Worker) : Nat :=
  (w.todo.map Effect.cost).sum + w.phase.cost

section
variable {now : Instant} {w w' : Worker} {s s' : Shared} {h : History}

/-- A call uses up the allowance for it, and nothing adds to one. -/
theorem allowance_rule (hasked : s.stop.isRequested = true) (hrule : w.Rule now s h w' s')
    (kind : CallKind) :
    NetCall.count kind h.calls + w'.phase.allowance kind ≤ w.phase.allowance kind := by
  cases hrule with
  | write | deliver | overflow | hangUp | idleDrop => simp
  | connect outcome _ hphase =>
      cases kind <;> simp [hphase, Phase.allowance, NetCall.count_singleton, NetCall.kind?]
  | @quiet left session _ hphase =>
      have hle := NetCall.count_polling_le kind session none
      cases kind <;> simp_all [Phase.allowance]
      omega
  | event event htodo hphase =>
      cases kind <;> cases event.isTerminal <;>
        simp [hphase, Phase.allowance, NetCall.count, NetCall.kind?, Nat.add_comm]
  | @probe session result _ hphase =>
      have hle := NetCall.count_sending_le kind session heartbeatProbe.octets
        w.config.sendTimeout.toNat result
      cases kind <;> simp_all [Phase.allowance]
  | @transmit m session result _ hphase =>
      have hle := NetCall.count_sending_le kind session m.octets w.config.sendTimeout.toNat result
      cases kind <;> simp_all [Phase.allowance]
  | _ => cases kind <;> simp_all [Phase.allowance, greet]

theorem connected_rule (hw : w.Candid) (hrule : w.Rule now s h w' s') :
    ∀ x, .write x ∈ w'.todo → x.tellsConnected = true → w'.phase = .choosing := by
  have hc := hw.connected
  cases hrule with
  | write htodo | deliver htodo | hangUp htodo | idleDrop htodo => exact forall_write_tail hc htodo
  | overflow htodo => exact forall_write_cons nofun (forall_write_tail hc htodo)
  | greet => exact fun _ _ _ => rfl
  | event event =>
      cases event <;>
        simp [eventEffects, Effect.publish, Write.publish, LinkEvent.isActivity,
          Write.tellsConnected]
  | _ =>
      simp_all [farewell, Effect.publish, Write.publish, Write.tellsConnected]

theorem stopped_rule (hw : w.Candid) (hrule : w.Rule now s h w' s') :
    ∀ x, .write x ∈ w'.todo → x ∈ lastWrites → w'.phase = .exited := by
  have hs : ∀ x, .write x ∈ w.todo → x ∈ lastWrites → w.phase = .exited :=
    fun x hx hlast => hw.stopped x hlast hx
  cases hrule with
  | write htodo | deliver htodo | hangUp htodo | idleDrop htodo => exact forall_write_tail hs htodo
  | overflow htodo =>
      refine forall_write_cons ?_ (forall_write_tail hs htodo)
      simp [lastWrites, Write.publish]
  | event event =>
      cases event <;>
        simp [eventEffects, Effect.publish, Write.publish, LinkEvent.isActivity, lastWrites]
  | probe result =>
      simp only [probeEffects]
      split <;> simp [lastWrites, Write.publish]
  | quit => exact fun _ _ _ => rfl
  | gone _ hphase => exact fun _ _ _ => hphase
  | _ => simp_all [greet, Effect.publish, Write.publish, lastWrites]

theorem candid_rule (hw : w.Candid) (hrule : w.Rule now s h w' s') : w'.Candid where
  connected := connected_rule hw hrule
  stopped := fun x hlast hx => stopped_rule hw hrule x hx hlast

/-- What is left to do of a farewell. -/
def plan (w : Worker) : List Deed :=
  w.todo.flatMap fun
    | .write x => [.wrote x]
    | .dropSession => (w.session.elim [] Session.closing).map .called
    | .deliver _ => []

theorem eq_of_drop_suffix_farewell {todo : List Effect} (h : .dropSession :: todo <:+ farewell) :
    todo = lastWrites.map .write := by
  simpa [farewell, Effect.publish, Write.publish, List.suffix_cons_iff, lastWrites] using h

theorem not_deliver_suffix_farewell {m : Message} {todo : List Effect} :
    ¬ .deliver m :: todo <:+ farewell := by
  simp [farewell, Effect.publish, Write.publish, List.suffix_cons_iff]

/-- A worker that leaves does what it has planned. -/
theorem plan_rule (hw : w.Sound s.stop) (hphase : w.phase = .exited)
    (hrule : w.Rule now s h w' s') :
    w'.phase = .exited ∧ w.doing h.calls ++ w'.plan = w.plan := by
  cases hrule with
  | write htodo => exact ⟨hphase, by simp [doing, writing, plan, htodo]⟩
  | deliver htodo | overflow htodo =>
      exact absurd (htodo ▸ hw.leaving hphase) not_deliver_suffix_farewell
  | hangUp htodo hsession | idleDrop htodo hsession =>
      have hrest := eq_of_drop_suffix_farewell (htodo ▸ hw.leaving hphase)
      subst hrest
      exact ⟨hphase, by simp [doing, writing, plan, htodo, hsession, lastWrites, Write.publish]⟩
  | gone htodo => exact ⟨hphase, by simp [doing, writing, htodo]⟩
  | _ => simp_all

/-- Only a worker that was asked to end at the head of its loop begins to leave. -/
theorem quit_of_exited (hphase : w.phase ≠ .exited) (hrule : w.Rule now s h w' s')
    (hphase' : w'.phase = .exited) :
    w.phase = .choosing ∧ w.todo = [] ∧ h = [] ∧
      w' = { w with todo := farewell, phase := .exited } := by
  cases hrule with
  | quit htodo hchoosing => exact ⟨hchoosing, htodo, rfl, rfl⟩
  | _ => simp_all [greet]

end

end Worker

/-- The last deeds of a worker: it closes its link, if one is open, publishes that it is stopped,
and gives notice. -/
def lastDeeds (isOpen : Bool) : List Deed :=
  (if isOpen then [.called .close] else []) ++ lastWrites.map .wrote

/-- The deeds of a worker come to their end: the last ones come last, and none of its last writes
is made before. -/
def Concluded (deeds : List Deed) : Prop :=
  ∃ front isOpen, deeds = front ++ lastDeeds isOpen ∧ Disciplined (Deed.calls front) isOpen ∧
    ∀ x ∈ lastWrites, .wrote x ∉ front

namespace Course

/-- The deeds of a worker from the beginning of its run, with where it stands. -/
structure Told (c : Course) (deeds : List Deed) : Prop where
  calls_eq : Deed.calls deeds = c.history.calls
  candid : c.worker.Candid
  staying : c.worker.phase ≠ .exited → ∀ x ∈ lastWrites, .wrote x ∉ deeds
  leaving : c.worker.phase = .exited → Concluded (deeds ++ c.worker.plan)

theorem told_rule {c : Course} {now : Instant} {w : Worker} {s : Shared} {h : History}
    {deeds : List Deed} (hc : c.Reachable) (hrule : c.worker.Rule now c.shared h w s)
    (htold : c.Told deeds) : Told ⟨w, s, c.history ++ h⟩ (deeds ++ c.worker.doing h.calls) where
  calls_eq := by simp [htold.calls_eq]
  candid := Worker.candid_rule htold.candid hrule
  staying := by
    intro hphase x hlast hmem
    have hbefore : c.worker.phase ≠ .exited :=
      fun hexited => hphase (Worker.plan_rule hc.sound hexited hrule).1
    rcases List.mem_append.mp hmem with hmem | hmem
    · exact htold.staying hbefore x hlast hmem
    · have hwriting := Worker.mem_writing (Deed.mem_wrote.mp hmem)
      exact hbefore (htold.candid.stopped x hlast hwriting)
  leaving := by
    intro hphase
    rw [List.append_assoc]
    by_cases hbefore : c.worker.phase = .exited
    · rw [(Worker.plan_rule hc.sound hbefore hrule).2]
      exact htold.leaving hbefore
    · obtain ⟨hchoosing, htodo, rfl, rfl⟩ := Worker.quit_of_exited hbefore hrule hphase
      refine ⟨deeds, c.worker.holdsLink, ?_, ?_, htold.staying hbefore⟩
      · cases hsession : c.worker.session with
        | none =>
            simp [Worker.doing, Worker.writing, htodo, Worker.plan, hsession, Worker.holdsLink,
              Worker.sessions, hchoosing, Phase.offer?, Worker.farewell, Effect.publish,
              lastDeeds, lastWrites, Write.publish]
        | some session =>
            cases hopen : session.isOpen <;>
              simp [Worker.doing, Worker.writing, htodo, Worker.plan, hsession, hopen,
                Worker.holdsLink, Worker.sessions, hchoosing, Phase.offer?, Worker.farewell,
                Effect.publish, lastDeeds, lastWrites, Write.publish, Session.closing]
      · rw [htold.calls_eq]
        exact hc.disciplined

/-- Whatever happens to a run, its worker is as its deeds say. -/
theorem Runs.told {c d : Course} {deeds more : List Deed} {steps : Nat} (hc : c.Reachable)
    (htold : c.Told deeds) (h : c.Runs more steps d) : d.Told (deeds ++ more) := by
  induction h with
  | refl => simpa using htold
  | work hruns hrule ih =>
      rw [← List.append_assoc]
      exact told_rule (hruns.reachable hc) hrule ih
  | others hruns hstep hworker hcalls ih =>
      constructor
      · rw [hcalls]
        exact ih.calls_eq
      · rw [hworker]
        exact ih.candid
      · rw [hworker]
        exact ih.staying
      · rw [hworker]
        exact ih.leaving

/-! ## From the request on -/

section
variable {c d : Course} {deeds : List Deed} {steps : Nat}

theorem Runs.count_le (h : c.Runs deeds steps d) (hasked : c.shared.stop.isRequested = true)
    (kind : CallKind) :
    NetCall.count kind (Deed.calls deeds) + d.worker.phase.allowance kind ≤
      c.worker.phase.allowance kind := by
  induction h with
  | refl => simp [Deed.calls]
  | work hruns hrule ih =>
      have hstep := Worker.allowance_rule (hruns.isRequested hasked) hrule kind
      simp only [Deed.calls_append, Worker.calls_doing, NetCall.count_append]
      omega
  | others _ _ hworker _ ih => rwa [hworker]

/-- A worker that has no step left is gone. -/
theorem gone_of_stepsLeft {w : Worker} (h : w.stepsLeft = 0) : w.phase = .exited ∧ w.todo = [] := by
  obtain ⟨hsum, hcost⟩ := Nat.add_eq_zero_iff.mp h
  constructor
  · cases hphase : w.phase with
    | exited => rfl
    | waiting purpose bound alarm stage =>
        cases stage <;> simp [hphase, Phase.cost, Stage.cost] at hcost
    | _ => simp [hphase, Phase.cost] at hcost
  · cases htodo : w.todo with
    | nil => rfl
    | cons effect todo => cases effect <;> simp [htodo, Effect.cost] at hsum

/-- A worker that is gone stays as it is. -/
theorem Runs.gone (h : c.Runs deeds steps d) (hphase : c.worker.phase = .exited)
    (htodo : c.worker.todo = []) : d.worker = c.worker := by
  induction h with
  | refl => rfl
  | work _ hrule ih =>
      cases hrule with
      | gone => exact ih
      | _ => simp_all
  | others _ _ hworker _ ih => exact hworker.trans ih

end

end Course

/-! ## Every run -/

namespace World

variable {σ : Type} [Connector σ]

/-- A stop is requested while a worker is inside its first connect. -/
def overtaken : World Network :=
  fresh .default 16 16 1 { Network.silent with outcomes := [.ok ()] }

end World

end Uplink
