import Uplink.Proofs.StopToken
import Uplink.Proofs.Transport.Invariant

/-! # The worker and the signal of a request

A worker that waits looks at the flag of a stop request when the wait begins, and from then on at
the signal alone. It leaves its waker there before it sleeps, and once a request is through, the
signal is there for it. -/

namespace Uplink

/-- Whether a worker waits and has looked at the flag already. Only the signal still tells it of a
stop request. -/
def Phase.isPastFlag : Phase → Bool
  | .waiting _ _ _ .request | .waiting _ _ _ .asleep => true
  | .waiting _ _ alarm .outbound | .waiting _ _ alarm .timer => alarm.isSome
  | _ => false

theorem Shared.request_write (s : Shared) (x : Write) (h : s.stop.request = .raised) :
    (s.write x).stop.request = .raised := by
  cases x with
  | request => exact Signal.raise_fst _
  | _ => exact h

namespace Course

/-! ## Asleep -/

/-- The signal of a stop request is there, or the waker of the worker is. -/
def Listens (s : Shared) : Prop :=
  s.stop.request = .awaited Worker.waker ∨ s.stop.request = .raised

theorem listens_write {s : Shared} (hs : Listens s) (x : Write) : Listens (s.write x) := by
  cases x with
  | request =>
      right
      rcases hs with hs | hs <;> simp [Shared.write, StopToken.raiseRequest, Signal.raise, hs]
  | _ => exact hs

theorem listens_rule {now : Instant} {w w' : Worker} {s s' : Shared} {h : History}
    (hw : ∀ purpose bound alarm, w.phase = .waiting purpose bound alarm .asleep → Listens s)
    (hrule : w.Rule now s h w' s') {purpose : Purpose} {bound : Nat} {alarm : Option Instant}
    (hphase : w'.phase = .waiting purpose bound alarm .asleep) : Listens s' := by
  cases hrule with
  | write => exact listens_write (hw _ _ _ hphase) _
  | deliver | overflow | hangUp | idleDrop | gone => exact hw _ _ _ hphase
  | listen =>
      left
      cases hrequest : s.stop.request <;>
        simp_all [StopToken.pollRequest, Signal.poll]
  | @wake p => cases p <;> simp [Purpose.firstStage] at hphase
  | _ => simp_all [Worker.greet]

/-- A worker that sleeps has left its waker with the signal of a stop request, or the signal was
raised since, and the worker woken. -/
theorem Reachable.listens {c : Course} (hc : c.Reachable) :
    ∀ purpose bound alarm, c.worker.phase = .waiting purpose bound alarm .asleep →
      Listens c.shared := by
  induction hc with
  | fresh => simp [Course.fresh, Worker.fresh]
  | next _ hstep ih =>
      intro purpose bound alarm hphase
      cases hstep with
      | work hrule => exact listens_rule ih hrule hphase
      | write => exact listens_write (ih _ _ _ hphase) _
      | push | parkSender | pop | parkReceiver | listen => exact ih _ _ _ hphase

/-! ## Once a request is through -/

/-- A stop request was made, and the worker will not look at the signal of it in vain. -/
structure Attentive (c : Course) : Prop where
  flagged : c.shared.stop.isRequested = true
  raised : c.worker.phase.isPastFlag = true → c.shared.stop.request = .raised

theorem raised_rule {now : Instant} {w w' : Worker} {s s' : Shared} {h : History}
    (hasked : s.stop.isRequested = true)
    (hw : w.phase.isPastFlag = true → s.stop.request = .raised) (hrule : w.Rule now s h w' s')
    (hpast : w'.phase.isPastFlag = true) : s'.stop.request = .raised := by
  cases hrule with
  | write => exact Shared.request_write _ _ (hw hpast)
  | deliver | overflow | hangUp | idleDrop | gone => exact hw hpast
  | listen _ hphase =>
      -- The signal is there, so the worker does not fall asleep over it.
      have hsignal := hw (by rw [hphase]; rfl)
      have hseen : (s.stop.pollRequest Worker.waker).1 = true := by
        simp [StopToken.pollRequest, Signal.poll, hsignal]
      simp [hseen, Phase.isPastFlag] at hpast
  | @arm _ _ alarm _ hphase =>
      cases alarm with
      | none => simp [Stage.afterTimer, Phase.isPastFlag] at hpast
      | some due => exact hw (by rw [hphase]; rfl)
  | park _ hphase => exact hw (by rw [hphase]; exact hpast)
  | wake _ hphase => exact hw (by rw [hphase]; rfl)
  | unasked _ _ hnot => simp [hasked] at hnot
  | _ => simp_all [Worker.greet, Phase.isPastFlag]

theorem attentive_work {c : Course} {now : Instant} {w : Worker} {s : Shared} {h : History}
    (hc : c.Attentive) (hrule : c.worker.Rule now c.shared h w s) :
    Attentive ⟨w, s, c.history ++ h⟩ where
  flagged := Evolves.isRequested (.work hrule) hc.flagged
  raised := raised_rule hc.flagged hc.raised hrule

theorem attentive_evolves {c d : Course} (hc : c.Attentive) (h : c.Evolves d) : d.Attentive := by
  cases h with
  | work hrule => exact attentive_work hc hrule
  | push | parkSender | pop | parkReceiver | listen => exact ⟨hc.flagged, hc.raised⟩
  | write hx =>
      refine ⟨Evolves.isRequested (.write hx) hc.flagged, fun hpast => ?_⟩
      exact Shared.request_write _ _ (hc.raised hpast)

end Course

end Uplink
