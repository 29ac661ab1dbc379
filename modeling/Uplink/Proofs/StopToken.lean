import Mathlib.Data.List.Basic
import Uplink.StopToken

/-! # Waiting for a stop request

One task waits for a stop request, time and again, while any number of others make one. A wait may
be dropped at any moment, and a task that sleeps may be polled again whatever it was woken by, so
that the wait may just as well be one of several things that the task waits for at once. Between
any two looks and writes anything else may happen. -/

namespace Uplink

theorem Signal.raise_fst (s : Signal) : s.raise.1 = .raised := by
  cases s <;> rfl

namespace StopToken

/-- How far somebody is who requests a stop. -/
inductive Asking
  /-- At the flag next. -/
  | flag
  /-- At the signal next. -/
  | signal
  | done
deriving DecidableEq

/-- Where a task stands with its wait. -/
inductive Waiting
  /-- It has not begun, was answered, or has dropped the wait. -/
  | absent
  | looking (next : Lookout)
  /-- It sleeps, with its waker left behind, and was woken since or was not. -/
  | parked (w : Waker) (roused : Bool)
deriving DecidableEq

namespace Waiting

/-- Some tasks are woken. -/
def hear (woken : List Waker) : Waiting → Waiting
  | .parked w roused => .parked w (roused || decide (w ∈ woken))
  | waiting => waiting

/-- How a task goes on after a look with a waker. -/
def after (w : Waker) : Sight → Waiting
  | .requested => .absent
  | .more next => .looking next
  | .nothing => .parked w false

end Waiting

/-- A token with those who use it. -/
structure Usage where
  token : StopToken
  requests : List Asking
  waiting : Waiting

/-- What may happen next. -/
inductive Step
  /-- Somebody is about to request a stop. -/
  | ask
  /-- A request makes its next write. -/
  | write (request : Nat)
  /-- The task begins to wait. -/
  | begin
  /-- The task makes its next look, with the waker of this poll. -/
  | look (w : Waker)
  /-- The task is polled again. It goes on where it was, at the signal. -/
  | again
  /-- The task drops its wait. -/
  | drop

namespace Usage

def fresh : Usage := ⟨.fresh, [], .absent⟩

def write (u : Usage) (request : Nat) : Asking → Usage
  | .flag => { u with token := u.token.storeRequested, requests := u.requests.set request .signal }
  | .signal =>
    let (token, woken) := u.token.raiseRequest
    ⟨token, u.requests.set request .done, u.waiting.hear woken⟩
  | .done => u

/-- Makes a step. A step that is not possible changes nothing. -/
def step (u : Usage) : Step → Usage
  | .ask => { u with requests := u.requests ++ [.flag] }
  | .write request => u.requests[request]?.elim u (u.write request)
  | .begin =>
    match u.waiting with
    | .absent => { u with waiting := .looking .flag }
    | _ => u
  | .look w =>
    match u.waiting with
    | .looking next =>
      let (sight, token, _) := u.token.lookForRequest w next
      { u with token, waiting := .after w sight }
    | _ => u
  | .again =>
    match u.waiting with
    | .parked _ _ => { u with waiting := .looking .signal }
    | _ => u
  | .drop => { u with waiting := .absent }

def run (u : Usage) (steps : List Step) : Usage :=
  steps.foldl step u

/-- What holds between two steps. -/
structure Heeded (u : Usage) : Prop where
  /-- Who raises the signal, or has raised it, has set the flag. -/
  flagged : ∀ asking ∈ u.requests, asking ≠ .flag → u.token.isRequested = true
  /-- A task that sleeps has left its waker with the signal, unless it was woken. -/
  left : ∀ w roused, u.waiting = .parked w roused →
    u.token.request = .awaited w ∨ u.token.request = .raised ∧ roused = true
  /-- Once a request is through, the task does not look at the signal in vain, nor sleep. -/
  raised : .done ∈ u.requests →
    u.token.request = .raised ∨ u.waiting = .absent ∨ u.waiting = .looking .flag

variable {u : Usage}

theorem heeded_fresh : fresh.Heeded where
  flagged := nofun
  left := nofun
  raised := nofun

theorem Heeded.ask (h : u.Heeded) : (u.step .ask).Heeded where
  flagged asking hmem hne := by
    rcases List.mem_append.mp hmem with hmem | hmem
    · exact h.flagged asking hmem hne
    · exact absurd (List.mem_singleton.mp hmem) hne
  left := h.left
  raised hdone := by
    rcases List.mem_append.mp hdone with hdone | hdone
    · exact h.raised hdone
    · cases List.mem_singleton.mp hdone

/-- The flag is set. -/
theorem Heeded.flag (h : u.Heeded) (request : Nat) : (u.write request .flag).Heeded where
  flagged _ _ _ := rfl
  left := h.left
  raised hdone := by
    rcases List.mem_or_eq_of_mem_set hdone with hdone | hdone
    · exact h.raised hdone
    · cases hdone

/-- The signal is raised, which wakes the task if it sleeps. -/
theorem Heeded.signal (h : u.Heeded) {request : Nat} (hrequest : .signal ∈ u.requests) :
    (u.write request .signal).Heeded where
  flagged _ _ _ := h.flagged .signal hrequest nofun
  left w roused hparked := by
    right
    cases hwaiting : u.waiting with
    | parked w' roused' =>
        simp only [write, hwaiting, Waiting.hear, Waiting.parked.injEq] at hparked
        obtain ⟨rfl, rfl⟩ := hparked
        rcases h.left w' roused' hwaiting with hleft | ⟨hraised, rfl⟩
        · simp [write, raiseRequest, Signal.raise, hleft]
        · simp [write, raiseRequest, Signal.raise_fst]
    | absent | looking => simp [write, hwaiting, Waiting.hear] at hparked
  raised _ := .inl (by simp [write, raiseRequest, Signal.raise_fst])

/-- Once a request is through, the signal is there for a task that is past the flag. -/
theorem Heeded.raised_of_past (h : u.Heeded) (hdone : .done ∈ u.requests)
    (habsent : u.waiting ≠ .absent) (hflag : u.waiting ≠ .looking .flag) :
    u.token.request = .raised := by
  rcases h.raised hdone with hraised | hwaiting | hwaiting
  · exact hraised
  · exact absurd hwaiting habsent
  · exact absurd hwaiting hflag

/-- The task looks at the flag: once a request is through, it is set. -/
theorem Heeded.lookAtFlag (h : u.Heeded) (hwaiting : u.waiting = .looking .flag) (w : Waker) :
    (u.step (.look w)).Heeded := by
  have hstep : u.step (.look w) =
      { u with waiting := if u.token.isRequested then .absent else .looking .signal } := by
    cases hasked : u.token.isRequested <;>
      simp [step, hwaiting, lookForRequest, hasked, Waiting.after]
  rw [hstep]
  constructor
  · exact h.flagged
  · intro v roused hparked
    cases hasked : u.token.isRequested <;> simp [hasked] at hparked
  · intro hdone
    have hasked := h.flagged .done hdone nofun
    simp [hasked]

/-- The task looks at the signal: once a request is through, it is there. -/
theorem Heeded.lookAtSignal (h : u.Heeded) (hwaiting : u.waiting = .looking .signal) (w : Waker) :
    (u.step (.look w)).Heeded := by
  cases hsignal : u.token.request with
  | raised =>
      have hstep : u.step (.look w) =
          { u with token := { u.token with request := .idle }, waiting := .looking .flag } := by
        simp [step, hwaiting, lookForRequest, pollRequest, Signal.poll, hsignal, Waiting.after]
      rw [hstep]
      exact ⟨h.flagged, nofun, fun _ => .inr (.inr rfl)⟩
  | idle | awaited =>
      have hstep : u.step (.look w) =
          { u with
            token := { u.token with request := .awaited w }
            waiting := .parked w false } := by
        simp [step, hwaiting, lookForRequest, pollRequest, Signal.poll, hsignal, Waiting.after]
      rw [hstep]
      constructor
      · exact h.flagged
      · intro v roused hparked
        cases hparked
        exact .inl rfl
      · intro hdone
        have hraised := h.raised_of_past hdone (by simp [hwaiting]) (by simp [hwaiting])
        cases hsignal.symm.trans hraised

/-- A task that sleeps is polled again: once a request is through, the signal is there. -/
theorem Heeded.again (h : u.Heeded) {w : Waker} {roused : Bool}
    (hwaiting : u.waiting = .parked w roused) :
    Heeded { u with waiting := .looking .signal } where
  flagged := h.flagged
  left := nofun
  raised hdone := .inl (h.raised_of_past hdone (by simp [hwaiting]) (by simp [hwaiting]))

theorem heeded_step (h : u.Heeded) (step : Step) : (u.step step).Heeded := by
  cases step with
  | ask => exact h.ask
  | write request =>
      rw [Usage.step]
      cases hrequest : u.requests[request]? with
      | none => exact h
      | some asking =>
          cases asking with
          | flag => exact h.flag request
          | signal => exact h.signal (List.mem_of_getElem? hrequest)
          | done => exact h
  | begin =>
      rw [Usage.step]
      split
      · exact ⟨h.flagged, nofun, fun _ => .inr (.inr rfl)⟩
      · exact h
  | look w =>
      cases hwaiting : u.waiting with
      | looking next =>
          cases next with
          | flag => exact h.lookAtFlag hwaiting w
          | signal => exact h.lookAtSignal hwaiting w
      | absent | parked => simpa [Usage.step, hwaiting] using h
  | again =>
      rw [Usage.step]
      split
      · next hwaiting => exact h.again hwaiting
      · exact h
  | drop => exact ⟨h.flagged, nofun, fun _ => .inr (.inl rfl)⟩

theorem heeded_run (h : u.Heeded) (steps : List Step) : (u.run steps).Heeded := by
  induction steps generalizing u with
  | nil => exact h
  | cons step steps ih => exact ih (heeded_step h step)

/-- When a request is through, a task that sleeps has been woken. -/
theorem Heeded.roused (h : u.Heeded) (hdone : .done ∈ u.requests) {w : Waker} {roused : Bool}
    (hwaiting : u.waiting = .parked w roused) : roused = true := by
  have hraised := h.raised_of_past hdone (by simp [hwaiting]) (by simp [hwaiting])
  rcases h.left w roused hwaiting with hleft | ⟨-, hroused⟩
  · cases hraised.symm.trans hleft
  · exact hroused

end Usage

end StopToken

end Uplink
