import Uplink.Proofs.Worker.Schedule
import Uplink.Proofs.Worker.Strides

/-! # The landmarks of a worker

What a stride comes to, read off its calls and off the worker before and after it. -/

namespace Uplink

def NetCall.isConnect : NetCall → Bool
  | .connect _ _ _ => true
  | .send _ _ _ | .poll _ | .close => false

/-- How a connect has returned. -/
def NetCall.outcome? : NetCall → Option (Except ConnectError Unit)
  | .connect _ _ outcome => some outcome
  | .send _ _ _ | .poll _ | .close => none

def Landmark.outcome? : Landmark → Option (Except ConnectError Unit)
  | .returned outcome => some outcome
  | _ => none

/-- The landmark that a stride comes to without a connect. -/
def Stride.turn? (s : Stride) : Option Landmark :=
  match s.before.session, s.after.session with
  | none, some _ => some .established
  | some _, none => some .ended
  | _, _ =>
    match s.before.phase, s.after.phase with
    | .choosing, .connecting => some .dial
    | .connected _, .choosing => some .overtaken
    | .waiting _ _ _ _, .waiting _ _ _ _ => none
    | .waiting purpose bound alarm _, _ =>
      some (.waited purpose bound (alarm.getD (s.now + bound) - bound) s.now)
    | _, _ => none

/-- The landmark that a stride comes to. -/
def Stride.landmark? (s : Stride) : Option Landmark :=
  match s.calls with
  | [.connect _ _ outcome] => some (.returned outcome)
  | _ => s.turn?

theorem Stride.landmark?_eq_turn? {s : Stride} (h : ∀ call ∈ s.calls, call.isConnect = false) :
    s.landmark? = s.turn? := by
  unfold landmark?
  split
  · next hcalls =>
      rw [hcalls] at h
      cases h _ List.mem_cons_self
  · rfl

theorem Stride.outcome?_of_turn? {s : Stride} {mark : Landmark} (h : s.turn? = some mark) :
    mark.outcome? = none := by
  unfold turn? at h
  split at h
  · cases h
    rfl
  · cases h
    rfl
  · split at h <;> cases h <;> rfl

/-- A stride makes one connect and nothing else, or no connect. -/
theorem Stride.outcomes_eq {s : Stride}
    (h : (∃ uri timeout outcome, s.calls = [.connect uri timeout outcome]) ∨
      ∀ call ∈ s.calls, call.isConnect = false) :
    s.calls.filterMap NetCall.outcome? = s.landmark?.toList.filterMap Landmark.outcome? := by
  rcases h with ⟨uri, timeout, outcome, hcalls⟩ | hcalls
  · simp [landmark?, hcalls, NetCall.outcome?, Landmark.outcome?]
  · have hnone : s.calls.filterMap NetCall.outcome? = [] := by
      refine List.filterMap_eq_nil_iff.mpr fun call hmem => ?_
      have hcall := hcalls call hmem
      cases call with
      | connect => cases hcall
      | send | poll | close => rfl
    rw [hnone, landmark?_eq_turn? hcalls]
    cases hturn : s.turn? with
    | none => rfl
    | some mark => simp [outcome?_of_turn? hturn]

/-- The landmarks of some strides. -/
def Stride.landmarks (strides : List Stride) : List Landmark :=
  strides.filterMap Stride.landmark?

theorem Stride.landmarks_concat (strides : List Stride) (s : Stride) :
    landmarks (strides ++ [s]) = landmarks strides ++ s.landmark?.toList := by
  rw [landmarks, List.filterMap_append]
  cases h : s.landmark? <;> simp [landmarks, h]

namespace Worker

variable {now : Instant} {w w' : Worker} {h : History}

/-- The stride of a worker in one step. -/
def strideTo (w : Worker) (now : Instant) (h : History) (w' : Worker) : Stride :=
  ⟨now, w, h.calls, w'⟩

theorem connect_cases {s s' : Shared} (hrule : w.Rule now s h w' s') :
    (∃ uri timeout outcome, h.calls = [.connect uri timeout outcome]) ∨
      ∀ call ∈ h.calls, call.isConnect = false := by
  cases hrule with
  | connect => exact .inl ⟨_, _, _, rfl⟩
  | event event => exact .inr (by cases event.isTerminal <;> simp [NetCall.isConnect])
  | _ => exact .inr (by simp [NetCall.isConnect])

/-- A stride that changes neither phase nor session comes to no landmark. -/
theorem turn?_of_same (hphase : w'.phase = w.phase) (hsession : w'.session = w.session) :
    (w.strideTo now h w').turn? = none := by
  unfold Stride.turn? strideTo
  rw [hphase, hsession]
  cases w.session <;> cases w.phase <;> rfl

theorem landmark?_of_same (hcalls : h.calls = []) (hphase : w'.phase = w.phase)
    (hsession : w'.session = w.session) : (w.strideTo now h w').landmark? = none := by
  rw [Stride.landmark?_eq_turn? (by simp [strideTo, hcalls]), turn?_of_same hphase hsession]

theorem landmark?_of_dial (hcalls : h.calls = []) (hphase : w.phase = .choosing)
    (hafter : w'.phase = .connecting) (hsession : w'.session = w.session) :
    (w.strideTo now h w').landmark? = some .dial := by
  rw [Stride.landmark?_eq_turn? (by simp [strideTo, hcalls])]
  unfold Stride.turn? strideTo
  rw [hphase, hafter, hsession]
  cases w.session <;> rfl

theorem landmark?_of_greet (hcalls : h.calls = []) (hbefore : w.session = none) {session : Session}
    (hafter : w'.session = some session) :
    (w.strideTo now h w').landmark? = some .established := by
  rw [Stride.landmark?_eq_turn? (by simp [strideTo, hcalls])]
  unfold Stride.turn? strideTo
  rw [hbefore, hafter]

theorem landmark?_of_overtaken (hcalls : ∀ call ∈ h.calls, call.isConnect = false)
    {result : Except ConnectError Session} (hphase : w.phase = .connected result)
    (hafter : w'.phase = .choosing) (hsession : w'.session = w.session) :
    (w.strideTo now h w').landmark? = some .overtaken := by
  rw [Stride.landmark?_eq_turn? hcalls]
  unfold Stride.turn? strideTo
  rw [hphase, hafter, hsession]
  cases w.session <;> rfl

/-- A failed connect is settled when its wait begins, and the landmark is where that ends. -/
theorem landmark?_of_refused (hcalls : h.calls = []) {result : Except ConnectError Session}
    (hphase : w.phase = .connected result) {purpose : Purpose} {bound : Nat}
    {alarm : Option Instant} {stage : Stage}
    (hafter : w'.phase = .waiting purpose bound alarm stage) (hsession : w'.session = w.session) :
    (w.strideTo now h w').landmark? = none := by
  rw [Stride.landmark?_eq_turn? (by simp [strideTo, hcalls])]
  unfold Stride.turn? strideTo
  rw [hphase, hafter, hsession]
  cases w.session <;> rfl

/-- A wait comes to its end. -/
theorem landmark?_of_wait (hcalls : h.calls = []) {purpose : Purpose} {bound : Nat}
    {alarm : Option Instant} {stage : Stage} (hphase : w.phase = .waiting purpose bound alarm stage)
    (hafter : ∀ purpose bound alarm stage, w'.phase ≠ .waiting purpose bound alarm stage)
    (hsession : w'.session = w.session) :
    (w.strideTo now h w').landmark? =
      some (.waited purpose bound (alarm.getD (now + bound) - bound) now) := by
  rw [Stride.landmark?_eq_turn? (by simp [strideTo, hcalls])]
  unfold Stride.turn? strideTo
  rw [hphase, hsession]
  cases w.session <;> cases hphase' : w'.phase <;>
    first | rfl | exact absurd hphase' (hafter _ _ _ _)

/-- What the landmarks of a connect tell of a stride. -/
theorem of_landmark? {mark : Landmark} (hmark : (w.strideTo now h w').landmark? = some mark) :
    (mark = .dial → w.phase = .choosing ∧ w'.phase = .connecting) ∧
      (mark = .established → w.session = none ∧ w'.session ≠ none) ∧
      (mark = .overtaken → (∃ result, w.phase = .connected result) ∧ w'.phase = .choosing) := by
  unfold Stride.landmark? strideTo at hmark
  split at hmark
  · cases hmark
    simp
  · unfold Stride.turn? at hmark
    split at hmark
    · cases hmark
      simp_all
    · cases hmark
      simp_all
    · split at hmark <;> cases hmark <;> simp_all

end Worker

end Uplink
