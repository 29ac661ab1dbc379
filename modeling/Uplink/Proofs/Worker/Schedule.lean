import Uplink.Proofs.Backoff
import Uplink.Worker

/-! # Reconnecting by schedule

The landmarks on the way of a worker are where a connect begins and returns, where a session
begins and ends, and where a wait ends. A few rules say which landmark may come next, after so
many failures in a row. The law of reconnecting follows from the rules alone. -/

namespace Uplink

inductive Landmark
  /-- A connect begins. -/
  | dial
  | returned (outcome : Except ConnectError Unit)
  /-- The connect has become a session. -/
  | established
  /-- A session is dropped. -/
  | ended
  /-- A connect has returned, but a stop was requested meanwhile. -/
  | overtaken
  /-- A wait of `bound` nanoseconds is over, however it came to its end. -/
  | waited (purpose : Purpose) (bound : Nat) (begun ended : Instant)
deriving DecidableEq

/-! ## Failures in a row -/

/-- How many connects have failed in a row after a landmark, where there were so many before. -/
def Landmark.tally (failures : Nat) : Landmark → Nat
  | .returned (.error _) => failures + 1
  | .established => 0
  | _ => failures

/-- How many connects have failed in a row, from the beginning or from the latest session on. -/
def failuresFrom (failures : Nat) (marks : List Landmark) : Nat :=
  marks.foldl Landmark.tally failures

theorem failuresFrom_append (failures : Nat) (front back : List Landmark) :
    failuresFrom failures (front ++ back) = failuresFrom (failuresFrom failures front) back :=
  List.foldl_append

/-- As long as no session begins the failures only grow. -/
theorem le_failuresFrom {failures : Nat} {marks : List Landmark} (hmarks : .established ∉ marks) :
    failures ≤ failuresFrom failures marks := by
  induction marks generalizing failures with
  | nil => exact Nat.le_refl _
  | cons mark marks ih =>
      obtain ⟨hmark, hmarks⟩ : .established ≠ mark ∧ .established ∉ marks := by
        simpa using hmarks
      have hle : failures ≤ mark.tally failures := by
        unfold Landmark.tally
        split
        · exact Nat.le_succ _
        · exact absurd rfl hmark
        · exact Nat.le_refl _
      exact Nat.le_trans hle (ih hmarks)

/-! ## What may come next -/

/-- Where a worker is between two landmarks. -/
inductive Place
  | idle
  | dialing
  | opened
  | failed
  | linked
  /-- A stop has come in between. -/
  | halted
deriving DecidableEq

/-- The landmarks that a worker may come to, with where it is before and after. So many connects
have failed in a row, and the delays are those of a schedule. -/
inductive Leads (schedule : List UInt32) (failures : Nat) : Place → Landmark → Place → Prop
  | dial : Leads schedule failures .idle .dial .dialing
  | opened : Leads schedule failures .dialing (.returned (.ok ())) .opened
  | failed {e} : Leads schedule failures .dialing (.returned (.error e)) .failed
  | established : Leads schedule failures .opened .established .linked
  | worked {bound begun ended} :
      Leads schedule failures .linked (.waited .work bound begun ended) .linked
  | ended : Leads schedule failures .linked .ended .idle
  | waited {delay begun ended}
      (hdelay : schedule[min failures schedule.length - 1]? = some delay)
      (hlong : begun + Worker.duration delay ≤ ended) :
      Leads schedule failures .failed (.waited .retry (Worker.duration delay) begun ended) .idle
  | cut {delay begun ended}
      (hdelay : schedule[min failures schedule.length - 1]? = some delay) :
      Leads schedule failures .failed (.waited .retry (Worker.duration delay) begun ended) .halted
  | overtaken {place} (hplace : place = .opened ∨ place = .failed) :
      Leads schedule failures place .overtaken .halted

/-- A way from one place to another, with its landmarks. -/
inductive Way (schedule : List UInt32) : Nat → Place → List Landmark → Place → Prop
  | nil {failures place} : Way schedule failures place [] place
  | cons {failures place mark next marks last} (hlead : Leads schedule failures place mark next)
      (hway : Way schedule (mark.tally failures) next marks last) :
      Way schedule failures place (mark :: marks) last

namespace Way

variable {schedule : List UInt32} {failures : Nat} {place middle last : Place}
  {front back marks : List Landmark}

theorem append (hfront : Way schedule failures place front middle)
    (hback : Way schedule (failuresFrom failures front) middle back last) :
    Way schedule failures place (front ++ back) last := by
  induction hfront with
  | nil => exact hback
  | cons hlead _ ih => exact .cons hlead (ih hback)

theorem exists_middle (h : Way schedule failures place (front ++ back) last) :
    ∃ middle, Way schedule failures place front middle ∧
      Way schedule (failuresFrom failures front) middle back last := by
  induction front generalizing failures place with
  | nil => exact ⟨place, .nil, h⟩
  | cons mark front ih =>
      cases h with
      | cons hlead hway =>
          obtain ⟨middle, hfront, hback⟩ := ih hway
          exact ⟨middle, .cons hlead hfront, hback⟩

/-! ## The law of reconnecting -/

/-- After a stop nothing comes. -/
theorem of_halted (h : Way schedule failures .halted marks last) : marks = [] := by
  cases h with
  | nil => rfl
  | cons hlead =>
      cases hlead with
      | overtaken hplace => simp at hplace

/-- After a wait and after a session comes a connect, or nothing. -/
theorem of_idle (h : Way schedule failures .idle marks last) :
    marks = [] ∨ marks.head? = some .dial := by
  cases h with
  | nil => exact .inl rfl
  | cons hlead =>
      cases hlead with
      | dial => exact .inr rfl
      | overtaken hplace => simp at hplace

theorem of_failed (h : Way schedule failures .failed marks last) (hschedule : schedule ≠ []) :
    ∃ delay, schedule[min failures schedule.length - 1]? = some delay ∧
      (marks = [] ∨ marks = [.overtaken] ∨ ∃ begun ended more,
        marks = .waited .retry (Worker.duration delay) begun ended :: more ∧
          (more = [] ∨ begun + Worker.duration delay ≤ ended ∧ more.head? = some .dial)) := by
  have hlt : min failures schedule.length - 1 < schedule.length := by
    have := List.length_pos_iff.mpr hschedule
    omega
  cases h with
  | nil => exact ⟨_, List.getElem?_eq_getElem hlt, .inl rfl⟩
  | @cons _ _ _ _ more _ hlead hway =>
      cases hlead with
      | @waited delay begun ended hdelay hlong =>
          refine ⟨delay, hdelay, .inr (.inr ⟨begun, ended, more, rfl, ?_⟩)⟩
          exact hway.of_idle.imp_right fun hhead => ⟨hlong, hhead⟩
      | @cut delay begun ended hdelay =>
          exact ⟨delay, hdelay, .inr (.inr ⟨begun, ended, more, rfl, .inl hway.of_halted⟩)⟩
      | overtaken =>
          rw [hway.of_halted]
          exact ⟨_, List.getElem?_eq_getElem hlt, .inr (.inl rfl)⟩

variable {rest : List Landmark}

/-- A failed connect is followed by one wait, of the delay that is due, and then by the next
connect, unless a stop comes in between. -/
theorem after_failure (h : Way schedule failures place marks last) (hschedule : schedule ≠ [])
    {e : ConnectError} (hmarks : marks = front ++ .returned (.error e) :: rest) :
    ∃ delay,
      schedule[min (failuresFrom failures front + 1) schedule.length - 1]? = some delay ∧
      (rest = [] ∨ rest = [.overtaken] ∨ ∃ begun ended more,
        rest = .waited .retry (Worker.duration delay) begun ended :: more ∧
          (more = [] ∨ begun + Worker.duration delay ≤ ended ∧ more.head? = some .dial)) := by
  subst hmarks
  obtain ⟨middle, -, hrest⟩ := h.exists_middle
  cases hrest with
  | cons hlead hway =>
      cases hlead with
      | failed => exact hway.of_failed hschedule

/-- A session that ends is followed by the next connect, with no wait. -/
theorem after_end (h : Way schedule failures place marks last)
    (hmarks : marks = front ++ .ended :: rest) : rest = [] ∨ rest.head? = some .dial := by
  subst hmarks
  obtain ⟨middle, -, hrest⟩ := h.exists_middle
  cases hrest with
  | cons hlead hway =>
      cases hlead with
      | ended => exact hway.of_idle

theorem after_overtaken (h : Way schedule failures place marks last)
    (hmarks : marks = front ++ .overtaken :: rest) : rest = [] ∧ last = .halted := by
  subst hmarks
  obtain ⟨middle, -, hrest⟩ := h.exists_middle
  cases hrest with
  | cons hlead hway =>
      cases hlead with
      | overtaken =>
          obtain rfl := hway.of_halted
          cases hway
          exact ⟨rfl, rfl⟩

/-- At most one connect is overtaken by a stop, and that is the last one. -/
theorem count_overtaken (h : Way schedule failures place marks last) :
    marks.count .overtaken ≤ if last = .halted then 1 else 0 := by
  by_cases hmem : .overtaken ∈ marks
  · obtain ⟨front, rest, hmarks, hnot⟩ := List.eq_append_cons_of_mem hmem
    obtain ⟨rfl, rfl⟩ := h.after_overtaken hmarks
    rw [hmarks, List.count_append, List.count_eq_zero_of_not_mem hnot]
    simp
  · rw [List.count_eq_zero_of_not_mem hmem]
    exact Nat.zero_le _

/-- The wait after a failure is the delay that is due. -/
theorem delay_of_waited (h : Way schedule failures place marks last) {bound begun ended : Nat}
    (hmarks : marks = front ++ .waited .retry bound begun ended :: rest) :
    ∃ delay, schedule[min (failuresFrom failures front) schedule.length - 1]? = some delay ∧
      bound = Worker.duration delay := by
  subst hmarks
  obtain ⟨middle, -, hrest⟩ := h.exists_middle
  cases hrest with
  | cons hlead _ =>
      cases hlead with
      | waited hdelay | cut hdelay => exact ⟨_, hdelay, rfl⟩

/-- As long as no session begins the waits do not become shorter. -/
theorem waits_le (h : Way schedule failures place marks last)
    (hsorted : schedule.Pairwise (· ≤ ·)) {between : List Landmark}
    {bound begun ended bound' begun' ended' : Nat}
    (hmarks : marks = front ++ .waited .retry bound begun ended ::
      (between ++ .waited .retry bound' begun' ended' :: rest))
    (hbetween : .established ∉ between) : bound ≤ bound' := by
  obtain ⟨delay, hdelay, rfl⟩ := h.delay_of_waited hmarks
  have hlater : marks = (front ++ .waited .retry (Worker.duration delay) begun ended :: between) ++
      .waited .retry bound' begun' ended' :: rest := by
    rw [hmarks, List.append_assoc, List.cons_append]
  obtain ⟨longer, hlonger, rfl⟩ := h.delay_of_waited hlater
  have hgrow : failuresFrom failures front ≤
      failuresFrom failures
        (front ++ .waited .retry (Worker.duration delay) begun ended :: between) := by
    rw [failuresFrom_append]
    exact le_failuresFrom (by simpa using hbetween)
  have hle : delay ≤ longer := LinkConfig.delay_le_of_le hsorted (by omega) hdelay hlonger
  exact Nat.mul_le_mul_right _ (UInt32.le_iff_toNat_le.mp hle)

end Way

end Uplink
