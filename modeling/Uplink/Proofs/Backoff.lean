import Mathlib.Data.List.Chain
import Mathlib.Data.List.Induction
import Uplink.Config

/-! # Delays by the table

A backoff answers with the entries of its table, one after the other and the last one again and
again, from the front after each reset. The table of a valid configuration does not decrease, so
neither do the delays until the next reset, and the last entry is the longest one. -/

namespace Uplink

/-! ## Schedules -/

namespace LinkConfig

theorem isChain_of_decreases {schedule : List UInt32} (h : decreases schedule = false) :
    schedule.IsChain (· ≤ ·) := by
  fun_induction decreases schedule with
  | case1 a b rest ih =>
      rw [Bool.or_eq_false_iff, decide_eq_false_iff_not] at h
      exact List.isChain_cons_cons.mpr ⟨UInt32.not_lt.mp h.1, ih h.2⟩
  | case2 schedule hshort =>
      cases schedule with
      | nil => exact .nil
      | cons a schedule =>
          cases schedule with
          | nil => exact .singleton a
          | cons b rest => exact absurd rfl (hshort a b rest)

theorem violation?_of_validate {c : LinkConfig} (hvalid : c.validate = .ok ()) :
    c.violation? = none := by
  unfold validate at hvalid
  split at hvalid
  · assumption
  · cases hvalid

/-- The schedule of a valid configuration has an entry, and does not decrease. -/
theorem schedule_of_validate {c : LinkConfig} (hvalid : c.validate = .ok ()) :
    c.backoffSchedule ≠ [] ∧ c.backoffSchedule.Pairwise (· ≤ ·) := by
  have hnone : c.violation? = none := violation?_of_validate hvalid
  unfold violation? at hnone
  split_ifs at hnone with hheartbeat hempty hzero hdecreases
  all_goals try cases hnone
  constructor
  · simpa using hempty
  · exact List.isChain_iff_pairwise.mp (isChain_of_decreases (by simpa using hdecreases))

/-- A later delay is not shorter. -/
theorem delay_le_of_le {schedule : List UInt32} (hsorted : schedule.Pairwise (· ≤ ·)) {i j : Nat}
    (hij : i ≤ j) {delay longer : UInt32} (hdelay : schedule[i]? = some delay)
    (hlonger : schedule[j]? = some longer) : delay ≤ longer := by
  obtain ⟨hi, rfl⟩ := List.getElem?_eq_some_iff.mp hdelay
  obtain ⟨hj, rfl⟩ := List.getElem?_eq_some_iff.mp hlonger
  rcases Nat.lt_or_eq_of_le hij with hlt | rfl
  · exact List.pairwise_iff_getElem.mp hsorted i j hi hj hlt
  · exact UInt32.le_refl _

end LinkConfig

namespace Backoff

/-- The backoff stands where it is after so many failures in a row. -/
structure At (b : Backoff) (schedule : List UInt32) (failures : Nat) : Prop where
  steps : b.steps = schedule
  index : b.index = min failures (schedule.length - 1)

variable {b : Backoff} {schedule : List UInt32} {failures : Nat}

theorem at_table (schedule : List UInt32) : (ofSchedule schedule).At (table schedule) 0 where
  steps := rfl
  index := (Nat.zero_min _).symm

theorem table_eq (hschedule : schedule ≠ []) (hle : schedule.length ≤ maxBackoffSteps) :
    table schedule = schedule := by
  rw [table, if_neg (by simpa using hschedule)]
  exact List.take_of_length_le hle

theorem at_ofSchedule (hschedule : schedule ≠ []) (hle : schedule.length ≤ maxBackoffSteps) :
    (ofSchedule schedule).At schedule 0 := by
  have hat := at_table schedule
  rwa [table_eq hschedule hle] at hat

theorem At.reset (h : b.At schedule failures) : b.reset.At schedule 0 where
  steps := h.steps
  index := (Nat.zero_min _).symm

theorem At.advance (h : b.At schedule failures) : b.advance.At schedule (failures + 1) where
  steps := h.steps
  index := by
    simp only [Backoff.advance, h.steps, h.index]
    omega

theorem At.getElem?_peek (h : b.At schedule failures) :
    schedule[min failures (schedule.length - 1)]? = some b.peek := by
  rw [← h.index, ← h.steps]
  exact List.getElem?_eq_getElem b.index_lt

/-- The next delay is the one that is due after one more failure. -/
theorem At.peek (h : b.At schedule failures) :
    schedule[min (failures + 1) schedule.length - 1]? = some b.peek := by
  have hindex : min (failures + 1) schedule.length - 1 = min failures (schedule.length - 1) := by
    omega
  rw [hindex, h.getElem?_peek]

theorem At.getElem?_maxDelay (h : b.At schedule failures) :
    schedule[schedule.length - 1]? = some b.maxDelay := by
  have hlt := b.index_lt
  rw [← h.steps]
  exact List.getElem?_eq_getElem (by omega)

/-! ## Runs -/

inductive Deed
  | next
  | peek
  | reset
  | longest
deriving DecidableEq

/-- Does what is asked for, and answers with a delay unless it is a reset. -/
def perform (b : Backoff) : Deed → Option UInt32 × Backoff
  | .next => (some b.nextDelay.1, b.nextDelay.2)
  | .peek => (some b.peek, b)
  | .reset => (none, b.reset)
  | .longest => (some b.maxDelay, b)

def follow (b : Backoff) (deeds : List Deed) : Backoff :=
  deeds.foldl (fun b deed => (b.perform deed).2) b

/-- Whether a deed is answered with the delay that is due. -/
def Deed.isDue : Deed → Bool
  | .next | .peek => true
  | .reset | .longest => false

/-- The delays that were due, in the order in which they were answered. -/
def delays (b : Backoff) : List Deed → List UInt32
  | [] => []
  | deed :: deeds =>
    (if deed.isDue then (b.perform deed).1.toList else []) ++ (b.perform deed).2.delays deeds

/-- How many delays were taken since the last reset. -/
def taken (deeds : List Deed) : Nat :=
  (deeds.reverse.takeWhile (· ≠ .reset)).count .next

theorem taken_concat (deeds : List Deed) (deed : Deed) :
    taken (deeds ++ [deed]) =
      match deed with
      | .next => taken deeds + 1
      | .reset => 0
      | .peek | .longest => taken deeds := by
  cases deed <;> simp [taken]

theorem At.perform (h : b.At schedule failures) (deed : Deed) :
    (b.perform deed).2.At schedule
      (match deed with
      | .next => failures + 1
      | .reset => 0
      | .peek | .longest => failures) := by
  cases deed with
  | next => exact h.advance
  | reset => exact h.reset
  | peek | longest => exact h

/-- Only the delays that were taken since the last reset matter. -/
theorem at_follow (schedule : List UInt32) (deeds : List Deed) :
    ((ofSchedule schedule).follow deeds).At (table schedule) (taken deeds) := by
  induction deeds using List.reverseRecOn with
  | nil => exact at_table schedule
  | append_singleton deeds deed ih =>
      rw [follow, List.foldl_append, taken_concat]
      exact ih.perform deed

/-! ## Order -/

theorem delays_cons (b : Backoff) (deed : Deed) (deeds : List Deed) :
    b.delays (deed :: deeds) =
      (if deed.isDue then [b.peek] else []) ++ (b.perform deed).2.delays deeds := by
  cases deed <;> rfl

section
variable {b' : Backoff} {failures' : Nat} (hsorted : schedule.Pairwise (· ≤ ·))
include hsorted

theorem At.peek_le_peek (h : b.At schedule failures) (h' : b'.At schedule failures')
    (hle : failures ≤ failures') : b.peek ≤ b'.peek :=
  LinkConfig.delay_le_of_le hsorted (by omega) h.getElem?_peek h'.getElem?_peek

theorem At.peek_le_maxDelay (h : b.At schedule failures) (h' : b'.At schedule failures') :
    b.peek ≤ b'.maxDelay :=
  LinkConfig.delay_le_of_le hsorted (Nat.min_le_right _ _) h.getElem?_peek h'.getElem?_maxDelay

/-- No delay is longer than the longest one, whenever that is asked for. -/
theorem At.le_maxDelay (h : b.At schedule failures) (h' : b'.At schedule failures')
    (deeds : List Deed) : ∀ delay ∈ b.delays deeds, delay ≤ b'.maxDelay := by
  induction deeds generalizing b failures with
  | nil => exact nofun
  | cons deed deeds ih =>
      intro delay hdelay
      rw [delays_cons, List.mem_append] at hdelay
      rcases hdelay with hnow | hlater
      · obtain ⟨-, rfl⟩ : deed.isDue = true ∧ delay = b.peek := by simpa using hnow
        exact h.peek_le_maxDelay hsorted h'
      · exact ih (h.perform deed) delay hlater

/-- Until the next reset no delay is shorter than the one that is due now. -/
theorem At.le_delays (h : b.At schedule failures) (h' : b'.At schedule failures')
    (hle : failures' ≤ failures) {deeds : List Deed} (hreset : .reset ∉ deeds) :
    ∀ delay ∈ b.delays deeds, b'.peek ≤ delay := by
  induction deeds generalizing b failures with
  | nil => exact nofun
  | cons deed deeds ih =>
      obtain ⟨hdeed, hreset⟩ := List.ne_and_not_mem_of_not_mem_cons hreset
      intro delay hdelay
      rw [delays_cons, List.mem_append] at hdelay
      rcases hdelay with hnow | hlater
      · obtain ⟨-, rfl⟩ : deed.isDue = true ∧ delay = b.peek := by simpa using hnow
        exact h'.peek_le_peek hsorted h hle
      · refine ih (h.perform deed) ?_ hreset delay hlater
        cases deed with
        | next => exact Nat.le_succ_of_le hle
        | reset => exact absurd rfl hdeed
        | peek | longest => exact hle

theorem At.pairwise_delays (h : b.At schedule failures) {deeds : List Deed}
    (hreset : .reset ∉ deeds) : (b.delays deeds).Pairwise (· ≤ ·) := by
  induction deeds generalizing b failures with
  | nil => exact .nil
  | cons deed deeds ih =>
      obtain ⟨hdeed, hlater⟩ := List.ne_and_not_mem_of_not_mem_cons hreset
      have hrest := ih (h.perform deed) hlater
      cases deed with
      | next =>
          exact .cons (h.advance.le_delays hsorted h (Nat.le_succ _) hlater) hrest
      | peek => exact .cons (h.le_delays hsorted h (Nat.le_refl _) hlater) hrest
      | reset => exact absurd rfl hdeed
      | longest => exact hrest

end

/-! ## The law -/

theorem follow_of_idle (b : Backoff) {idle : List Deed}
    (hidle : ∀ deed ∈ idle, deed = .peek ∨ deed = .longest) : b.follow idle = b := by
  induction idle with
  | nil => rfl
  | cons deed idle ih =>
      obtain ⟨hdeed, hrest⟩ := List.forall_mem_cons.mp hidle
      rcases hdeed with rfl | rfl <;> exact ih hrest

/-- A backoff may be made from any list of delays, and be asked for anything in any order. Its
table is the first eight of them, or a second alone, and its index never leaves the table: it is
the number of delays that were taken since the last reset, or that of the last entry. The next
delay is the one there, and a peek tells it. With the schedule of a valid configuration no delay
is ever longer than the longest one, and none is shorter than one before it unless there was a
reset in between. -/
theorem delays_of_schedule (schedule : List UInt32) (deeds : List Deed) :
    let steps := if schedule = [] then [1000] else schedule.take 8
    let b := (ofSchedule schedule).follow deeds
    b.steps = steps ∧ b.index = min (taken deeds) (steps.length - 1) ∧
      (∃ delay, steps[min (taken deeds) (steps.length - 1)]? = some delay ∧
        (b.perform .next).1 = some delay ∧ (b.perform .peek).1 = some delay ∧
        ∀ idle, (∀ deed ∈ idle, deed = .peek ∨ deed = .longest) →
          ((b.follow idle).perform .next).1 = some delay) ∧
      (∃ longest, steps[steps.length - 1]? = some longest ∧
        (b.perform .longest).1 = some longest) ∧
      ∀ c : LinkConfig, c.validate = .ok () → c.backoffSchedule = schedule → ∀ more : List Deed,
        (∀ delay ∈ b.delays more, delay ≤ b.maxDelay) ∧
          (.reset ∉ more → (b.delays more).Pairwise (· ≤ ·)) := by
  intro steps b
  have hsteps : table schedule = steps := by
    simp only [table, List.isEmpty_iff]
    rfl
  have hat : b.At steps (taken deeds) := hsteps ▸ at_follow schedule deeds
  refine ⟨hat.steps, hat.index, ?_, ⟨b.maxDelay, hat.getElem?_maxDelay, rfl⟩, ?_⟩
  · refine ⟨b.peek, hat.getElem?_peek, rfl, rfl, fun idle hidle => ?_⟩
    rw [follow_of_idle b hidle]
    rfl
  · rintro c hvalid rfl more
    obtain ⟨hschedule, hsorted⟩ := LinkConfig.schedule_of_validate hvalid
    rw [← hsteps, table_eq hschedule c.schedule_le] at hat
    exact ⟨hat.le_maxDelay hsorted hat more, hat.pairwise_delays hsorted⟩

/-- Six entries, eight failures after a connect, and a peek before each. -/
theorem delays_of_default_schedule :
    let deeds := (List.replicate 8 [Deed.peek, .next]).flatten
    let b := (ofSchedule defaultBackoffSchedule).follow [.next, .reset]
    LinkConfig.default.validate = .ok () ∧
      b.delays deeds = [1000, 1000, 2000, 2000, 5000, 5000, 10000, 10000, 15000, 15000,
        30000, 30000, 30000, 30000, 30000, 30000] ∧
      (∀ delay ∈ b.delays deeds, delay ≤ b.maxDelay) ∧ (b.delays deeds).Pairwise (· ≤ ·) := by
  intro deeds b
  have hvalid : LinkConfig.default.validate = .ok () := rfl
  obtain ⟨-, -, -, -, hlaw⟩ := delays_of_schedule defaultBackoffSchedule [.next, .reset]
  obtain ⟨hlongest, hsorted⟩ := hlaw .default hvalid rfl deeds
  exact ⟨hvalid, by decide, hlongest, hsorted (by decide)⟩

example : (ofSchedule []).delays [.next, .next] = [1000, 1000] := by decide

end Backoff

end Uplink
