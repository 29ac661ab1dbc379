import Uplink.Proofs.Readiness.Usage

/-! # Nobody waits for flags that are set

The flags change outside the registration, and a set wakes only in its second step. Still no wait
is forgotten: once every set has made both steps, whoever still sleeps waits for a flag that is
not there. -/

namespace Uplink.Readiness

/-- Flags that are there after a clear were there before it. -/
theorem contains_of_clear {r : Readiness} {mask other : UInt8}
    (h : (r.clear other).contains mask = true) : r.contains mask = true := by
  have hmask : r.bits &&& ~~~other &&& mask = mask := of_decide_eq_true h
  have hbits : r.bits &&& mask = mask := by
    calc r.bits &&& mask = r.bits &&& (r.bits &&& ~~~other &&& mask) := by rw [hmask]
      _ = r.bits &&& ~~~other &&& mask := by
        rw [← UInt8.and_assoc, ← UInt8.and_assoc, UInt8.and_self]
      _ = mask := hmask
  exact decide_eq_true hbits

namespace Usage

/-! ## Who sleeps -/

/-- Somebody sleeps who waits for a mask and has left a waker behind. -/
def Sleeps (u : Usage) (mask : UInt8) (w : Waker) : Prop :=
  ⟨mask, .asleep w⟩ ∈ u.waits

variable {u v : Usage} {mask : UInt8} {w : Waker} {id : Nat} {o : Wait}

theorem sleeps_settle {readiness : Readiness} {woken : List Waker}
    (h : (u.settle readiness woken).Sleeps mask w) : u.Sleeps mask w ∧ w ∉ woken := by
  obtain ⟨before, hbefore, heq⟩ := List.mem_map.mp h
  obtain ⟨hmask, hstatus⟩ := Wait.mk.inj heq
  obtain ⟨hasleep, hwoken⟩ := Queue.Status.hear_eq_asleep_iff.mp hstatus
  refine ⟨?_, hwoken⟩
  cases before with
  | mk mask status =>
      obtain rfl : mask = _ := hmask
      obtain rfl : status = _ := hasleep
      exact hbefore

theorem sleeps_turn {status : Queue.Status} (h : (u.turn id o status).Sleeps mask w) :
    u.Sleeps mask w ∨ o.mask = mask ∧ status = .asleep w := by
  refine (List.mem_or_eq_of_mem_set h).imp_right fun heq => ?_
  obtain ⟨hmask, hstatus⟩ := Wait.mk.inj heq
  exact ⟨hmask.symm, hstatus.symm⟩

theorem sleeps_turn_over (h : (u.turn id o .over).Sleeps mask w) : u.Sleeps mask w :=
  (sleeps_turn h).resolve_right fun hover => nomatch hover.2

theorem sleeps_begin {other : UInt8}
    (h : Sleeps { u with waits := u.waits ++ [⟨other, .roused⟩] } mask w) : u.Sleeps mask w := by
  refine (List.mem_append.mp h).resolve_right fun hnew => ?_
  obtain ⟨-, hstatus⟩ := Wait.mk.inj (List.mem_singleton.mp hnew)
  cases hstatus

/-! ## Nobody is forgotten -/

/-- Whoever sleeps is registered, and waits for a flag that is not there, unless a set is between
its two steps. -/
structure Heeded (u : Usage) : Prop where
  registered : ∀ mask w, u.Sleeps mask w → w ∈ u.readiness.waiters.wakers
  blocked : u.sets = 0 → ∀ mask w, u.Sleeps mask w → u.readiness.contains mask = false

/-- Fewer sleep at the same flags. -/
theorem Heeded.of_sleeps (hu : u.Heeded) (hreadiness : v.readiness = u.readiness)
    (hsets : v.sets = u.sets) (hsleeps : ∀ mask w, v.Sleeps mask w → u.Sleeps mask w) :
    v.Heeded where
  registered mask w h := by
    rw [hreadiness]
    exact hu.registered mask w (hsleeps mask w h)
  blocked hnone mask w h := by
    rw [hreadiness]
    exact hu.blocked (hsets ▸ hnone) mask w (hsleeps mask w h)

/-- Another waker comes into the registration: who has to leave it is woken. -/
theorem Heeded.enrolled (hu : u.Heeded) (w : Waker) :
    (u.settle (u.enrolled w) (u.displaced w)).Heeded where
  registered mask v h := by
    obtain ⟨hsleeps, hkept⟩ := sleeps_settle h
    exact Waiters.mem_register_of_mem (hu.registered mask v hsleeps) hkept
  blocked hnone mask v h := hu.blocked hnone mask v (sleeps_settle h).1

/-- Whoever comes to sleep has been registered, and has missed a flag. -/
theorem Heeded.sleep (hu : u.Heeded) (hw : w ∈ u.readiness.waiters.wakers)
    (hblocked : u.readiness.contains o.mask = false) : (u.turn id o (.asleep w)).Heeded where
  registered mask v h := by
    rcases sleeps_turn h with hold | ⟨-, hstatus⟩
    · exact hu.registered mask v hold
    · cases hstatus
      exact hw
  blocked hnone mask v h := by
    rcases sleeps_turn h with hold | ⟨rfl, -⟩
    · exact hu.blocked hnone mask v hold
    · exact hblocked

theorem heeded_rule (hu : u.Heeded) (hrule : Rule u v) : v.Heeded := by
  cases hrule with
  | rest => exact hu
  | raise mask => exact ⟨hu.registered, fun hnone => absurd hnone (Nat.succ_ne_zero _)⟩
  | wake =>
      -- Everybody who sleeps is registered, so nobody sleeps on.
      have hnobody (mask w) :
          ¬(u.settle u.readiness u.readiness.waiters.wakers).Sleeps mask w := fun h =>
        (sleeps_settle h).2 (hu.registered mask w (sleeps_settle h).1)
      exact ⟨fun mask w h => absurd h (hnobody mask w),
        fun _ mask w h => absurd h (hnobody mask w)⟩
  | clear other =>
      refine ⟨hu.registered, fun hnone mask w h => ?_⟩
      have hblocked := hu.blocked hnone mask w h
      exact Bool.eq_false_iff.mpr fun hseen =>
        Bool.eq_false_iff.mp hblocked (contains_of_clear hseen)
  | begin => exact hu.of_sleeps rfl rfl fun _ _ => sleeps_begin
  | see | drop => exact hu.of_sleeps rfl rfl fun _ _ => sleeps_turn_over
  | park w ho hblocked =>
      exact ((hu.enrolled w).sleep (Waiters.mem_register _ _ _) hblocked).of_sleeps rfl rfl
        fun _ _ => id
  | late w => exact (hu.enrolled w).of_sleeps rfl rfl fun _ _ => sleeps_turn_over

theorem heeded_run (moves : List Move) : (fresh.run moves).Heeded :=
  rule_induction ⟨nofun, nofun⟩ (fun _ _ hu hrule => heeded_rule hu hrule) moves

/-! ## Answers -/

/-- A wait is answered by a poll, which finds the flags there or its time limit passed. -/
theorem answered_of_step {move : Move} {seen : Bool} (h : .answered id seen ∈ (u.step move).log) :
    .answered id seen ∈ u.log ∨
      ∃ w expired o, move = .poll id w expired ∧ u.Active id o ∧
        u.readiness.contains o.mask = seen ∧ (seen = false → expired = true) := by
  cases move with
  | raise | clear | begin => exact .inl h
  | wake =>
      left
      cases hsets : u.sets <;> simpa [step, wake, hsets, record, settle] using h
  | drop other =>
      left
      cases ho : u.waits[other]? with
      | none => simpa [step, drop, ho] using h
      | some o =>
          by_cases hover : o.status = .over <;>
            simpa [step, drop, ho, hover, record, turn] using h
  | poll other w expired =>
      rcases u.active_or_poll_eq other with ⟨o, ho⟩ | hrest
      · cases hseen : u.readiness.contains o.mask with
        | true =>
            rw [step, poll_of_seen w expired ho hseen, record, List.mem_append] at h
            refine h.imp_right fun hnew => ?_
            obtain ⟨rfl, rfl⟩ := Event.answered.inj (List.mem_singleton.mp hnew)
            exact ⟨w, expired, o, rfl, ho, hseen, by simp⟩
        | false =>
            rw [step, poll_of_blocked w expired ho hseen] at h
            cases expired with
            | true =>
                refine (List.mem_append.mp h).imp_right fun hnew => ?_
                obtain ⟨rfl, rfl⟩ : id = other ∧ seen = false := by simpa using hnew
                exact ⟨w, true, o, rfl, ho, hseen, fun _ => rfl⟩
            | false =>
                left
                simpa [record, turn, settle] using h
      · rw [step, hrest] at h
        exact .inl h

theorem answered_of_run {moves : List Move} {seen : Bool}
    (h : .answered id seen ∈ (fresh.run moves).log) :
    ∃ front w expired back o, moves = front ++ .poll id w expired :: back ∧
      (fresh.run front).Active id o ∧ (fresh.run front).readiness.contains o.mask = seen ∧
      (seen = false → expired = true) := by
  induction moves using List.reverseRecOn with
  | nil => cases h
  | append_singleton moves move ih =>
      rw [run, List.foldl_append] at h
      rcases answered_of_step h with hold | ⟨w, expired, o, rfl, ho, hseen, hlate⟩
      · obtain ⟨front, w, expired, back, o, rfl, hanswer⟩ := ih hold
        exact ⟨front, w, expired, back ++ [move], o, by simp, hanswer⟩
      · exact ⟨moves, w, expired, [], o, rfl, ho, hseen, hlate⟩

/-- However sets, clears, polls and drops of any number of waits follow one another, and whichever
wakers they use: as soon as no set is between its two steps, every wait in progress whose flags
are all there has not been polled yet or was woken since its last poll. A wait is answered by one
of its polls: with `true` only if all its flags were there at that moment, and with `false` only
if a flag was missing and the time limit had passed. -/
theorem roused_when_set (moves : List Move) :
    let u := fresh.run moves
    (u.sets = 0 → ∀ o ∈ u.waits, o.status ≠ .over → u.readiness.contains o.mask = true →
      o.status = .roused) ∧
      ∀ id seen, .answered id seen ∈ u.log →
        ∃ front w expired back o, moves = front ++ .poll id w expired :: back ∧
          (fresh.run front).Active id o ∧ (fresh.run front).readiness.contains o.mask = seen ∧
          (seen = false → expired = true) := by
  intro u
  refine ⟨?_, fun id seen h => answered_of_run h⟩
  intro hnone o ho hopen hseen
  cases hstatus : o.status with
  | roused => rfl
  | asleep w =>
      have hsleeps : u.Sleeps o.mask w := by
        rw [Sleeps, ← hstatus]
        exact ho
      have hblocked := (heeded_run moves).blocked hnone o.mask w hsleeps
      rw [hblocked] at hseen
      cases hseen
  | _ => exact absurd hstatus hopen

/-! ## A set on its own -/

/-- A set while nobody else acts is its two steps. -/
theorem run_set (u : Usage) (mask : UInt8) :
    let u' := u.run [.raise mask, .wake]
    u'.readiness = (u.readiness.set mask).1 ∧ u'.sets = u.sets ∧
      u'.log = u.log ++ [.woke (u.readiness.set mask).2] :=
  ⟨rfl, rfl, rfl⟩

end Usage

end Uplink.Readiness
