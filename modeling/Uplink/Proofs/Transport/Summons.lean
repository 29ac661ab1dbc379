import Mathlib.Data.List.Induction
import Uplink.Proofs.StopToken
import Uplink.Proofs.Transport.Caller
import Uplink.Proofs.Transport.Tokens

/-! # Woken by a stop request

What was written to the token of a run, and who was woken by it, over all the moves of a world. A
worker that sleeps through the first half of a stop request is woken by the second: nobody else
takes the signal that it waits for. -/

namespace Uplink

def Worker.IsAsleep (w : Worker) : Prop :=
  ∃ purpose bound alarm, w.phase = .waiting purpose bound alarm .asleep

namespace World

variable {σ : Type}

/-- The worker of a run sleeps. -/
def Sleeps (id : Nat) (w : World σ) : Prop :=
  ∃ c, w.course? id = some c ∧ c.worker.IsAsleep

/-- A move wakes a task through the token of a run. -/
def Rouses (w : World σ) (id : Nat) (waker : Waker) (move : Move σ) : Prop :=
  ∃ touch c, w.touch? move = some (id, touch) ∧ w.course? id = some c ∧
    waker ∈ (touch.act c.shared.stop).2

variable [Connector σ]

/-- Some moves make a write to the token of a run. -/
def Wrote (w : World σ) (id : Nat) (x : Write) (moves : List (Move σ)) : Prop :=
  ∃ front move back, moves = front ++ move :: back ∧
    (w.run front).touch? move = some (id, .write x)

/-- In some moves a task is woken through the token of a run, and its state is the same ever
since. -/
def Summoned (w : World σ) (id : Nat) (waker : Waker) (state : World σ → Prop)
    (moves : List (Move σ)) : Prop :=
  ∃ front move back, moves = front ++ move :: back ∧ (w.run front).Rouses id waker move ∧
    ∀ part, part <+: back → state (w.run (front ++ move :: part))

/-! ## One more move -/

section
variable {w : World σ} {id : Nat} {moves : List (Move σ)} {move : Move σ}

theorem wrote_concat_iff {x : Write} :
    w.Wrote id x (moves ++ [move]) ↔
      w.Wrote id x moves ∨ (w.run moves).touch? move = some (id, .write x) := by
  constructor
  · rintro ⟨front, first, back, heq, htouch⟩
    rcases List.eq_nil_or_concat back with rfl | ⟨back, last, rfl⟩
    · obtain ⟨rfl, hlast⟩ := List.append_inj' heq rfl
      obtain rfl := List.singleton_inj.mp hlast
      exact .inr htouch
    · rw [List.concat_eq_append, ← List.cons_append, ← List.append_assoc] at heq
      exact .inl ⟨front, first, back, (List.append_inj' heq rfl).1, htouch⟩
  · rintro (⟨front, first, back, rfl, htouch⟩ | htouch)
    · exact ⟨front, first, back ++ [move], by simp, htouch⟩
    · exact ⟨moves, move, [], rfl, htouch⟩

variable {waker : Waker} {state : World σ → Prop}

theorem Summoned.concat (h : w.Summoned id waker state moves)
    (hstate : state ((w.run moves).step move)) : w.Summoned id waker state (moves ++ [move]) := by
  obtain ⟨front, first, back, rfl, hrouses, hever⟩ := h
  refine ⟨front, first, back ++ [move], by simp, hrouses, fun part hpart => ?_⟩
  rcases List.prefix_concat_iff.mp hpart with rfl | hpart
  · rw [← run_concat] at hstate
    simpa using hstate
  · exact hever part hpart

theorem summoned_now (hrouses : (w.run moves).Rouses id waker move)
    (hstate : state ((w.run moves).step move)) : w.Summoned id waker state (moves ++ [move]) := by
  refine ⟨moves, move, [], rfl, hrouses, fun part hpart => ?_⟩
  rw [List.prefix_nil.mp hpart, run_concat]
  exact hstate

end

end World

/-! ## The worker -/

namespace Worker

section
variable {now : Instant} {w w' : Worker} {s s' : Shared} {h : History}

theorem todo_of_asleep_rule (hw : w.IsAsleep → w.todo = []) (hrule : w.Rule now s h w' s') :
    w'.IsAsleep → w'.todo = [] := by
  rintro ⟨purpose, bound, alarm, hphase⟩
  cases hrule with
  | write htodo | deliver htodo | overflow htodo | hangUp htodo | idleDrop htodo =>
      simp [hw ⟨_, _, _, hphase⟩] at htodo
  | listen htodo | wake htodo => exact htodo
  | _ => simp_all [greet]

/-- A worker does not fall asleep where the signal of a request is there. -/
theorem not_asleep_of_raised (hw : w.IsAsleep → w.todo = []) (hrule : w.Rule now s h w' s')
    (hraised : s'.stop.request = .raised) : ¬ w'.IsAsleep := by
  rintro ⟨purpose, bound, alarm, hphase⟩
  cases hrule with
  | write htodo | deliver htodo | overflow htodo | hangUp htodo | idleDrop htodo =>
      simp [hw ⟨_, _, _, hphase⟩] at htodo
  | listen => cases hrequest : s.stop.request <;> simp_all [StopToken.pollRequest, Signal.poll]
  | @wake p => cases p <;> simp [Purpose.firstStage] at hphase
  | _ => simp_all [greet]

end

end Worker

namespace Course

theorem Reachable.todo_of_asleep {c : Course} (hc : c.Reachable) :
    c.worker.IsAsleep → c.worker.todo = [] := by
  induction hc with
  | fresh => exact fun _ => rfl
  | next _ hstep ih =>
      cases hstep with
      | work hrule => exact Worker.todo_of_asleep_rule ih hrule
      | _ => exact ih

theorem Evolves.isGone {c d : Course} (h : c.Evolves d) (hc : c.worker.IsGone) :
    d.worker.IsGone := by
  obtain ⟨hphase, htodo⟩ := hc
  cases h with
  | work hrule =>
      cases hrule with
      | gone => exact ⟨hphase, htodo⟩
      | _ => simp_all
  | push | parkSender | pop | parkReceiver | write | listen => exact ⟨hphase, htodo⟩

theorem Reachable.hasExited_of_gone {c : Course} (hc : c.Reachable) (hgone : c.worker.IsGone) :
    c.shared.stop.hasExited = true :=
  (hc.sound.noticed hgone.1).resolve_left (by simp [hgone.2])

end Course

namespace World

variable {σ : Type}

section
variable {w : World σ} {id : Nat} {move : Move σ}

/-- Who raises the signal of a request has set its flag before. -/
theorem asked_of_touch (hw : w.Sound) (hcourses : ∀ id c, w.course? id = some c → c.Reachable)
    (htouch : w.touch? move = some (id, .write .request)) : w.Asked id := by
  rcases touch?_write_cases htouch with
    ⟨now, c, todo, -, hc, htodo⟩ | ⟨thread, now, expired, activity, xs, next, -, hthread, hcall⟩
  · have hown := (hcourses id c hc).sound.own .request (htodo ▸ List.mem_cons_self)
    cases hown
  · rcases hw.stage hthread hcall with hstage | hstage
    · cases hstage
    · cases hstage with
      | ask hid hxs hasked =>
          refine hasked.resolve_left fun hflag => ?_
          simp [Write.publish, List.suffix_cons_iff] at hxs
          simp [hxs] at hflag
      | conclude hid hasked => exact hasked

theorem exists_course?_of_touch (hw : w.Sound) {x : Write}
    (htouch : w.touch? move = some (id, .write x)) : ∃ c, w.course? id = some c := by
  rcases touch?_write_cases htouch with
    ⟨now, c, todo, -, hc, -⟩ | ⟨thread, now, expired, activity, xs, next, -, hthread, hcall⟩
  · exact ⟨c, hc⟩
  · rcases hw.stage hthread hcall with hstage | hstage
    · cases hstage
    · exact exists_course? hstage.isCallers.2

variable [Connector σ] {c d : Course}

theorem attentive_of_touch (hw : w.Unshared)
    (htouch : w.touch? move = some (id, .write .request)) (hc : w.course? id = some c)
    (hd : (w.step move).course? id = some d) : d.Attentive := by
  obtain ⟨b, hb, hflagged⟩ := asked_of_touch hw.sound hw.courses htouch
  obtain rfl : b = c := Option.some.inj (hb.symm.trans hc)
  have hstop := stop_step hc hd
  rw [htouch, Touch.apply, if_pos rfl] at hstop
  refine ⟨?_, fun _ => ?_⟩
  · rw [hstop]
    exact hflagged
  · rw [hstop]
    exact Signal.raise_fst _

/-- The worker raises the signal of its exit, and that is the last thing it does. -/
theorem gone_of_touch (hw : w.Unshared) (htouch : w.touch? move = some (id, .write .exit))
    (hc : w.course? id = some c) (hd : (w.step move).course? id = some d) : d.worker.IsGone := by
  rcases touch?_write_cases htouch with
    ⟨now, b, todo, rfl, hb, htodo⟩ | ⟨thread, now, expired, activity, xs, next, -, hthread, hcall⟩
  · obtain rfl : b = c := Option.some.inj (hb.symm.trans hc)
    have hsound := (hw.courses id b hb).sound
    have hphase := hsound.staying (.inr (htodo ▸ List.mem_cons_self))
    obtain rfl := Worker.eq_of_exit_suffix_farewell (htodo ▸ hsound.leaving hphase)
    obtain ⟨worker, shared, h, hrule, hnext⟩ := course?_work hb now
    cases hd.symm.trans hnext
    cases hrule <;> simp_all [Worker.IsGone]
  · rcases hw.sound.stage hthread hcall with hstage | hstage
    · cases hstage
    · cases hstage.isCallers.1

variable {moves : List (Move σ)}

/-- What a write brings about, and nothing takes back, holds once it was made. -/
theorem holds_of_wrote (hw : w.Unshared) {x : Write} {P : Course → Prop}
    (hmake : ∀ {w : World σ} {move : Move σ} {c d : Course}, w.Unshared →
      w.touch? move = some (id, .write x) → w.course? id = some c →
        (w.step move).course? id = some d → P d)
    (hkeep : ∀ {c d : Course}, P c → c.Evolves d → P d) (hwrote : w.Wrote id x moves) :
    ∃ c, (w.run moves).course? id = some c ∧ P c := by
  induction moves using List.reverseRecOn with
  | nil =>
      obtain ⟨front, first, back, heq, -⟩ := hwrote
      simp at heq
  | append_singleton moves move ih =>
      have hrun := unshared_run hw moves
      have hrule := (w.run moves).step_rule move
      rw [run_concat]
      rcases wrote_concat_iff.mp hwrote with hbefore | htouch
      · obtain ⟨c, hc, hholds⟩ := ih hbefore
        obtain ⟨d, hd, rfl | hstep⟩ := (hc ▸ follows_rule hrun.sound hrule id).exists_of_some
        · exact ⟨_, hd, hholds⟩
        · exact ⟨d, hd, hkeep hholds hstep⟩
      · obtain ⟨c, hc⟩ := exists_course?_of_touch hrun.sound htouch
        obtain ⟨d, hd, -⟩ := (hc ▸ follows_rule hrun.sound hrule id).exists_of_some
        exact ⟨d, hd, hmake hrun htouch hc hd⟩

/-- A worker that sleeps although the signal is there was woken when it was raised. -/
theorem summoned_of_asleep (hw : w.Unshared) (hempty : w.transport.runs = [])
    (hc : (w.run moves).course? id = some c) (hasleep : c.worker.IsAsleep)
    (hraised : c.shared.stop.request = .raised) :
    w.Summoned id Worker.waker (Sleeps id) moves := by
  induction moves using List.reverseRecOn generalizing c with
  | nil => simp [run, course?, hempty] at hc
  | append_singleton moves move ih =>
      rw [run_concat] at hc
      have hrun := unshared_run hw moves
      have hsleeps : Sleeps id ((w.run moves).step move) := ⟨c, hc, hasleep⟩
      have hfollows := follows_rule hrun.sound ((w.run moves).step_rule move) id
      rw [hc] at hfollows
      cases hb : (w.run moves).course? id with
      | none =>
          rw [hb] at hfollows
          cases hfollows
          obtain ⟨_, _, _, hphase⟩ := hasleep
          cases hphase
      | some b =>
          have hreach := hrun.courses id b hb
          by_cases hmove : ∃ now, move = .work id now
          · obtain ⟨now, rfl⟩ := hmove
            obtain ⟨worker, shared, h, hrule, hnext⟩ := course?_work hb now
            cases hc.symm.trans hnext
            exact absurd hasleep
              (Worker.not_asleep_of_raised hreach.todo_of_asleep hrule hraised)
          · have hstill := worker?_step (fun now heq => hmove ⟨now, heq⟩) (worker?_of_course? hb)
            have hworker : c.worker = b.worker :=
              Option.some.inj ((worker?_of_course? hc).symm.trans hstill)
            have hasleep' : b.worker.IsAsleep := hworker ▸ hasleep
            have hstop := stop_step hb hc
            by_cases hwrites : (w.run moves).touch? move = some (id, .write .request)
            · obtain ⟨purpose, bound, alarm, hphase⟩ := hasleep'
              rcases hreach.listens purpose bound alarm hphase with hawaited | hbefore
              · refine summoned_now ⟨_, b, hwrites, hb, ?_⟩ hsleeps
                simp [Touch.act, StopToken.raiseRequest, Signal.raise, hawaited]
              · exact (ih hb ⟨purpose, bound, alarm, hphase⟩ hbefore).concat hsleeps
            · rw [hstop] at hraised
              exact (ih hb hasleep' (Touch.request_of_raised hraised hwrites)).concat hsleeps

end

end World

end Uplink
