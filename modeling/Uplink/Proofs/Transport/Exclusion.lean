import Uplink.Network
import Uplink.Proofs.Transport.Invariant
import Uplink.Proofs.Worker.Discipline

/-! # One worker at a time

A run whose worker has not ended is the one in progress, or the one left behind, or in the custody
of a start or a stop that waits for it. No two of these places are ever taken, as long as no start
overlaps another start or a stop. -/

namespace Uplink

namespace Transport

/-- The run that is in the custody of a start or a stop. -/
def Procedure.holds? : Procedure → Option Nat
  | .await id _ _ _ _ | .detach id _ => some id
  | .write _ _ next => next.holds?
  | .reap _ | .launch _ | .take | .finished _ => none

/-- How many runs a transport has on its books. -/
def booked (t : Transport) : Nat :=
  t.running.toList.length + t.detached.toList.length

end Transport

namespace Activity

def holds? (activity : Activity) : Option Nat :=
  activity.call?.bind Transport.Procedure.holds?

def isStarting : Activity → Bool
  | .starting _ => true
  | _ => false

def isCalling (activity : Activity) : Bool :=
  activity.call?.isSome

theorem holds?_of_call? {activity : Activity} (h : activity.call? = none) :
    activity.holds? = none := by
  rw [holds?, h]
  rfl

theorem holds?_of_aim? {activity : Activity} {aim : Nat × Queue.Action Message}
    (h : activity.aim? = some aim) : activity.holds? = none := by
  cases activity with
  | trying | waiting => rfl
  | _ => cases h

theorem isCalling_of_holds? {activity : Activity} {id : Nat} (h : activity.holds? = some id) :
    activity.isCalling = true := by
  cases activity with
  | starting | stopping => rfl
  | _ => cases h

end Activity

/-- Whether a worker is inside a connect. -/
def Worker.isDialing (w : Worker) : Bool :=
  match w.phase with
  | .connecting => w.todo.isEmpty
  | _ => false

/-- The notice of an exit is never taken back. -/
theorem Course.Evolves.hasExited {c d : Course} (h : c.Evolves d)
    (hc : c.shared.stop.hasExited = true) : d.shared.stop.hasExited = true := by
  refine h.keeps (p := fun t => t.hasExited = true) ?_ (fun _ _ ht => ht) (fun _ _ ht => ht) hc
  intro s x hs
  exact (s.hasExited_write x).mpr (.inr hs)

namespace World

open Transport (Procedure ExitStage)

variable {σ : Type}

/-! ## Custody -/

/-- A run is in one of the three places. -/
inductive Keeps (w : World σ) (id : Nat) : Prop
  | running (h : w.transport.running = some id)
  | detached (h : w.transport.detached = some id)
  | held {thread : Nat} {activity : Activity} (hthread : w.threads[thread]? = some activity)
      (hholds : activity.holds? = some id)

def kept (w : World σ) : Nat :=
  w.transport.booked + w.threads.countP (·.holds?.isSome)

/-- A thread that is in a start is the only one that is in a start or a stop. -/
def isOrderly (w : World σ) : Bool :=
  !w.threads.any (·.isStarting) || w.threads.countP (·.isCalling) ≤ 1

/-- At most one run is kept: the latest one, if its worker has not ended. -/
structure Custody (w : World σ) : Prop where
  sound : w.Sound
  courses : ∀ id c, w.course? id = some c → c.Reachable
  kept_le : w.kept ≤ 1
  /-- No run is lost from sight before its worker has ended. -/
  keeps : ∀ id c, w.course? id = some c → c.shared.stop.hasExited = false → w.Keeps id
  latest : ∀ id, w.Keeps id → id + 1 = w.transport.runs.length
  /-- A start goes on to its launch with nothing left behind. -/
  launching : ∀ uri, .starting (.launch uri) ∈ w.threads → w.transport.detached = none

theorem eq_of_isOrderly {w : World σ} (hw : w.isOrderly = true) {i j : Nat} {a b : Activity}
    (hi : w.threads[i]? = some a) (ha : a.isStarting = true) (hj : w.threads[j]? = some b)
    (hb : b.isCalling = true) : i = j := by
  have hany : w.threads.any (·.isStarting) = true :=
    List.any_eq_true.mpr ⟨a, List.mem_of_getElem? hi, ha⟩
  have hle : w.threads.countP (·.isCalling) ≤ 1 := by simpa [isOrderly, hany] using hw
  have hcalling : a.isCalling = true := by
    cases a with
    | starting => rfl
    | _ => cases ha
  apply Decidable.byContradiction
  intro hne
  have hcount := countP_turn (·.isCalling) .idle hi
  have hstill : (w.threads.set i .idle)[j]? = some b := by rw [List.getElem?_set_ne hne, hj]
  have hpos : 0 < (w.threads.set i .idle).countP (·.isCalling) :=
    List.countP_pos_iff.mpr ⟨b, List.mem_of_getElem? hstill, hb⟩
  have hidle : Activity.idle.isCalling = false := rfl
  simp only [hcalling, hidle, if_true] at hcount
  simp at hcount
  omega

/-! ## Passing a run on -/

/-- What a thread does to the places when the run in its own custody changes from `old` to
`new`. -/
structure Passes (w w' : World σ) (old new : Option Nat) : Prop where
  booked_le : w'.transport.booked + new.toList.length ≤ w.transport.booked + old.toList.length
  length_eq : w'.transport.runs.length = w.transport.runs.length
  running : ∀ id, w.transport.running = some id → w'.transport.running = some id ∨ new = some id
  detached : ∀ id, w.transport.detached = some id →
    w'.transport.detached = some id ∨ new = some id ∨ old.isSome = true
  held : ∀ id, old = some id → new = some id ∨ w'.transport.detached = some id ∨
    ∃ c, w.course? id = some c ∧ c.shared.stop.hasExited = true
  running_from : ∀ id, w'.transport.running = some id → w.transport.running = some id
  detached_from : ∀ id, w'.transport.detached = some id →
    w.transport.detached = some id ∨ old = some id
  held_from : ∀ id, new = some id →
    old = some id ∨ w.transport.running = some id ∨ w.transport.detached = some id

section
variable {w w' : World σ} (hlength : w'.transport.runs.length = w.transport.runs.length)
  (hrunning : w'.transport.running = w.transport.running)
include hlength hrunning

theorem Passes.of_eq (hdetached : w'.transport.detached = w.transport.detached)
    (held : Option Nat) : w.Passes w' held held := by
  constructor <;> simp_all [Transport.booked]

theorem Passes.of_exited (hdetached : w'.transport.detached = w.transport.detached) {id : Nat}
    {c : Course} (hc : w.course? id = some c) (hexited : c.shared.stop.hasExited = true) :
    w.Passes w' (some id) none := by
  constructor <;> simp_all [Transport.booked]

theorem Passes.of_detach {id : Nat} (hdetached : w'.transport.detached = some id) :
    w.Passes w' (some id) none := by
  constructor <;> simp_all [Transport.booked]

end

/-- Where a start or a stop may stand. -/
def Stage (w : World σ) (call : Procedure) : Prop :=
  w.StartStage call ∨ w.StopStage call

theorem Sound.stage {w : World σ} (hw : w.Sound) {thread : Nat} {activity : Activity}
    {call : Procedure} (hthread : w.threads[thread]? = some activity)
    (hcall : activity.call? = some call) : w.Stage call := by
  have hmem := List.mem_of_getElem? hthread
  cases activity with
  | idle | trying | waiting => cases hcall
  | starting => exact .inl (Option.some.inj hcall ▸ hw.starting _ hmem)
  | stopping => exact .inr (Option.some.inj hcall ▸ hw.stopping _ hmem)

theorem Stage.await {w : World σ} {id : Nat} {alarm : Option Instant} {stage : ExitStage}
    {exited late : Procedure} (h : w.Stage (.await id alarm stage exited late)) :
    id < w.transport.runs.length ∧ exited.holds? = none ∧ late.holds? = some id := by
  rcases h with h | h <;> cases h with
  | await hid => exact ⟨hid.1, rfl, rfl⟩

theorem Stage.detach {w : World σ} {id : Nat} {next : Procedure} (h : w.Stage (.detach id next)) :
    next.holds? = none := by
  rcases h with h | h <;> cases h <;> rfl

theorem passes_rule {w w' : World σ} {now : Instant} {caller : Waker} {call next : Procedure}
    (hcourses : ∀ id c, w.course? id = some c → c.Reachable) (hcall : w.Stage call)
    (hrule : w.transport.Rule now caller call w'.transport next)
    (hlaunch : ∀ uri, call ≠ .launch uri) : w.Passes w' call.holds? next.holds? := by
  have hexited {id : Nat} {run : Run} (hrun : w.transport.runs[id]? = some run)
      (h : run.shared.stop.hasExited = true ∨ run.shared.stop.exit = .raised) :
      ∃ c, w.course? id = some c ∧ c.shared.stop.hasExited = true := by
    have hc : w.course? id = some ⟨run.worker, run.shared, w.history id⟩ := by simp [course?, hrun]
    exact ⟨_, hc, h.elim (fun h => h) (hcourses id _ hc).sound.raised⟩
  generalize ht : w'.transport = t at hrule
  cases hrule with
  | launch => exact absurd rfl (hlaunch _)
  | reap hdetached =>
      constructor <;> simp_all [Transport.booked, Procedure.holds?]
  | take hrunning =>
      have hbooked : w'.transport.booked + 1 = w.transport.booked := by
        rw [ht, Transport.booked, Transport.booked, hrunning]
        show 0 + w.transport.detached.toList.length + 1 = 1 + w.transport.detached.toList.length
        omega
      constructor
      · exact Nat.le_of_eq hbooked
      all_goals simp_all [Procedure.holds?, Procedure.stopRun, Procedure.awaitExit]
  | flagged hrun h =>
      obtain ⟨c, hc, hend⟩ := hexited hrun (.inl h)
      rw [hcall.await.2.1]
      exact .of_exited (by rw [ht]) (by rw [ht]) (by rw [ht]) hc hend
  | signalled hrun h =>
      obtain ⟨c, hc, hend⟩ := hexited hrun (.inr h)
      rw [hcall.await.2.1]
      exact .of_exited (by simp [ht, Transport.updateShared, Transport.updateRun])
        (by rw [ht]; rfl) (by rw [ht]; rfl) hc hend
  | expire | lost =>
      rw [hcall.await.2.2]
      exact .of_eq (by rw [ht]) (by rw [ht]) (by rw [ht]) _
  | detach =>
      rw [hcall.detach]
      exact .of_detach (by rw [ht]) (by rw [ht]) (by rw [ht])
  | _ =>
      refine Passes.of_eq ?_ ?_ ?_ _ <;>
        simp [ht, Transport.updateShared, Transport.updateRun]

/-! ## Custody is kept -/

section
variable {w w' : World σ}

/-- A worker that has not ended now had not ended before. -/
theorem Custody.live_of_live (h : w.Custody) (hrule : w.Rule w') {id : Nat} {c d : Course}
    (hc : w.course? id = some c) (hd : w'.course? id = some d)
    (hlive : d.shared.stop.hasExited = false) : c.shared.stop.hasExited = false := by
  rcases eq_or_evolves h.sound hrule hc hd with rfl | hstep
  · exact hlive
  · cases hexited : c.shared.stop.hasExited with
    | false => rfl
    | true => simp [hstep.hasExited hexited] at hlive

theorem Custody.keeps_of_live (h : w.Custody) (hrule : w.Rule w') {id : Nat} {d : Course}
    (hd : w'.course? id = some d) (hlive : d.shared.stop.hasExited = false)
    (hid : id < w.transport.runs.length) : w.Keeps id := by
  obtain ⟨c, hc⟩ := exists_course? hid
  exact h.keeps id c hc (h.live_of_live hrule hc hd hlive)

/-- With a run in the custody of a thread there is none on the books. -/
theorem Custody.booked_eq_zero (h : w.Custody) {thread id : Nat} {activity : Activity}
    (hthread : w.threads[thread]? = some activity) (hholds : activity.holds? = some id) :
    w.transport.booked = 0 := by
  have hpos : 0 < w.threads.countP (·.holds?.isSome) :=
    List.countP_pos_iff.mpr ⟨activity, List.mem_of_getElem? hthread, by simp [hholds]⟩
  have := h.kept_le
  rw [kept] at this
  omega

theorem detached_of_booked {t : Transport} (h : t.booked = 0) : t.detached = none := by
  cases hdetached : t.detached with
  | none => rfl
  | some id => simp [Transport.booked, hdetached] at h

/-- A move that leaves the threads and the books alone. -/
theorem Custody.of_same (h : w.Custody) (hrule : w.Rule w') (hthreads : w'.threads = w.threads)
    (hlength : w'.transport.runs.length = w.transport.runs.length)
    (hrunning : w'.transport.running = w.transport.running)
    (hdetached : w'.transport.detached = w.transport.detached) : w'.Custody where
  sound := sound_rule h.sound hrule
  courses := reachable_rule h.sound h.courses hrule
  kept_le := by
    simpa [kept, Transport.booked, hthreads, hrunning, hdetached] using h.kept_le
  keeps := by
    intro id d hd hlive
    cases h.keeps_of_live hrule hd hlive (hlength ▸ lt_of_course? hd) with
    | running hid => exact .running (hrunning ▸ hid)
    | detached hid => exact .detached (hdetached ▸ hid)
    | held hthread hholds => exact .held (hthreads ▸ hthread) hholds
  latest := by
    intro id hid
    rw [hlength]
    cases hid with
    | running hid => exact h.latest id (.running (hrunning ▸ hid))
    | detached hid => exact h.latest id (.detached (hdetached ▸ hid))
    | held hthread hholds => exact h.latest id (.held (hthreads ▸ hthread) hholds)
  launching := by
    intro uri huri
    rw [hdetached]
    exact h.launching uri (hthreads ▸ huri)

section
variable {thread : Nat} {old new : Activity} (hthread : w.threads[thread]? = some old)
  (hthreads : w'.threads = w.threads.set thread new)
  (hpasses : w.Passes w' old.holds? new.holds?)
include hthread hthreads hpasses

theorem Passes.kept_le : w'.kept ≤ w.kept := by
  have hcount := countP_turn (·.holds?.isSome) new hthread
  have hbooked := hpasses.booked_le
  rw [kept, kept, hthreads]
  cases hold : old.holds? <;> cases hnew : new.holds? <;> simp [hold, hnew] at hcount hbooked <;>
    omega

theorem Passes.keeps_from {id : Nat} (hid : w'.Keeps id) : w.Keeps id := by
  cases hid with
  | running hid => exact .running (hpasses.running_from id hid)
  | detached hid =>
      rcases hpasses.detached_from id hid with hid | hid
      · exact .detached hid
      · exact .held hthread hid
  | @held i activity hi hholds =>
      have hlt : thread < w.threads.length := (List.getElem?_eq_some_iff.mp hthread).1
      rw [hthreads] at hi
      by_cases heq : thread = i
      · subst heq
        rw [List.getElem?_set_self hlt] at hi
        cases hi
        rcases hpasses.held_from id hholds with hid | hid | hid
        · exact .held hthread hid
        · exact .running hid
        · exact .detached hid
      · rw [List.getElem?_set_ne heq] at hi
        exact .held hi hholds

/-- A run stays in one of the places until its worker has ended. -/
theorem Custody.keeps_passes (h : w.Custody) {id : Nat} (hid : w.Keeps id) :
    w'.Keeps id ∨ ∃ c, w.course? id = some c ∧ c.shared.stop.hasExited = true := by
  have hlt : thread < w.threads.length := (List.getElem?_eq_some_iff.mp hthread).1
  have hnew : w'.threads[thread]? = some new := by rw [hthreads, List.getElem?_set_self hlt]
  cases hid with
  | running hid =>
      rcases hpasses.running id hid with hid | hid
      · exact .inl (.running hid)
      · exact .inl (.held hnew hid)
  | detached hid =>
      rcases hpasses.detached id hid with hid | hid | hheld
      · exact .inl (.detached hid)
      · exact .inl (.held hnew hid)
      · -- With a run in the custody of this thread, none was left behind.
        obtain ⟨j, hj⟩ := Option.isSome_iff_exists.mp hheld
        simp [detached_of_booked (h.booked_eq_zero hthread hj)] at hid
  | @held i activity hi hholds =>
      by_cases heq : thread = i
      · subst heq
        obtain rfl : activity = old := Option.some.inj (hi.symm.trans hthread)
        rcases hpasses.held id hholds with hid | hid | hend
        · exact .inl (.held hnew hid)
        · exact .inl (.detached hid)
        · exact .inr hend
      · have hstill : w'.threads[i]? = some activity := by
          rw [hthreads, List.getElem?_set_ne heq, hi]
        exact .inl (.held hstill hholds)

/-- While a thread is on the way to its launch, nothing is left behind. -/
theorem Custody.launching_passes (h : w.Custody) (horder : w.isOrderly = true)
    (hlaunch : ∀ uri, new = .starting (.launch uri) → w'.transport.detached = none) :
    ∀ uri, .starting (.launch uri) ∈ w'.threads → w'.transport.detached = none := by
  intro uri huri
  rw [hthreads] at huri
  rcases List.mem_or_eq_of_mem_set huri with hmem | heq
  · have hnone := h.launching uri hmem
    cases hdetached : w'.transport.detached with
    | none => rfl
    | some id =>
        rcases hpasses.detached_from id hdetached with hid | hid
        · simp [hnone] at hid
        · -- It was this thread that left a run behind, so it is the one on the way to its launch.
          obtain ⟨i, hi⟩ := List.getElem?_of_mem hmem
          have heq := eq_of_isOrderly horder hi rfl hthread (Activity.isCalling_of_holds? hid)
          subst heq
          obtain rfl := Option.some.inj (hi.symm.trans hthread)
          cases hid
  · exact hlaunch uri heq.symm

/-- A step of one thread that passes a run on. -/
theorem Custody.of_passes (h : w.Custody) (horder : w.isOrderly = true) (hrule : w.Rule w')
    (hlaunch : ∀ uri, new = .starting (.launch uri) → w'.transport.detached = none) :
    w'.Custody where
  sound := sound_rule h.sound hrule
  courses := reachable_rule h.sound h.courses hrule
  kept_le := Nat.le_trans (Passes.kept_le hthread hthreads hpasses) h.kept_le
  keeps := by
    intro id d hd hlive
    have hid := h.keeps_of_live hrule hd hlive (hpasses.length_eq ▸ lt_of_course? hd)
    refine (h.keeps_passes hthread hthreads hpasses hid).resolve_right ?_
    rintro ⟨c, hc, hexited⟩
    simp [h.live_of_live hrule hc hd hlive] at hexited
  latest := by
    intro id hid
    rw [hpasses.length_eq]
    exact h.latest id (Passes.keeps_from hthread hthreads hpasses hid)
  launching := h.launching_passes hthread hthreads hpasses horder hlaunch

end

/-- A start launches a run only when no other one is kept. -/
theorem Custody.not_keeps_of_launch (h : w.Custody) (horder : w.isOrderly = true) {thread : Nat}
    {uri : String} (hthread : w.threads[thread]? = some (.starting (.launch uri)))
    (hrunning : w.transport.running = none) (id : Nat) : ¬ w.Keeps id := by
  intro hid
  cases hid with
  | running hid => simp [hrunning] at hid
  | detached hid => simp [h.launching uri (List.mem_of_getElem? hthread)] at hid
  | @held i activity hi hholds =>
      obtain rfl := eq_of_isOrderly horder hthread rfl hi (Activity.isCalling_of_holds? hholds)
      obtain rfl := Option.some.inj (hi.symm.trans hthread)
      cases hholds

theorem Custody.of_launch (h : w.Custody) (horder : w.isOrderly = true) {now : Instant}
    {thread : Nat} {uri : String} (hthread : w.threads[thread]? = some (.starting (.launch uri)))
    (hrunning : w.transport.running = none) (hrule : w.Rule w')
    (hthreads : w'.threads = w.threads.set thread (.starting (.finished (.ok ()))))
    (htransport : w'.transport = w.transport.launch uri now) : w'.Custody := by
  have hnone := h.not_keeps_of_launch horder hthread hrunning
  have hdetached : w'.transport.detached = none := by
    rw [htransport]
    exact h.launching uri (List.mem_of_getElem? hthread)
  have hlength : w'.transport.runs.length = w.transport.runs.length + 1 := by
    simp [htransport, Transport.launch]
  have hlatest : w'.transport.running = some w.transport.runs.length := by
    rw [htransport]
    rfl
  have hheld : ∀ activity ∈ w'.threads, activity.holds? = none := by
    intro activity hmem
    rw [hthreads] at hmem
    rcases List.mem_or_eq_of_mem_set hmem with hmem | rfl
    · cases hholds : activity.holds? with
      | none => rfl
      | some id =>
          obtain ⟨i, hi⟩ := List.getElem?_of_mem hmem
          exact absurd (.held hi hholds) (hnone id)
    · rfl
  constructor
  · exact sound_rule h.sound hrule
  · exact reachable_rule h.sound h.courses hrule
  · have hcount : w'.threads.countP (·.holds?.isSome) = 0 :=
      List.countP_eq_zero.mpr fun activity hmem => by simp [hheld activity hmem]
    simp [kept, Transport.booked, hlatest, hdetached, hcount]
  · intro id d hd hlive
    by_cases hid : id = w.transport.runs.length
    · exact .running (hid ▸ hlatest)
    · have hlt : id < w.transport.runs.length := by
        have := lt_of_course? hd
        omega
      exact absurd (h.keeps_of_live hrule hd hlive hlt) (hnone id)
  · intro id hid
    cases hid with
    | running hid =>
        rw [hlatest] at hid
        rw [hlength, Option.some.inj hid]
    | detached hid => simp [hdetached] at hid
    | held hi hholds => simp [hheld _ (List.mem_of_getElem? hi)] at hholds
  · exact fun _ _ => hdetached

/-- On the way to a launch nothing is left behind: there was nothing, or the thread has seen the
end of it. -/
theorem Custody.detached_of_launch (h : w.Custody) {now : Instant} {caller : Waker} {thread : Nat}
    {call : Procedure} {t : Transport} {uri : String}
    (hthread : w.threads[thread]? = some (.starting call))
    (hstep : w.transport.Rule now caller call t (.launch uri)) : t.detached = none := by
  have hstage := h.sound.starting call (List.mem_of_getElem? hthread)
  generalize hnext : Procedure.launch uri = next at hstep
  cases hstage with
  | reap =>
      cases hstep with
      | nothingLeft hdetached => exact hdetached
      | reap => cases hnext
  | await =>
      have hdetached := detached_of_booked (h.booked_eq_zero hthread rfl)
      cases hstep with
      | flagged | signalled => exact hdetached
      | _ => cases hnext
  | launch =>
      cases hstep with
      | refuse | launch => cases hnext
  | giveBack | finished => cases hstep; cases hnext

/-- Custody is kept by every move from an orderly world. -/
theorem custody_rule (h : w.Custody) (horder : w.isOrderly = true) (hrule : w.Rule w') :
    w'.Custody := by
  -- What a thread does that has no run in its custody before and after.
  have hquiet {thread : Nat} {old new : Activity} (hthread : w.threads[thread]? = some old)
      (hthreads : w'.threads = w.threads.set thread new) (hold : old.holds? = none)
      (hnew : new.holds? = none) (hlaunch : ∀ uri, new ≠ .starting (.launch uri))
      (hlength : w'.transport.runs.length = w.transport.runs.length)
      (hrunning : w'.transport.running = w.transport.running)
      (hdetached : w'.transport.detached = w.transport.detached) : w'.Custody := by
    have hpasses : w.Passes w' old.holds? new.holds? := by
      rw [hold, hnew]
      exact .of_eq hlength hrunning hdetached none
    exact h.of_passes hthread hthreads hpasses horder hrule
      fun uri heq => absurd heq (hlaunch uri)
  have hrule' := hrule
  cases hrule with
  | rest | drift => exact h.of_same hrule' rfl rfl rfl rfl
  | work => exact h.of_same hrule' rfl (by simp [record, Transport.updateRun]) rfl rfl
  | beginStart hthread | beginStop hthread | beginTry hthread | await hthread =>
      exact hquiet hthread rfl rfl rfl (by simp) rfl rfl rfl
  | finish hthread hcall =>
      exact hquiet hthread rfl (by rw [Activity.holds?, hcall]; rfl) rfl (by simp) rfl rfl rfl
  | giveUp hthread hcall =>
      exact hquiet hthread rfl (Activity.holds?_of_call? hcall) rfl (by simp) rfl rfl rfl
  | @start now thread call t next hthread hstep =>
      -- A launch alone adds a run to the books; every other step passes one on.
      by_cases hcall : ∃ uri, call = .launch uri
      · obtain ⟨uri, rfl⟩ := hcall
        cases hstep with
        | refuse => exact hquiet hthread rfl rfl rfl (by simp) rfl rfl rfl
        | launch hrunning => exact h.of_launch horder hthread hrunning hrule' rfl rfl
      · have hstage := h.sound.starting call (List.mem_of_getElem? hthread)
        refine h.of_passes hthread rfl ?_ horder hrule' ?_
        · exact passes_rule h.courses (.inl hstage) hstep fun uri heq => hcall ⟨uri, heq⟩
        · rintro uri ⟨⟩
          exact h.detached_of_launch hthread hstep
  | @stop now thread call t next hthread hstep =>
      have hstage := h.sound.stopping call (List.mem_of_getElem? hthread)
      refine h.of_passes hthread rfl (passes_rule h.courses (.inr hstage) hstep ?_) horder hrule'
        (by simp)
      rintro uri rfl
      cases hstage
  | push hthread haim | pop hthread haim =>
      exact hquiet hthread rfl (Activity.holds?_of_aim? haim) rfl (by simp)
        (by simp [record, turn, updateShared, Transport.updateShared, Transport.updateRun]) rfl rfl
  | parkSender hthread _ hnext | parkReceiver hthread _ hnext =>
      have hlength (f : Shared → Shared) (id : Nat) :
          (w.transport.updateShared id f).runs.length = w.transport.runs.length := by
        simp [Transport.updateShared, Transport.updateRun]
      rcases hnext with rfl | rfl
      · exact hquiet hthread rfl rfl rfl (by simp) (hlength _ _) rfl rfl
      · exact hquiet hthread rfl rfl rfl (by simp) (hlength _ _) rfl rfl

end

theorem custody_fresh (config : LinkConfig) (outbound inbound threads : Nat) (net : σ) :
    (fresh config outbound inbound threads net).Custody where
  sound := sound_fresh config outbound inbound threads net
  courses := by simp [fresh, course?]
  kept_le := by
    have hcount : (List.replicate threads Activity.idle).countP (·.holds?.isSome) = 0 :=
      List.countP_eq_zero.mpr fun activity hmem => by
        rw [List.eq_of_mem_replicate hmem]
        exact Bool.false_ne_true
    simp [kept, fresh, Transport.booked, hcount]
  keeps := by simp [fresh, course?]
  latest := by
    intro id hid
    cases hid with
    | running h | detached h => cases h
    | held hthread hholds =>
        rw [List.eq_of_mem_replicate (List.mem_of_getElem? hthread)] at hholds
        cases hholds
  launching := fun _ _ => rfl

/-! ## Dials and links -/

/-- How many workers are inside a connect. -/
def dialing (w : World σ) : Nat :=
  w.transport.runs.countP (·.worker.isDialing)

/-- How many links are open: a worker never holds two. -/
def openLinks (w : World σ) : Nat :=
  w.transport.runs.countP (·.worker.holdsLink)

theorem countP_le_one_of_last {α : Type} (p : α → Bool) (l : List α)
    (h : ∀ i a, l[i]? = some a → p a = true → i + 1 = l.length) : l.countP p ≤ 1 := by
  rcases List.eq_nil_or_concat l with rfl | ⟨front, a, rfl⟩
  · exact Nat.zero_le _
  · have hfront : front.countP p = 0 := by
      refine List.countP_eq_zero.mpr fun b hb hp => ?_
      obtain ⟨i, hi⟩ := List.getElem?_of_mem hb
      have hlt : i < front.length := (List.getElem?_eq_some_iff.mp hi).1
      have := h i b (by rw [List.concat_eq_append, List.getElem?_append_left hlt, hi]) hp
      simp at this
      omega
    rw [List.concat_eq_append, List.countP_append, hfront, List.countP_singleton]
    split <;> simp

theorem Custody.exited_of_earlier {w : World σ} (h : w.Custody) {id : Nat} {c : Course}
    (hc : w.course? id = some c) (hid : id + 1 ≠ w.transport.runs.length) :
    c.shared.stop.hasExited = true := by
  cases hexited : c.shared.stop.hasExited with
  | true => rfl
  | false => exact absurd (h.latest id (h.keeps id c hc hexited)) hid

/-- What only a worker does that has not ended, at most one worker does. -/
theorem Custody.countP_le_one {w : World σ} (h : w.Custody) (p : Worker → Bool)
    (hp : ∀ w t, Worker.Sound w t → t.hasExited = true → p w = false) :
    w.transport.runs.countP (fun run => p run.worker) ≤ 1 := by
  refine countP_le_one_of_last _ _ fun id run hrun hrunp => ?_
  apply Decidable.byContradiction
  intro hid
  have hc : w.course? id = some ⟨run.worker, run.shared, w.history id⟩ := by simp [course?, hrun]
  have hfalse := hp _ _ (h.courses id _ hc).sound (h.exited_of_earlier hc hid)
  rw [hfalse] at hrunp
  cases hrunp

variable [Connector σ]

/-- Whether the world is orderly before each of some moves, and after them. -/
def isOrderlyRun (w : World σ) : List (Move σ) → Bool
  | [] => w.isOrderly
  | move :: moves => w.isOrderly && (w.step move).isOrderlyRun moves

theorem custody_run {w : World σ} (h : w.Custody) (moves : List (Move σ))
    (horder : w.isOrderlyRun moves = true) : (w.run moves).Custody := by
  induction moves generalizing w with
  | nil => exact h
  | cons move moves ih =>
      rw [isOrderlyRun, Bool.and_eq_true] at horder
      exact ih (custody_rule h horder.1 (w.step_rule move)) horder.2

/-- As long as no start overlaps another start or a stop, whatever else threads, network and clock
do: at most one worker is inside a connect, at most one link is open, and the workers of all runs
but the latest one have ended. -/
theorem one_worker_at_a_time (config : LinkConfig) (outbound inbound threads : Nat) (net : σ)
    (moves : List (Move σ))
    (horder : (fresh config outbound inbound threads net).isOrderlyRun moves = true) :
    let w := (fresh config outbound inbound threads net).run moves
    w.dialing ≤ 1 ∧ w.openLinks ≤ 1 ∧ ∀ id c, w.course? id = some c →
      id + 1 ≠ w.transport.runs.length → c.shared.stop.hasExited = true := by
  intro w
  have h : w.Custody := custody_run (custody_fresh config outbound inbound threads net) moves horder
  refine ⟨h.countP_le_one _ ?_, h.countP_le_one _ ?_, fun id c => h.exited_of_earlier⟩
  · intro w t hw hexited
    simp [Worker.isDialing, (hw.exited hexited).1]
  · intro w t hw hexited
    simp [Worker.holdsLink, hw.sessions_of_exited hexited]

/-- Two threads, and a network on which two connects succeed. -/
def quietHub : World Network :=
  fresh .default 16 16 2 { Network.silent with outcomes := [.ok (), .ok ()] }

/-- A start, and its worker is inside a connect. -/
def firstDial : List (Move Network) :=
  [.ask 0 (.start "ws://hub"), .go 0 0 false, .go 0 0 false, .go 0 0 false] ++
    .replicate 4 (.work 0 0)

/-- A stop leaves that worker behind. -/
def abandonment : List (Move Network) :=
  firstDial ++ [.ask 0 .stop] ++ .replicate 9 (.go 0 0 false) ++
    .replicate 10 (.go 0 (milliseconds 1000000) false)

/-- A start waits for the worker that was left behind, and the next one begins to connect. -/
def restart : List (Move Network) :=
  abandonment ++ [.ask 0 (.start "ws://hub"), .go 0 0 false] ++ .replicate 7 (.work 0 0) ++
    .replicate 3 (.go 0 0 false) ++ .replicate 4 (.work 1 0)

theorem one_worker_after_restart :
    quietHub.isOrderlyRun restart = true ∧ (quietHub.run restart).transport.runs.length = 2 ∧
      (quietHub.run restart).dialing = 1 ∧ (quietHub.run restart).openLinks ≤ 1 := by
  have horder : quietHub.isOrderlyRun restart = true := by decide +kernel
  have hruns : (quietHub.run restart).transport.runs.length = 2 := by decide +kernel
  have hdialing : (quietHub.run restart).dialing = 1 := by decide +kernel
  exact ⟨horder, hruns, hdialing, (one_worker_at_a_time _ _ _ _ _ restart horder).2.1⟩

/-- A stop waits for a worker that is inside a connect; then another thread begins a start. -/
def startDuringStop : List (Move Network) :=
  firstDial ++ [.ask 0 .stop] ++ .replicate 7 (.go 0 0 false) ++
    [.ask 1 (.start "ws://hub"), .go 1 0 false, .go 1 0 false] ++ .replicate 4 (.work 1 0)

/-- A start waits for a worker that was left behind; then another thread begins a start. -/
def startDuringStart : List (Move Network) :=
  abandonment ++ [.ask 0 (.start "ws://hub"), .go 0 0 false, .ask 1 (.start "ws://hub"),
    .go 1 0 false, .go 1 0 false] ++ .replicate 4 (.work 1 0)

/-- A start that overlaps a stop, or another start, can bring a second worker into a connect while
the first one is still inside, and both links can come to be open. -/
theorem two_workers_at_once :
    (quietHub.run startDuringStop).dialing = 2 ∧
      (quietHub.run (startDuringStop ++ [.work 0 0, .work 1 0])).openLinks = 2 ∧
      (quietHub.run startDuringStart).dialing = 2 := by
  refine ⟨?_, ?_, ?_⟩ <;> decide +kernel

end World

end Uplink
