import Mathlib.Data.List.Infix
import Uplink.Proofs.Worker.Discipline
import Uplink.Proofs.Worker.Landmarks

/-! # Walks

The strides of a worker one after another, and the two moments that they leave with it: when the
peer was heard of last, and from when on the next probe is counted. -/

namespace Uplink

/-- Whether a call shows that there is a peer: a link comes about, or reports a sign of life. -/
def NetCall.isSign : NetCall → Bool
  | .connect _ _ (.ok ()) => true
  | .poll (some event) => event.isActivity
  | .connect _ _ (.error _) | .poll none | .send _ _ _ | .close => false

namespace Stride

/-- Whether the peer shows itself. -/
def isSign (s : Stride) : Bool :=
  s.calls.any NetCall.isSign

/-- Whether a probe is decided on. -/
def isProbing (s : Stride) : Bool :=
  match s.before.phase, s.after.phase with
  | .judging, .probing => true
  | _, _ => false

/-- Whether the time until the next probe begins: a session is taken up, or a probe decided on. -/
def isMark (s : Stride) : Bool :=
  s.isProbing || s.before.session.isNone && s.after.session.isSome

/-- The moment of the latest one of some strides. -/
def latest? (p : Stride → Bool) (strides : List Stride) : Option Instant :=
  (strides.filter p).getLast?.map Stride.now

variable {p : Stride → Bool} {strides : List Stride} {s : Stride} {t : Instant}

theorem latest?_concat_of_pos (hs : p s = true) : latest? p (strides ++ [s]) = some s.now := by
  simp [latest?, hs]

theorem latest?_concat_of_neg (hs : p s = false) :
    latest? p (strides ++ [s]) = latest? p strides := by
  simp [latest?, hs]

theorem exists_of_latest? (h : latest? p strides = some t) : ∃ s ∈ strides, s.now = t := by
  obtain ⟨s, hs, rfl⟩ := Option.map_eq_some_iff.mp h
  exact ⟨s, (List.mem_filter.mp (List.mem_of_getLast? hs)).1, rfl⟩

theorem isProbing_of_same (h : s.after.phase = s.before.phase) : s.isProbing = false := by
  unfold isProbing
  rw [h]
  cases s.before.phase <;> rfl

end Stride

namespace Worker

/-! ## Walks -/

/-- A worker comes from `w` to another place by these strides, whatever others do meanwhile. -/
inductive Walk (w : Worker) : List Stride → Worker → Prop
  | stay : Walk w [] w
  | step {strides v now s h v' s'} (hwalk : Walk w strides v) (hsound : v.Sound s.stop)
      (hrule : v.Rule now s h v' s') : Walk w (strides ++ [v.strideTo now h v']) v'

variable {w v u : Worker} {front back strides : List Stride}

/-- A walk can be cut anywhere. -/
theorem Walk.exists_middle (h : Walk w (front ++ back) u) :
    ∃ v, Walk w front v ∧ Walk v back u := by
  generalize hall : front ++ back = all at h
  induction h generalizing back with
  | stay =>
      obtain ⟨rfl, rfl⟩ := List.append_eq_nil_iff.mp hall
      exact ⟨w, .stay, .stay⟩
  | step hwalk hsound hrule ih =>
      rcases List.eq_nil_or_concat back with rfl | ⟨back, last, rfl⟩
      · rw [List.append_nil] at hall
        exact ⟨_, hall ▸ hwalk.step hsound hrule, .stay⟩
      · rw [List.concat_eq_append, ← List.append_assoc] at hall
        obtain ⟨hbefore, hlast⟩ := List.append_inj' hall rfl
        obtain ⟨v, hfront, hback⟩ := ih hbefore
        obtain rfl := List.singleton_inj.mp hlast
        rw [List.concat_eq_append]
        exact ⟨v, hfront, hback.step hsound hrule⟩

/-- The last stride of a walk follows a rule. -/
theorem Walk.exists_rule {x : Stride} (h : Walk w (front ++ [x]) u) :
    ∃ s h s', Walk w front x.before ∧ x.before.Sound s.stop ∧ x.before.Rule x.now s h u s' ∧
      x = x.before.strideTo x.now h u := by
  generalize hall : front ++ [x] = all at h
  cases h with
  | stay => simp at hall
  | step hwalk hsound hrule =>
      obtain ⟨rfl, hlast⟩ := List.append_inj' hall rfl
      obtain rfl := List.singleton_inj.mp hlast
      exact ⟨_, _, _, hwalk, hsound, hrule, rfl⟩

theorem config_rule {now : Instant} {w' : Worker} {s s' : Shared} {h : History}
    (hrule : w.Rule now s h w' s') : w'.config = w.config := by
  cases hrule <;> rfl

theorem Walk.config_eq (h : Walk w strides v) : v.config = w.config := by
  induction h with
  | stay => rfl
  | step _ _ hrule ih => rw [config_rule hrule, ih]

/-! ## The two moments -/

/-- The strides of a worker tell when its peer was heard of last, and from when on its next probe
is counted. -/
structure Timed (strides : List Stride) (w : Worker) : Prop where
  heard : ∀ session ∈ w.sessions,
    Stride.latest? Stride.isSign strides = some session.lastActivity
  marked : w.session.isSome = true →
    Stride.latest? Stride.isMark strides = some w.lastProbe

/-- A link tells of its peer by the event that it reports, and not by its end. -/
theorem isSign_event (event : LinkEvent) :
    (NetCall.poll (some event) :: if event.isTerminal then [.close] else []).any NetCall.isSign =
      event.isActivity := by
  cases event <;> rfl

section
variable {now : Instant} {w' : Worker} {s s' : Shared} {h : History}

theorem heard_of_quiet (hw : Timed strides w) (hsign : h.calls.any NetCall.isSign = false)
    (hsessions : ∀ session ∈ w'.sessions, session ∈ w.sessions) :
    ∀ session ∈ w'.sessions, Stride.latest? Stride.isSign (strides ++ [w.strideTo now h w']) =
      some session.lastActivity := by
  intro session hmem
  rw [Stride.latest?_concat_of_neg hsign]
  exact hw.heard session (hsessions session hmem)

theorem marked_of_quiet (hw : Timed strides w)
    (hprobing : (w.strideTo now h w').isProbing = false)
    (hsession : w'.session.isSome = true → w.session.isSome = true)
    (hprobe : w'.lastProbe = w.lastProbe) :
    w'.session.isSome = true →
      Stride.latest? Stride.isMark (strides ++ [w.strideTo now h w']) = some w'.lastProbe := by
  intro hsome
  have hheld : w.session.isSome = true := hsession hsome
  have hmark : (w.strideTo now h w').isMark = false := by
    have hnone : w.session.isNone = false := by simpa using hheld
    rw [Stride.isMark, hprobing, strideTo, hnone]
    rfl
  rw [Stride.latest?_concat_of_neg hmark, hprobe]
  exact hw.marked hheld

theorem timed_rule (hs : w.Sound s.stop) (hw : Timed strides w) (hrule : w.Rule now s h w' s') :
    Timed (strides ++ [w.strideTo now h w']) w' := by
  cases hrule with
  | write | deliver | overflow | idleDrop | gone =>
      exact ⟨heard_of_quiet hw (by simp) fun _ => id,
        marked_of_quiet hw (Stride.isProbing_of_same rfl) id rfl⟩
  | connect outcome htodo hphase =>
      have hnone : w.session = none := hs.vacant (by rw [hphase]; rfl)
      refine ⟨?_, fun hsome => by simp [hnone] at hsome⟩
      cases outcome with
      | error e => simp [sessions, hnone, Except.map, Phase.offer?]
      | ok =>
          intro session hmem
          obtain rfl : session = ⟨w.uri, true, now⟩ := by
            simpa [sessions, hnone, Except.map, Phase.offer?] using hmem
          exact Stride.latest?_concat_of_pos rfl
  | @greet session htodo hphase =>
      have hnone : w.session = none := hs.vacant (by rw [hphase]; rfl)
      refine ⟨heard_of_quiet hw (by simp) ?_, fun _ => ?_⟩
      · simp [sessions, greet, hnone, hphase, Phase.offer?]
      · refine Stride.latest?_concat_of_pos ?_
        simp [Stride.isMark, strideTo, hnone, greet]
  | @event left session event htodo hphase hsession hopen =>
      constructor
      · intro next hmem
        obtain rfl : next = session.after event now := by
          simpa [sessions, Phase.offer?] using hmem
        cases halive : event.isActivity with
        | true =>
            rw [Stride.latest?_concat_of_pos ?_]
            · simp [strideTo, Session.after, halive]
            · simpa [Stride.isSign, strideTo, halive] using isSign_event event
        | false =>
            rw [Stride.latest?_concat_of_neg ?_]
            · simpa [Session.after, halive] using
                hw.heard session (by simp [sessions, hsession])
            · simpa [Stride.isSign, strideTo, halive] using isSign_event event
      · refine marked_of_quiet hw ?_ (fun _ => by simp [hsession]) rfl
        simp [Stride.isProbing, strideTo, hphase]
  | @due session htodo hphase hsession =>
      refine ⟨heard_of_quiet hw (by simp) ?_, fun _ => ?_⟩
      · simp [sessions, hsession, hphase, Phase.offer?]
      · refine Stride.latest?_concat_of_pos ?_
        simp [Stride.isMark, Stride.isProbing, strideTo, hphase]
  | hangUp =>
      refine ⟨heard_of_quiet hw (by simp [NetCall.isSign]) ?_, by simp⟩
      simp +contextual [sessions]
  | overtaken _ hphase =>
      have hnone : w.session = none := hs.vacant (by rw [hphase]; rfl)
      refine ⟨?_, fun hsome => by simp [hnone] at hsome⟩
      simp [sessions, hnone, Phase.offer?]
  | quiet _ hphase | probe _ _ hphase | transmit _ _ hphase =>
      refine ⟨heard_of_quiet hw (by simp [NetCall.isSign]) ?_, marked_of_quiet hw ?_ id rfl⟩
      · simp [sessions, hphase, Phase.offer?]
      · simp [Stride.isProbing, strideTo, hphase]
  | _ =>
      refine ⟨heard_of_quiet hw (by simp) ?_, marked_of_quiet hw ?_ id rfl⟩
      · simp_all [sessions, Phase.offer?]
      · simp_all [Stride.isProbing, strideTo]

theorem Walk.timed (h : Walk w strides v) (hw : Timed front w) : Timed (front ++ strides) v := by
  induction h with
  | stay => simpa using hw
  | step _ hsound hrule ih => simpa using timed_rule hsound ih hrule

/-! ## From one probe to the next -/

end

end Worker

namespace World

variable {σ : Type} [Connector σ] {config : LinkConfig} {outbound inbound threads : Nat} {net : σ}

/-- The strides of the worker of a run, from its launch on. -/
theorem walk_run (moves : List (Move σ)) {id : Nat} {c : Course}
    (hc : ((fresh config outbound inbound threads net).run moves).course? id = some c) :
    ∃ uri now, Worker.Walk (.fresh uri config now)
      ((fresh config outbound inbound threads net).strides id moves) c.worker := by
  refine course_induction
    (P := fun _ strides c => ∃ uri now, Worker.Walk (.fresh uri config now) strides c.worker)
    ?_ ?_ ?_ moves hc
  · exact fun w uri now _ => ⟨uri, now, .stay⟩
  · rintro w w' strides c now worker shared h hreach hrule _ _ ⟨uri, launched, hwalk⟩
    exact ⟨uri, launched, hwalk.step hreach.sound hrule⟩
  · rintro w w' strides c d _ _ _ _ _ hstill ⟨uri, now, hwalk⟩
    exact ⟨uri, now, hstill ▸ hwalk⟩

end World

end Uplink
