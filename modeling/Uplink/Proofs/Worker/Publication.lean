import Mathlib.Data.List.Chain
import Uplink.Proofs.Worker.Strides

/-! # What a run publishes

As long as nobody stops a run, only its worker publishes states, and it publishes what is true of
it: each state follows from the one before, and whenever the worker has done what it decided on,
the cells tell whether it has a link. -/

namespace Uplink

namespace TransportState

/-- The states that may follow in a run that nobody stops. -/
def next : TransportState → List TransportState
  | .starting | .disconnected => [.connecting]
  | .connecting => [.connected, .disconnected]
  | .connected => [.disconnected]
  | .stopping | .stopped => []

end TransportState

/-- The state that a write stores. -/
def Write.state? : Write → Option TransportState
  | .state s => some s
  | _ => none

def Deed.state? : Deed → Option TransportState
  | .wrote x => x.state?
  | .called _ => none

/-- The states that were stored. -/
def Deed.states (deeds : List Deed) : List TransportState :=
  deeds.filterMap Deed.state?

theorem Deed.states_append (deeds more : List Deed) :
    states (deeds ++ more) = states deeds ++ states more :=
  List.filterMap_append

def Effect.state? : Effect → Option TransportState
  | .write x => x.state?
  | .deliver _ | .dropSession => none

/-- What an effect makes of the two cells of a state. -/
def Effect.show (cells : TransportState × Bool) : Effect → TransportState × Bool
  | .write (.state s) => (s, cells.2)
  | .write (.connected s) => (cells.1, s = .connected)
  | _ => cells

namespace Worker

/-- The states that a worker has decided to store. -/
def planned (w : Worker) : List TransportState :=
  w.todo.filterMap Effect.state?

/-- The state that a worker stores in its next step. -/
def storing (w : Worker) : List TransportState :=
  w.writing.filterMap Write.state?

theorem states_doing (w : Worker) (calls : List NetCall) :
    Deed.states (w.doing calls) = w.storing := by
  have hcalled : Deed.states (calls.map .called) = [] := by simp [Deed.states, Deed.state?]
  rw [doing, Deed.states_append, hcalled, List.nil_append, Deed.states, List.filterMap_map]
  rfl

/-- What the two cells of the state will show when the worker has done what it decided on. -/
def promise (w : Worker) (status : Status) : TransportState × Bool :=
  w.todo.foldl Effect.show (status.state, status.isConnected)

/-- What the two cells of a state show of a worker, once it has done what it decided on. -/
structure Shown (w : Worker) (cells : TransportState × Bool) : Prop where
  flag : cells.2 = true ↔ cells.1 = .connected
  /-- It is shown as connected when it keeps its session. -/
  connected : cells.1 = .connected ↔ w.session.isSome = true ∧ .dropSession ∉ w.todo
  connecting : cells.1 = .connecting ↔ w.phase.isOpening = true
  ongoing : cells.1 ≠ .stopping ∧ cells.1 ≠ .stopped

/-- What was published is true of the worker, after these states. -/
structure Truthful (w : Worker) (status : Status) (states : List TransportState) : Prop where
  /-- The states are a path, with those to come. -/
  path : (.starting :: (states ++ w.planned)).IsChain fun s t => t ∈ s.next
  latest : status.state = states.getLastD .starting
  shown : w.Shown (w.promise status)

theorem truthful_fresh (uri : String) (config : LinkConfig) (now epoch : Instant) :
    (fresh uri config now).Truthful (.starting epoch) [] where
  path := List.isChain_singleton _
  latest := rfl
  shown := by constructor <;> simp [fresh, promise, Status.starting, Phase.isOpening]

section
variable {now : Instant} {w w' : Worker} {s s' : Shared} {h : History}
  {states : List TransportState}

theorem promise_write (s : Shared) {x : Write} {todo : List Effect}
    (htodo : w.todo = .write x :: todo) :
    ({ w with todo } : Worker).promise (s.write x).status = w.promise s.status := by
  have hcells : Effect.show (s.status.state, s.status.isConnected) (.write x) =
      ((s.write x).status.state, (s.write x).status.isConnected) := by
    cases x <;> rfl
  rw [promise, promise, htodo, List.foldl_cons, hcells]

theorem storing_append_planned {x : Write} {todo : List Effect}
    (htodo : w.todo = .write x :: todo) :
    w.storing ++ ({ w with todo } : Worker).planned = w.planned := by
  cases hx : x.state? <;> simp [storing, writing, planned, htodo, Effect.state?, hx]

/-- A state that is stored was promised before. -/
theorem truthful_write (hw : w.Truthful s.status states) {x : Write} {todo : List Effect}
    (htodo : w.todo = .write x :: todo) :
    ({ w with todo } : Worker).Truthful (s.write x).status (states ++ w.storing) where
  path := by
    rw [List.append_assoc, storing_append_planned htodo]
    exact hw.path
  latest := by
    have hl := hw.latest
    cases x with
    | state t => simp [storing, writing, htodo, Write.state?, Shared.write, Status.storeState]
    | _ =>
        simp_all [storing, writing, Write.state?, Shared.write, Status.storeConnected,
          Status.count, Status.touch]
  shown := by
    have hc := hw.shown.connected
    rw [promise_write s htodo]
    exact { hw.shown with connected := by simpa [htodo] using hc }

/-- A plan stores one state at most, one that follows from the state that is shown. -/
def Follows (state : TransportState) (plan : List TransportState) : Prop :=
  plan = [] ∨ ∃ t ∈ state.next, plan = [t]

theorem Truthful.path_append (hw : w.Truthful s.status states) (htodo : w.todo = [])
    {plan : List TransportState} (hplan : Follows s.status.state plan) :
    (.starting :: (states ++ plan)).IsChain fun s t => t ∈ s.next := by
  have hpath := hw.path
  rw [planned, htodo, List.filterMap_nil, List.append_nil] at hpath
  rcases hplan with rfl | ⟨t, ht, rfl⟩
  · rwa [List.append_nil]
  · rw [← List.cons_append, List.isChain_append]
    refine ⟨hpath, List.isChain_singleton t, ?_⟩
    intro u hu v hv
    have hlast : (.starting :: states).getLast? = some s.status.state := by
      rw [List.getLast?_cons, hw.latest, List.getLastD_eq_getLast?]
    obtain rfl := Option.some.inj (hlast.symm.trans hu)
    obtain rfl := Option.some.inj hv
    exact ht

/-- A worker that has nothing left to do shows where it stands. -/
theorem Truthful.next_of_calm (hw : w.Truthful s.status states) (htodo : w.todo = []) :
    (w.session.isSome = true → s.status.state.next = [.disconnected]) ∧
      (w.phase.isOpening = true → s.status.state.next = [.connected, .disconnected]) ∧
      (w.session = none → w.phase.isOpening = false → s.status.state.next = [.connecting]) := by
  obtain ⟨-, hconnected, hconnecting, hongoing⟩ := hw.shown
  simp only [promise, htodo, List.foldl_nil, List.not_mem_nil, not_false_eq_true, and_true]
    at hconnected hconnecting hongoing
  refine ⟨?_, ?_, ?_⟩
  · intro hsession
    rw [hconnected.mpr hsession]
    rfl
  · intro hphase
    rw [hconnecting.mpr hphase]
    rfl
  · intro hsession hphase
    cases hstate : s.status.state <;> simp_all [TransportState.next]

theorem planned_rule (hw : w.Truthful s.status states) (hasked : s.stop.isRequested = false)
    (htodo : w.todo = []) (hrule : w.Rule now s h w' s') :
    Follows s.status.state w'.planned := by
  obtain ⟨hheld, hopening, hidle⟩ := hw.next_of_calm htodo
  cases hrule with
  | dial _ hphase _ hsession =>
      rw [Follows, hidle hsession (by rw [hphase]; rfl)]
      exact .inr ⟨.connecting, by simp, rfl⟩
  | refused _ hphase =>
      rw [Follows, hopening (by rw [hphase]; rfl)]
      exact .inr ⟨.disconnected, by simp, rfl⟩
  | greet _ hphase =>
      rw [Follows, hopening (by rw [hphase]; rfl)]
      exact .inr ⟨.connected, by simp, rfl⟩
  | stale _ _ hsession =>
      rw [Follows, hheld (by rw [hsession]; rfl)]
      exact .inr ⟨.disconnected, by simp, rfl⟩
  | event event _ _ hsession =>
      rw [Follows, hheld (by rw [hsession]; rfl)]
      cases event with
      | disconnected | failed => exact .inr ⟨.disconnected, by simp, rfl⟩
      | connected | data | keepAlive => exact .inl rfl
  | probe =>
      left
      simp only [planned, probeEffects]
      split <;> rfl
  | _ => exact .inl (by simp_all [planned, Effect.state?, Write.state?])

theorem path_rule (hw : w.Truthful s.status states) (hasked : s.stop.isRequested = false)
    (hrule : w.Rule now s h w' s') :
    (.starting :: (states ++ w.storing ++ w'.planned)).IsChain fun s t => t ∈ s.next := by
  by_cases hcalm : w.todo = []
  · have hstoring : w.storing = [] := by simp [storing, writing, hcalm]
    rw [hstoring, List.append_nil]
    exact hw.path_append hcalm (planned_rule hw hasked hcalm hrule)
  · have hpath := hw.path
    cases hrule with
    | write htodo => exact (truthful_write hw htodo).path
    | deliver htodo | overflow htodo | hangUp htodo | idleDrop htodo =>
        simpa [storing, writing, planned, htodo, List.filterMap_cons, Effect.state?,
          Write.state?] using hpath
    | _ => exact absurd (by assumption) hcalm

theorem latest_rule (hw : w.Truthful s.status states) (hrule : w.Rule now s h w' s') :
    s'.status.state = (states ++ w.storing).getLastD .starting := by
  have hl := hw.latest
  cases hrule with
  | write htodo => exact (truthful_write hw htodo).latest
  | _ => simp_all [storing, writing]

theorem shown_rule (hs : w.Sound s.stop) (hw : w.Truthful s.status states)
    (hasked : s.stop.isRequested = false) (hrule : w.Rule now s h w' s') :
    w'.Shown (w'.promise s'.status) := by
  have hvacant := hs.vacant
  obtain ⟨hflag, hconnected, hconnecting, hongoing⟩ := hw.shown
  cases hrule with
  | write htodo => exact (truthful_write hw htodo).shown
  | event event =>
      cases event <;> constructor <;>
        simp_all [promise, eventEffects, LinkEvent.isActivity, Effect.publish, Write.publish,
          Effect.show, Phase.isOpening]
  | probe =>
      simp only [probeEffects]
      split <;> constructor <;> simp_all [promise, Effect.show, Phase.isOpening]
  | _ =>
      constructor <;>
        simp_all [promise, greet, Effect.publish, Write.publish, Effect.show, Phase.isOpening]

/-- As long as no stop is requested, what is published stays true. -/
theorem truthful_rule (hs : w.Sound s.stop) (hw : w.Truthful s.status states)
    (hasked : s.stop.isRequested = false) (hrule : w.Rule now s h w' s') :
    w'.Truthful s'.status (states ++ w.storing) where
  path := path_rule hw hasked hrule
  latest := latest_rule hw hrule
  shown := shown_rule hs hw hasked hrule

/-- A worker does not ask itself to stop. -/
theorem isRequested_rule (hs : w.Sound s.stop) (hrule : w.Rule now s h w' s') :
    s'.stop.isRequested = s.stop.isRequested := by
  cases hrule with
  | @write x todo htodo =>
      have hown := hs.own x (htodo ▸ List.mem_cons_self)
      cases x with
      | requested => cases hown
      | _ => rfl
  | _ => rfl

/-- A step that leaves a worker as it was leaves what is published. -/
theorem status_of_still (hrule : w.Rule now s h w' s') (hstill : w' = w) :
    s'.status = s.status ∧ s'.stop.isRequested = s.stop.isRequested := by
  have htodo := congrArg Worker.todo hstill
  cases hrule with
  | write => simp_all
  | _ => exact ⟨rfl, rfl⟩

/-- With nothing left to do, a worker is shown as connected just when it has an open link. -/
theorem Truthful.connected_iff (hs : w.Sound s.stop) (hw : w.Truthful s.status states)
    (htodo : w.todo = []) :
    (s.status.state = .connected ↔ ∃ session, w.session = some session ∧ session.isOpen = true) ∧
      (s.status.isConnected = true ↔
        ∃ session, w.session = some session ∧ session.isOpen = true) := by
  obtain ⟨hflag, hconnected, -, -⟩ := hw.shown
  simp only [promise, htodo, List.foldl_nil, List.not_mem_nil, not_false_eq_true, and_true]
    at hflag hconnected
  have hopen : w.session.isSome = true ↔
      ∃ session, w.session = some session ∧ session.isOpen = true := by
    constructor
    · intro hsome
      obtain ⟨session, hsession⟩ := Option.isSome_iff_exists.mp hsome
      have hlive := hs.live session hsession
      rw [htodo] at hlive
      exact ⟨session, hsession, hlive.resolve_left List.not_mem_nil⟩
    · rintro ⟨session, hsession, -⟩
      rw [hsession]
      rfl
  exact ⟨hconnected.trans hopen, hflag.trans (hconnected.trans hopen)⟩

end

end Worker

end Uplink
