import Uplink.Proofs.Worker.Delivery
import Uplink.Proofs.Worker.Landmarks

/-! # On the wire

What a worker gives to its links, frame by frame. Apart from its probes these are the messages that
it took out of the outbound queue, each given once and none before an earlier one. -/

namespace Uplink

/-- Whether a call sends a frame. -/
def NetCall.isSend : NetCall → Bool
  | .send _ _ _ => true
  | .connect _ _ _ | .poll _ | .close => false

/-- The frame that a call gives to a link. -/
def NetCall.frame? : NetCall → Option Octets
  | .send frame _ _ => some frame
  | .connect _ _ _ | .poll _ | .close => none

theorem NetCall.isSend_eq (call : NetCall) : call.isSend = call.frame?.isSome := by
  cases call <;> rfl

namespace Stride

def sends (s : Stride) : Bool :=
  s.calls.any NetCall.isSend

/-- The frames that are given to a link. -/
def frames (s : Stride) : List Octets :=
  s.calls.filterMap NetCall.frame?

/-- Whether a probe is attempted. -/
def isProbe (s : Stride) : Bool :=
  match s.before.phase with
  | .probing => s.sends
  | _ => false

theorem of_isProbe {s : Stride} (h : s.isProbe = true) : s.before.phase = .probing := by
  revert h
  unfold isProbe
  cases s.before.phase <;> simp

theorem sends_of_silent {s : Stride} (h : ∀ call ∈ s.calls, call.frame? = none) :
    s.sends = false := by
  rw [sends, List.any_eq_false]
  intro call hmem
  rw [NetCall.isSend_eq, h call hmem]
  exact Bool.false_ne_true

end Stride

namespace Worker

variable {now : Instant} {w w' : Worker} {s s' : Shared} {h : History}

/-- A stride without a send and without a message. -/
theorem frames_of_silent (hcalls : ∀ call ∈ h.calls, call.frame? = none)
    (hnone : h.messages .transmitted = []) :
    (w.strideTo now h w').isProbe = false ∧
      (w.strideTo now h w').frames = (h.messages .transmitted).map (·.octets) := by
  constructor
  · have hsends : (w.strideTo now h w').sends = false := Stride.sends_of_silent hcalls
    unfold Stride.isProbe
    rw [hsends]
    cases (w.strideTo now h w').before.phase <;> rfl
  · rw [hnone]
    exact List.filterMap_eq_nil_iff.mpr hcalls

/-- A stride sends a probe, or the messages that it transmits and nothing else. -/
theorem frames_rule (hw : w.Sound s.stop) (hrule : w.Rule now s h w' s') :
    (w.strideTo now h w').isProbe = true ∧
        (w.strideTo now h w').frames = [heartbeatProbe.octets] ∧
          h.messages .transmitted = [] ∨
      (w.strideTo now h w').isProbe = false ∧
        (w.strideTo now h w').frames = (h.messages .transmitted).map (·.octets) := by
  cases hrule with
  | @probe session result htodo hphase hsession =>
      have hopen := hw.isOpen_of_calm htodo hsession
      left
      simp [Stride.isProbe, Stride.sends, Stride.frames, strideTo, hphase, Session.sending, hopen,
        NetCall.isSend, NetCall.frame?]
  | @transmit m session result htodo hphase hsession =>
      -- A session that has ended would swallow the message, but it is dropped before.
      have hopen := hw.isOpen_of_calm htodo hsession
      right
      simp [Stride.isProbe, Stride.frames, strideTo, hphase, Session.sending, hopen,
        NetCall.frame?]
  | event event =>
      exact .inr (frames_of_silent (by cases event.isTerminal <;> simp [NetCall.frame?])
        (by cases event.isTerminal <;> simp))
  | _ => exact .inr (frames_of_silent (by simp [NetCall.frame?]) (by simp))

/-- A step that leaves a worker as it was transmits nothing. -/
theorem transmitted_of_still (hrule : w.Rule now s h w' s') (hstill : w' = w) :
    h.messages .transmitted = [] := by
  have hphase := congrArg Worker.phase hstill
  cases hrule with
  | transmit result htodo hbefore => exact absurd (hphase.trans hbefore) nofun
  | event event => cases event.isTerminal <;> simp
  | _ => simp

end Worker

namespace Course

/-- What the strides of a worker have given to links goes with the history of its run. -/
structure Wired (c : Course) (strides : List Stride) : Prop where
  recorded : strides.flatMap Stride.calls = c.history.calls
  probes : ∀ s ∈ strides, s.isProbe = true → s.frames = [heartbeatProbe.octets]
  messages : (strides.filter (!·.isProbe)).flatMap Stride.frames =
    (c.history.messages .transmitted).map (·.octets)

theorem wired_rule {c : Course} {now : Instant} {w : Worker} {s : Shared} {h : History}
    {strides : List Stride} (hc : c.Reachable) (hrule : c.worker.Rule now c.shared h w s)
    (hwired : c.Wired strides) :
    Wired ⟨w, s, c.history ++ h⟩ (strides ++ [c.worker.strideTo now h w]) := by
  have hcalls : (strides ++ [c.worker.strideTo now h w]).flatMap Stride.calls =
      (c.history ++ h).calls := by
    rw [List.flatMap_append, hwired.recorded, History.calls_append]
    simp [Worker.strideTo]
  rcases Worker.frames_rule hc.sound hrule with ⟨hprobe, hframe, hnone⟩ | ⟨hprobe, hframes⟩
  · refine ⟨hcalls, ?_, ?_⟩
    · simpa [or_imp, forall_and, hframe] using hwired.probes
    · simpa [hprobe, hnone] using hwired.messages
  · refine ⟨hcalls, ?_, ?_⟩
    · simpa [or_imp, forall_and, hprobe] using hwired.probes
    · simpa [hprobe, hframes] using hwired.messages

theorem wired_fresh (uri : String) (config : LinkConfig) (outbound inbound : Nat) (now : Instant) :
    (fresh uri config outbound inbound now).Wired [] where
  recorded := rfl
  probes := by simp
  messages := rfl

theorem Wired.of_others {c d : Course} {strides : List Stride} (hwired : c.Wired strides)
    (h : c.Evolves d) (hstill : d.worker = c.worker) : d.Wired strides where
  recorded := by
    rw [calls_of_others h hstill]
    exact hwired.recorded
  probes := hwired.probes
  messages := by
    rw [hwired.messages]
    cases h with
    | work hrule => simp [Worker.transmitted_of_still hrule hstill]
    | _ => simp

end Course

/-! ## Every run -/

/-- What a worker may do to the outbound queue in its next step, whatever the network answers. -/
theorem Worker.Sound.outbound_step {σ : Type} [Connector σ] {w : Worker} {s : Shared}
    (hw : w.Sound s.stop) (net : σ) (now : Instant) :
    let next := w.step s net now
    next.2.1.outbound.items = s.outbound.items ∨
      ∃ m session, s.outbound.items = m :: next.2.1.outbound.items ∧ next.1.phase.hand = [m] ∧
        w.session = some session ∧ session.isOpen = true := by
  have hnet : (_, _, _) = w.step s net now := (Recorded.blank net).step_net w s now
  rw [← hnet]
  exact outbound_rule hw (w.step_rule now s net)

namespace World

variable {σ : Type} [Connector σ] {config : LinkConfig} {outbound inbound threads : Nat} {net : σ}

theorem wired_run (moves : List (Move σ)) {id : Nat} {c : Course}
    (hc : ((fresh config outbound inbound threads net).run moves).course? id = some c) :
    c.Wired ((fresh config outbound inbound threads net).strides id moves) := by
  refine course_induction (P := fun _ strides c => c.Wired strides) ?_ ?_ ?_ moves hc
  · intro w uri now _
    exact Course.wired_fresh uri config outbound inbound now
  · intro w w' strides c now worker shared h hreach hrule _ _ hwired
    exact Course.wired_rule hreach hrule hwired
  · intro w w' strides c d hw _ hrule hc hd hstill hwired
    rcases eq_or_evolves hw hrule hc hd with rfl | hstep
    · exact hwired
    · exact hwired.of_others hstep hstill

/-- Whatever threads, network and clock do, until a stop clears the outbound queue of a run, the
messages transmitted, the one in the worker's hands and the ones queued are the messages accepted,
each once and in order. The calls on record are those of the worker's strides; a stride that probes
gives the heartbeat to a link, and all that the others give to links is the messages transmitted,
each once and in order. A message is taken up only with an open session at hand, nothing is put
into the queue by the worker, and every transmission is counted, the latest one perhaps in the
worker's next step. -/
theorem outbound_in_order (config : LinkConfig) (outbound inbound threads : Nat) (net : σ)
    (moves : List (Move σ)) (id : Nat) (c : Course)
    (hc : ((fresh config outbound inbound threads net).run moves).course? id = some c)
    (hclear : .cleared .outbound ∉ c.history) :
    let strides := (fresh config outbound inbound threads net).strides id moves
    c.history.messages .transmitted ++ c.worker.phase.hand ++ c.shared.outbound.items =
        c.history.messages .accepted ∧
      c.worker.phase.hand.length ≤ 1 ∧
      strides.flatMap Stride.calls = c.history.calls ∧
      (∀ s ∈ strides, s.isProbe = true → s.frames = [heartbeatProbe.octets]) ∧
      (strides.filter (!·.isProbe)).flatMap Stride.frames =
        (c.history.messages .transmitted).map (·.octets) ∧
      (∀ (net : σ) (now : Instant),
        let next := c.worker.step c.shared net now
        next.2.1.outbound.items = c.shared.outbound.items ∨
          ∃ m session, c.shared.outbound.items = m :: next.2.1.outbound.items ∧
            next.1.phase.hand = [m] ∧ c.worker.session = some session ∧ session.isOpen = true) ∧
      c.shared.status.stats.sends + .ofNat c.worker.uncounted =
        .ofNat (c.history.messages .transmitted).length ∧
      c.worker.uncounted ≤ 1 ∧ (c.worker.todo = [] → c.worker.uncounted = 0) := by
  intro strides
  have hreach := reachable_course config outbound inbound threads net moves hc
  have hwired : c.Wired strides := wired_run moves hc
  have hcounted : c.worker.todo = [] → c.worker.uncounted = 0 := by
    intro htodo
    simp [Worker.uncounted, htodo]
  exact ⟨hreach.inOrder hclear, c.worker.phase.length_hand_le, hwired.recorded, hwired.probes,
    hwired.messages, hreach.sound.outbound_step, hreach.counted.sends_eq,
    hreach.counted.uncounted_le, hcounted⟩

/-- Three messages are sent to a hub that is there. -/
def busyHub : World Network :=
  fresh .default 16 16 1 { Network.silent with outcomes := [.ok ()] }

/-- The worker passes on the first message, probes, and takes up the second one. -/
def untilSecondMessage : List (Move Network) :=
  [.ask 0 (.start "ws://hub"), .go 0 0 false, .go 0 0 false, .go 0 0 false,
    .ask 0 (.send (.ofOctets [1]) false), .go 0 0 false,
    .ask 0 (.send (.ofOctets [2]) false), .go 0 0 false,
    .ask 0 (.send (.ofOctets [3]) false), .go 0 0 false] ++
    .replicate 16 (.work 0 0) ++ .replicate 9 (.work 0 (milliseconds 10000))

/-- One message is in each of the three places, and the probe is no message. -/
theorem order_of_busy :
    ∃ c, (busyHub.run untilSecondMessage).course? 0 = some c ∧ .cleared .outbound ∉ c.history ∧
      (c.history.messages .transmitted).length = 1 ∧ c.worker.phase.hand.length = 1 ∧
      c.shared.outbound.items.length = 1 ∧
      c.history.messages .transmitted ++ c.worker.phase.hand ++ c.shared.outbound.items =
        c.history.messages .accepted ∧
      (c.history.calls.filterMap NetCall.frame?).length = 2 ∧
      ((busyHub.strides 0 untilSecondMessage).filter (!·.isProbe)).flatMap Stride.frames =
        (c.history.messages .transmitted).map (·.octets) := by
  obtain ⟨c, hc⟩ : ∃ c, (busyHub.run untilSecondMessage).course? 0 = some c :=
    exists_course? (by decide +kernel)
  have hfacts : ((busyHub.run untilSecondMessage).course? 0).map (fun c =>
      (decide (.cleared .outbound ∈ c.history), (c.history.messages .transmitted).length,
        c.worker.phase.hand.length, c.shared.outbound.items.length,
        (c.history.calls.filterMap NetCall.frame?).length)) = some (false, 1, 1, 1, 2) := by
    decide +kernel
  simp only [hc, Option.map_some, Option.some.injEq, Prod.mk.injEq,
    decide_eq_false_iff_not] at hfacts
  obtain ⟨hclear, htransmitted, hhand, hqueued, hframes⟩ := hfacts
  obtain ⟨horder, -, -, -, hmessages, -⟩ :=
    outbound_in_order _ _ _ _ _ untilSecondMessage 0 c hc hclear
  exact ⟨c, hc, hclear, htransmitted, hhand, hqueued, horder, hframes, hmessages⟩

end World

end Uplink
