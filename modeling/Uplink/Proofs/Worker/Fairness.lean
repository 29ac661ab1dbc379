import Uplink.Proofs.Worker.Outbound
import Uplink.Proofs.Worker.Tick

/-! # Probes and messages

A probe that is due goes before the messages that wait. Where a send takes less than a heartbeat
interval, no two probes go out without an attempt at a message in between as long as there are
messages. Where it may take a whole interval they do. -/

namespace Uplink

/-- Whether a worker stands where time may pass before it goes on: in a connect, or asleep. -/
def Worker.isResting (w : Worker) : Bool :=
  match w.todo, w.phase with
  | [], .connecting | [], .waiting _ _ _ .asleep => true
  | _, _ => false

namespace Stride

/-- Whether a message from the outbound queue is attempted. -/
def isTransmission (s : Stride) : Bool :=
  match s.before.phase with
  | .transmitting _ => s.sends
  | _ => false

/-- The longest time that a stride may take. -/
def allowance (config : LinkConfig) (s : Stride) : Nat :=
  if s.sends then Worker.duration config.sendTimeout else 0

/-- Between two strides time passes only in a send, which keeps to its time limit, in a connect, or
while the worker sleeps. -/
def Brisk (config : LinkConfig) (s next : Stride) : Prop :=
  next.before.isResting = true ∨ next.now ≤ s.now + s.allowance config

instance (config : LinkConfig) (s next : Stride) : Decidable (Brisk config s next) :=
  inferInstanceAs (Decidable (_ ∨ _))

end Stride

namespace Worker

variable {now : Instant} {w w' v u : Worker} {s s' : Shared} {h : History}
  {front strides : List Stride} {last x : Stride}

/-- Only a probe and a message are sent. -/
theorem sends_cases (hs : w.Sound s.stop) (hrule : w.Rule now s h w' s') :
    (w.strideTo now h w').sends = false ∨ (w.strideTo now h w').isProbe = true ∨
      (w.strideTo now h w').isTransmission = true := by
  cases hrule with
  | event event =>
      refine .inl (Stride.sends_of_silent ?_)
      cases event <;> simp [strideTo, NetCall.frame?, LinkEvent.isTerminal]
  | @probe session result htodo hphase hsession =>
      have hopen := hs.isOpen_of_calm htodo hsession
      exact .inr (.inl (by
        simp [Stride.isProbe, Stride.sends, strideTo, hphase, Session.sending, hopen,
          NetCall.isSend]))
  | @transmit m session result htodo hphase hsession =>
      have hopen := hs.isOpen_of_calm htodo hsession
      exact .inr (.inr (by
        simp [Stride.isTransmission, Stride.sends, strideTo, hphase, Session.sending, hopen,
          NetCall.isSend]))
  | _ => exact .inl (Stride.sends_of_silent (by simp [strideTo, NetCall.frame?]))

/-- With a session a worker does not wait without a look at the queue. -/
def Alert (w : Worker) : Prop :=
  ∀ purpose bound alarm stage, w.phase = .waiting purpose bound alarm stage →
    stage = .outbound ∨ w.session = none

theorem Alert.isResting (hw : w.Alert) (hs : w.Sound s.stop) (hsession : w.session.isSome = true) :
    w.isResting = false := by
  unfold Worker.isResting
  split
  · next hphase => simp [hs.vacant (by rw [hphase]; rfl)] at hsession
  · next hphase =>
      rcases hw _ _ _ _ hphase with hstage | hnone
      · cases hstage
      · simp [hnone] at hsession
  · rfl

/-- Where messages are there, a look at the queue leads to one. -/
theorem alert_rule (hs : w.Sound s.stop) (hw : w.Alert) (hqueue : s.outbound.items ≠ [])
    (hrule : w.Rule now s h w' s') : w'.Alert := by
  cases hrule with
  | hangUp => exact fun _ _ _ _ _ => .inr rfl
  | write | deliver | overflow | idleDrop | gone => exact hw
  | refused htodo hphase =>
      exact fun _ _ _ _ _ => .inr (hs.vacant (by rw [hphase]; rfl))
  | rest =>
      rintro _ _ _ _ ⟨⟩
      exact .inl rfl
  | park htodo hphase hitem =>
      exact absurd (List.isEmpty_iff.mp (Queue.tryPop?_eq_none_iff.mp hitem)) hqueue
  | arm htodo hphase | unasked htodo hphase | listen htodo hphase | wake htodo hphase =>
      exact fun _ _ _ _ _ => .inr ((hw _ _ _ _ hphase).resolve_left nofun)
  | _ => exact nofun

/-- A session that is there was there before, or has just begun. -/
theorem session_cases (hrule : w.Rule now s h w' s') (hsession : w'.session.isSome = true) :
    w'.lastProbe = now ∨ w.session.isSome = true ∧ w'.lastProbe = w.lastProbe := by
  cases hrule with
  | due | greet => exact .inl rfl
  | hangUp => cases hsession
  | event event htodo hphase hheld => exact .inr ⟨by simp [hheld], rfl⟩
  | _ => exact .inr ⟨hsession, rfl⟩

/-- Only a probe that is due is made. -/
theorem due_of_probing (hs : w.Sound s.stop) (hrule : w.Rule now s h w' s')
    (hphase : w'.phase = .probing) :
    w'.lastProbe = now ∧ h = [] ∧ w.session.isSome = true ∧
      duration w.config.heartbeatInterval ≤ now - w.lastProbe := by
  have hcalm : ∀ {effect todo}, w.todo = effect :: todo → w.phase ≠ .probing := by
    intro effect todo htodo heq
    rw [hs.calm (by rw [heq]; rfl)] at htodo
    cases htodo
  cases hrule with
  | due htodo hjudging hsession hidle hdue => exact ⟨rfl, rfl, by simp [hsession], hdue⟩
  | write htodo | deliver htodo | overflow htodo | hangUp htodo | idleDrop htodo =>
      exact absurd hphase (hcalm htodo)
  | gone htodo hexited => simp [hexited] at hphase
  | _ => cases hphase

/-- A worker that has not attempted a message since its latest probe, while there were some. -/
structure Hungry (config : LinkConfig) (last : Stride) (w : Worker) : Prop where
  /-- No more time has passed since the probe than that took, and none since a connect. -/
  prompt : w.session.isSome = true →
    last.now + last.allowance config ≤ w.lastProbe + duration config.sendTimeout
  alert : w.Alert
  unhurried : w.phase ≠ .probing

/-- Such a worker does not come to the next probe. -/
theorem hungry_rule {config : LinkConfig} (hs : w.Sound s.stop) (hw : Hungry config last w)
    (hqueue : s.outbound.items ≠ []) (hconfig : w.config = config)
    (htimeout : duration config.sendTimeout < duration config.heartbeatInterval)
    (hbrisk : last.Brisk config (w.strideTo now h w')) (hrule : w.Rule now s h w' s') :
    (w.strideTo now h w').isTransmission = true ∨ Hungry config (w.strideTo now h w') w' := by
  have hbound (hsession : w.session.isSome = true) :
      now ≤ w.lastProbe + duration config.sendTimeout := by
    have hresting : (w.strideTo now h w').before.isResting = false :=
      hw.alert.isResting hs hsession
    have hnext : now ≤ last.now + last.allowance config :=
      hbrisk.resolve_left (by simp [hresting])
    exact Nat.le_trans hnext (hw.prompt hsession)
  rcases sends_cases hs hrule with hquiet | hprobe | htransmission
  · refine .inr ⟨fun hsession => ?_, alert_rule hs hw.alert hqueue hrule, fun hphase => ?_⟩
    · rw [Stride.allowance, hquiet]
      rcases session_cases hrule hsession with hnow | ⟨hheld, hsame⟩
      · rw [hnow]
        exact Nat.le_add_right _ _
      · rw [hsame]
        exact hbound hheld
    · obtain ⟨-, -, hheld, hdue⟩ := due_of_probing hs hrule hphase
      have hearly : now - w.lastProbe ≤ duration config.sendTimeout :=
        Nat.sub_le_iff_le_add'.mpr (hbound hheld)
      rw [hconfig] at hdue
      exact Nat.not_lt.mpr (Nat.le_trans hdue hearly) htimeout
  · exact absurd (Stride.of_isProbe hprobe) hw.unhurried
  · exact .inl htransmission

/-- A worker comes from `w` to another place while there are messages in the outbound queue. -/
inductive Laden (w : Worker) : List Stride → Worker → Prop
  | stay : Laden w [] w
  | step {strides v now s h v' s'} (hladen : Laden w strides v) (hsound : v.Sound s.stop)
      (hqueue : s.outbound.items ≠ []) (hrule : v.Rule now s h v' s') :
      Laden w (strides ++ [v.strideTo now h v']) v'

theorem Laden.exists_concat (h : Laden w (strides ++ [x]) u) : Laden w strides x.before := by
  generalize hall : strides ++ [x] = all at h
  cases h with
  | stay => simp at hall
  | step hladen =>
      obtain ⟨rfl, hlast⟩ := List.append_inj' hall rfl
      obtain rfl := List.singleton_inj.mp hlast
      exact hladen

/-- After a probe a worker goes on without another one until it has attempted a message. -/
theorem Laden.hungry {config : LinkConfig} {first : Stride} (h : Laden w strides v)
    (hw : Hungry config first w) (hconfig : w.config = config)
    (htimeout : duration config.sendTimeout < duration config.heartbeatInterval)
    (hbrisk : (first :: strides).IsChain (Stride.Brisk config)) :
    (∃ x ∈ strides, x.isTransmission = true) ∨
      v.config = config ∧ ∃ last ∈ (first :: strides).getLast?, Hungry config last v := by
  induction h with
  | stay => exact .inr ⟨hconfig, first, rfl, hw⟩
  | @step strides v now s h v' s' _ hsound hqueue hrule ih =>
      rw [← List.cons_append, List.isChain_append] at hbrisk
      obtain ⟨hbefore, -, hlast⟩ := hbrisk
      rcases ih hbefore with ⟨x, hx, htransmission⟩ | ⟨hv, last, hmem, hhungry⟩
      · exact .inl ⟨x, List.mem_append_left _ hx, htransmission⟩
      · rcases hungry_rule hsound hhungry hqueue hv htimeout (hlast last hmem _ rfl) hrule with
          htransmission | hnext
        · exact .inl ⟨_, List.mem_append_right _ List.mem_cons_self, htransmission⟩
        · refine .inr ⟨(config_rule hrule).trans hv, v.strideTo now h v', ?_, hnext⟩
          rw [← List.cons_append, List.getLast?_concat]
          rfl

theorem after_probe (hs : w.Sound s.stop) (hrule : w.Rule now s h w' s')
    (hprobe : (w.strideTo now h w').isProbe = true) :
    w.phase = .probing ∧ w'.phase = .choosing ∧ w'.lastProbe = w.lastProbe := by
  have hphase : w.phase = .probing := Stride.of_isProbe hprobe
  obtain ⟨htodo, -⟩ := hs.exists_of_isUsing (by rw [hphase]; rfl)
  cases hrule with
  | probe | unprobed => exact ⟨hphase, rfl, rfl⟩
  | _ => simp_all

/-- A worker that has just made a probe, and was not held up before it, has no other one due. -/
theorem Walk.hungry {config : LinkConfig} {decided first : Stride}
    (hwalk : Walk w (front ++ [decided, first]) v) (hprobe : first.isProbe = true)
    (hbrisk : decided.Brisk config first) : Hungry config first v := by
  have hsplit : front ++ [decided, first] = front ++ [decided] ++ [first] := by simp
  rw [hsplit] at hwalk
  obtain ⟨s, h, s', hbefore, hsound, hrule, hfirst⟩ := hwalk.exists_rule
  obtain ⟨t, k, t', -, hsound', hrule', hdecided⟩ := hbefore.exists_rule
  rw [hfirst] at hprobe
  obtain ⟨hphase, hnext, hsame⟩ := after_probe hsound hrule hprobe
  obtain ⟨hmark, rfl, -, -⟩ := due_of_probing hsound' hrule' hphase
  have hsends : decided.allowance config = 0 := by
    rw [hdecided]
    rfl
  have hresting : first.before.isResting = false := by
    rw [isResting, hphase]
    cases first.before.todo <;> rfl
  have hearly : first.now ≤ decided.now := by
    have hlimit := hbrisk.resolve_left (by simp [hresting])
    rwa [hsends] at hlimit
  have hallowance : first.allowance config ≤ duration config.sendTimeout := by
    unfold Stride.allowance
    split
    · exact Nat.le_refl _
    · exact Nat.zero_le _
  refine ⟨fun _ => ?_, fun _ _ _ _ hwaiting => ?_, by simp [hnext]⟩
  · rw [hsame, hmark]
    exact Nat.add_le_add hearly hallowance
  · rw [hnext] at hwaiting
    cases hwaiting

end Worker

namespace World

variable {σ : Type} [Connector σ] {config : LinkConfig} {outbound inbound threads : Nat} {net : σ}

/-- The strides of a worker in some moves, if the outbound queue is not empty before any of them. -/
theorem laden_run (before during : List (Move σ)) {id : Nat} {c : Course}
    (hc : ((fresh config outbound inbound threads net).run before).course? id = some c)
    (hqueue : ∀ n < during.length, ∀ e,
      ((fresh config outbound inbound threads net).run (before ++ during.take n)).course? id =
        some e → e.shared.outbound.items ≠ []) :
    ∃ d, ((fresh config outbound inbound threads net).run (before ++ during)).course? id = some d ∧
      Worker.Laden c.worker
        (((fresh config outbound inbound threads net).run before).strides id during) d.worker := by
  induction during using List.reverseRecOn with
  | nil => exact ⟨c, by simpa using hc, .stay⟩
  | append_singleton during move ih =>
      obtain ⟨d, hd, hladen⟩ := ih fun n hn e he => by
        refine hqueue n (by simp; omega) e ?_
        rwa [List.take_append_of_le_length (Nat.le_of_lt hn)]
      have hitems : d.shared.outbound.items ≠ [] :=
        hqueue during.length (by simp) d (by rwa [List.take_left])
      have hsound := (sound_fresh config outbound inbound threads net).run (before ++ during)
      obtain ⟨e, he, -⟩ := runs_run hsound hd [move]
      have hreach : d.Reachable :=
        reachable_course config outbound inbound threads net (before ++ during) hd
      refine ⟨e, by rw [← List.append_assoc, run_append]; exact he, ?_⟩
      rw [strides_concat, ← run_append]
      rcases stride_step hd move he with
        ⟨now, worker, shared, h, hrule, rfl, hstride, -, -⟩ | ⟨hstride, hstill⟩
      · rw [hstride]
        exact hladen.step hreach.sound hitems hrule
      · rw [hstride, List.append_nil, hstill]
        exact hladen

/-- A worker ends the moves `before` with a probe, and makes the next one at the end of the strides
of the moves `during`. From the decision on the first one to the second one time passes in sends,
connects and sleep only, and after the first one the outbound queue is never found empty. -/
structure ProbesTwice (start : World σ) (config : LinkConfig) (id : Nat)
    (before during : List (Move σ)) (between : List Stride) : Prop where
  exists_course : ∃ c, (start.run before).course? id = some c
  exists_probes : ∃ front decided first second,
    start.strides id before = front ++ [decided, first] ∧
      (start.run before).strides id during = between ++ [second] ∧
      first.isProbe = true ∧ second.isProbe = true ∧
      (decided :: first :: (between ++ [second])).IsChain (Stride.Brisk config)
  queue : ∀ n < during.length, ∀ e,
    (start.run (before ++ during.take n)).course? id = some e → e.shared.outbound.items ≠ []

/-- Where a send takes less than a heartbeat interval, a worker attempts a message between a probe
and the next one if there are messages all the time. -/
theorem message_between_probes (config : LinkConfig) (outbound inbound threads : Nat) (net : σ)
    (before during : List (Move σ)) (id : Nat) (between : List Stride)
    (htimeout : config.sendTimeout < config.heartbeatInterval)
    (hprobes : ProbesTwice (fresh config outbound inbound threads net) config id before during
      between) :
    ∃ x ∈ between, x.isTransmission = true := by
  obtain ⟨c, hc⟩ := hprobes.exists_course
  obtain ⟨front, decided, first, second, hbefore, hduring, hfirst, hsecond, hbrisk⟩ :=
    hprobes.exists_probes
  obtain ⟨uri, launched, hwalk⟩ := walk_run before hc
  obtain ⟨d, -, hladen⟩ := laden_run before during hc hprobes.queue
  rw [hbefore] at hwalk
  rw [hduring] at hladen
  rw [List.isChain_cons_cons] at hbrisk
  obtain ⟨hfirstBrisk, hrest⟩ := hbrisk
  rw [← List.cons_append, List.isChain_append] at hrest
  have hlimit : Worker.duration config.sendTimeout < Worker.duration config.heartbeatInterval :=
    Nat.mul_lt_mul_of_pos_right htimeout (by decide)
  have hhungry : Worker.Hungry config first c.worker := hwalk.hungry hfirst hfirstBrisk
  rcases hladen.exists_concat.hungry hhungry hwalk.config_eq hlimit hrest.1 with
    hattempt | ⟨-, last, -, hstill⟩
  · exact hattempt
  · exact absurd (Stride.of_isProbe hsecond) hstill.unhurried

/-! ## Slow sends -/

/-- A peer that answers every probe. -/
def echoingHub (config : LinkConfig) : World Network :=
  fresh config 16 16 1 { Network.silent with outcomes := [.ok ()], echoes := true }

/-- The default configuration with another heartbeat interval. A send may take a second. -/
def beating (heartbeat : UInt32) : LinkConfig :=
  { LinkConfig.default with heartbeatInterval := heartbeat }

/-- The worker makes its first probe after so many milliseconds. Two messages are sent while it is
about to. -/
def untilProbe (heartbeat : Nat) : List (Move Network) :=
  [.ask 0 (.start "ws://hub"), .go 0 0 false, .go 0 0 false, .go 0 0 false] ++
    .replicate 21 (.work 0 0) ++ .replicate 6 (.work 0 (milliseconds heartbeat)) ++
    [.ask 0 (.send (.ofOctets [1]) false), .go 0 0 false,
      .ask 0 (.send (.ofOctets [2]) false), .go 0 0 false, .work 0 (milliseconds heartbeat)]

/-- What can be computed of two probes that are the last strides. -/
theorem probesTwice_of_strides (start : World σ) (config : LinkConfig) (id : Nat)
    (before during : List (Move σ)) (n quiet : Nat)
    (hcourse : ((start.run before).course? id).isSome = true)
    (hbefore : ((start.strides id before).drop n).map Stride.isProbe = [false, true])
    (hduring : ((start.run before).strides id during).map Stride.isProbe =
      .replicate quiet false ++ [true])
    (hbrisk : ((start.strides id before).drop n ++
      (start.run before).strides id during).IsChain (Stride.Brisk config))
    (hqueue : ∀ n < during.length, ((start.run (before ++ during.take n)).course? id).all
      (fun e => !e.shared.outbound.items.isEmpty) = true) :
    ProbesTwice start config id before during
      ((start.run before).strides id during).dropLast where
  exists_course := Option.isSome_iff_exists.mp hcourse
  exists_probes := by
    obtain ⟨decided, tail, hdrop, -, htail⟩ := List.map_eq_cons_iff.mp hbefore
    obtain ⟨first, rest, rfl, hfirst, hrest⟩ := List.map_eq_cons_iff.mp htail
    obtain rfl := List.map_eq_nil_iff.mp hrest
    obtain ⟨between, last, hsplit, -, hlast⟩ := List.map_eq_append_iff.mp hduring
    obtain ⟨second, rest, rfl, hsecond, hrest⟩ := List.map_eq_cons_iff.mp hlast
    obtain rfl := List.map_eq_nil_iff.mp hrest
    rw [hdrop, hsplit] at hbrisk
    refine ⟨(start.strides id before).take n, decided, first, second, ?_, ?_, hfirst, hsecond, ?_⟩
    · rw [← hdrop, List.take_append_drop]
    · rw [hsplit, List.dropLast_concat]
    · rw [hsplit, List.dropLast_concat]
      exact hbrisk
  queue n hn e he := by
    have hitems := hqueue n hn
    simpa [he] using hitems

/-- Each send takes the second that it may take. -/
def untilNextProbe : List (Move Network) :=
  .replicate 8 (.work 0 (milliseconds 2500)) ++ .replicate 5 (.work 0 (milliseconds 3500))

/-- A heartbeat interval of one and a half seconds leaves room for a message. -/
theorem message_between_probes_of_echoingHub :
    (beating 1500).sendTimeout < (beating 1500).heartbeatInterval ∧
      ∃ between, ProbesTwice (echoingHub (beating 1500)) (beating 1500) 0 (untilProbe 1500)
        untilNextProbe between ∧ ∃ x ∈ between, x.isTransmission = true := by
  have htimeout : (beating 1500).sendTimeout < (beating 1500).heartbeatInterval := by decide
  have hprobes := probesTwice_of_strides (echoingHub (beating 1500)) (beating 1500) 0
    (untilProbe 1500) untilNextProbe 26 12 (by decide +kernel) (by decide +kernel)
    (by decide +kernel) (by decide +kernel) (by decide +kernel)
  exact ⟨htimeout, _, hprobes, message_between_probes _ _ _ _ _ _ _ _ _ htimeout hprobes⟩

/-- A heartbeat interval of one second leaves none if the send of the probe takes all of it. -/
theorem probes_in_a_row :
    (beating 1000).validate = .ok () ∧
      ∃ before during between, ProbesTwice (echoingHub (beating 1000)) (beating 1000) 0 before
        during between ∧ ∀ x ∈ between, x.isProbe = false ∧ x.isTransmission = false := by
  let during : List (Move Network) := .replicate 7 (.work 0 (milliseconds 2000))
  have hprobes := probesTwice_of_strides (echoingHub (beating 1000)) (beating 1000) 0
    (untilProbe 1000) during 26 6 (by decide +kernel) (by decide +kernel) (by decide +kernel)
    (by decide +kernel) (by decide +kernel)
  have hnone : (((echoingHub (beating 1000)).run (untilProbe 1000)).strides 0 during).dropLast.all
      (fun x => !x.isProbe && !x.isTransmission) = true := by
    decide +kernel
  refine ⟨by decide, untilProbe 1000, during, _, hprobes, fun x hx => ?_⟩
  simpa using List.all_eq_true.mp hnone x hx

end World

end Uplink
