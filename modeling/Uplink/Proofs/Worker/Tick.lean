import Uplink.Proofs.Session
import Uplink.Proofs.Worker.Walk

/-! # Ticks

What a worker with a session does until it comes back to the head of its loop. It handles a few
events. Then it weighs how long its peer was silent and how long ago it probed, and does one of
three things: it drops the link, it sends a probe, or it waits for a message to send. -/

namespace Uplink

namespace Worker

/-- Whether a worker is at the head of its loop. -/
def isChoosing (w : Worker) : Bool :=
  match w.todo, w.phase with
  | [], .choosing => true
  | _, _ => false

/-- The deeds that are left to be done with a session. -/
def dues : Option Session → List Effect → List Deed
  | _, [] => []
  | session?, .write x :: todo => .wrote x :: dues session? todo
  | session?, .deliver _ :: todo => dues session? todo
  | session?, .dropSession :: todo =>
    (session?.elim [] Session.closing).map .called ++ dues none todo

/-- The deeds that a worker has left to do. -/
def outstanding (w : Worker) : List Deed :=
  dues w.session w.todo

end Worker

namespace Stride

/-- The events that the link hands out. -/
def events (s : Stride) : List LinkEvent :=
  s.calls.filterMap NetCall.event?

/-- The message that is taken out of the outbound queue. -/
def taken? (s : Stride) : Option Message :=
  match s.before.phase, s.after.phase with
  | .waiting _ _ _ .outbound, .transmitting m => some m
  | _, _ => none

/-- Whether a link is found to have been silent for too long. -/
def isStale (s : Stride) : Bool :=
  match s.before.phase, s.after.phase with
  | .judging, .choosing => true
  | _, _ => false

theorem taken?_of_same {s : Stride} (h : s.after.phase = s.before.phase) : s.taken? = none := by
  unfold taken?
  rw [h]
  split
  · next hwaiting htransmitting =>
      rw [hwaiting] at htransmitting
      cases htransmitting
  · rfl

end Stride

namespace Worker

variable {now : Instant} {w w' : Worker} {s s' : Shared} {h : History}

/-- What a worker is said to take is what it takes out of the outbound queue. -/
theorem items_of_rule (hs : w.Sound s.stop) (hrule : w.Rule now s h w' s') :
    s.outbound.items = (w.strideTo now h w').taken?.toList ++ s'.outbound.items := by
  cases hrule with
  | @write x todo htodo =>
      have hown : x.isWorkers = true := hs.own x (by simp [htodo])
      rw [Stride.taken?_of_same rfl, Shared.outbound_write s (Write.ne_clearOutbound hown)]
      rfl
  | take htodo hphase hitem =>
      simpa [Stride.taken?, strideTo, hphase] using Queue.items_of_tryPop hitem
  | deliver | overflow | hangUp | idleDrop | gone =>
      rw [Stride.taken?_of_same rfl]
      rfl
  | park => simp_all [Stride.taken?, strideTo, Queue.parkReceiver]
  | _ => simp_all [Stride.taken?, strideTo]

/-- Without anything left to do, the deeds are the calls. -/
theorem deeds_of_calm (htodo : w.todo = []) :
    (w.strideTo now h w').deeds = h.calls.map .called := by
  simp [Stride.deeds, strideTo, doing, writing, htodo]

/-! ## Handling events -/

/-- The part of a tick in which events are handled. They are asked for one by one, and no more of
them than there may be. -/
structure Pump (pump : List Stride) (more : List NetCall) : Prop where
  calls : pump.flatMap Stride.calls =
    (pump.flatMap Stride.events).map (fun event => .poll (some event)) ++ more
  length_le : (pump.flatMap Stride.events).length ≤ maxEventsPerTick
  taken : pump.filterMap Stride.taken? = []
  uncounted : .wrote (.count .staleDisconnects) ∉ pump.flatMap Stride.deeds

variable {pump : List Stride} {more : List NetCall} {x : Stride}

theorem Pump.concat (hpump : Pump pump [])
    (hcalls : x.calls = x.events.map (fun event => .poll (some event)) ++ more)
    (hlength : (pump.flatMap Stride.events).length + x.events.length ≤ maxEventsPerTick)
    (htaken : x.taken? = none) (huncounted : .wrote (.count .staleDisconnects) ∉ x.deeds) :
    Pump (pump ++ [x]) more where
  calls := by
    have hbefore := hpump.calls
    rw [List.append_nil] at hbefore
    simp [hbefore, ← hcalls]
  length_le := by simpa using hlength
  taken := by simp [hpump.taken, htaken]
  uncounted := by
    rw [List.flatMap_append, List.mem_append]
    rintro (hold | hnew)
    · exact hpump.uncounted hold
    · exact huncounted (by simpa using hnew)

/-- A stride without calls. -/
theorem Pump.quiet (hpump : Pump pump more) (hcalls : x.calls = []) (htaken : x.taken? = none)
    (huncounted : .wrote (.count .staleDisconnects) ∉ x.deeds) : Pump (pump ++ [x]) more where
  calls := by simp [hpump.calls, hcalls, Stride.events]
  length_le := by simpa [hcalls, Stride.events] using hpump.length_le
  taken := by simp [hpump.taken, htaken]
  uncounted := by
    rw [List.flatMap_append, List.mem_append]
    rintro (hold | hnew)
    · exact hpump.uncounted hold
    · exact huncounted (by simpa using hnew)

/-! ## Carrying out a decision -/

/-- The worker does these deeds and goes back to the head of its loop. Those that it has not done in
the strides so far it has left to do. -/
structure Concludes (strides : List Stride) (w : Worker) (plan : List Deed) : Prop where
  deeds : strides.flatMap Stride.deeds ++ w.outstanding = plan
  phase : w.phase = .choosing
  plain : ∀ m, .deliver m ∉ w.todo

variable {strides : List Stride} {plan : List Deed} {config : LinkConfig}

theorem Concludes.step (hw : Concludes strides w plan) (hhead : w.isChoosing = false)
    (hrule : w.Rule now s h w' s') :
    Concludes (strides ++ [w.strideTo now h w']) w' plan ∧
      (w.strideTo now h w').taken? = none := by
  have hdeeds := hw.deeds
  have hplain := hw.plain
  have hphase := hw.phase
  cases hrule with
  | @write x todo htodo =>
      refine ⟨⟨?_, hphase, fun m hm => hplain m (by simp [htodo, hm])⟩, Stride.taken?_of_same rfl⟩
      simpa [Stride.deeds, strideTo, doing, writing, outstanding, dues, htodo] using hdeeds
  | @hangUp todo _ htodo hsession | @idleDrop todo htodo hsession =>
      refine ⟨⟨?_, hphase, fun m hm => hplain m (by simp [htodo, hm])⟩, Stride.taken?_of_same rfl⟩
      simpa [Stride.deeds, strideTo, doing, writing, outstanding, dues, htodo, hsession] using
        hdeeds
  | @deliver m _ _ _ htodo | @overflow m _ htodo => exact absurd (by simp [htodo]) (hplain m)
  | _ => simp_all [isChoosing]

/-- What becomes of a wait for something to send. -/
inductive Waits (config : LinkConfig) (bound : Nat) (strides : List Stride) (w : Worker) : Prop
  | waiting {alarm stage} (hphase : w.phase = .waiting .work bound alarm stage)
      (hdeeds : strides.flatMap Stride.deeds = []) (htaken : strides.filterMap Stride.taken? = [])
  | lapsed (hdone : Concludes strides w []) (htaken : strides.filterMap Stride.taken? = [])
  | sending (m) (hphase : w.phase = .transmitting m) (hdeeds : strides.flatMap Stride.deeds = [])
      (htaken : strides.filterMap Stride.taken? = [m])
  | sent (m result)
      (hdone : Concludes strides w
        [.called (.send m.octets config.sendTimeout.toNat result),
          .wrote (.count (.ofSend result))])
      (htaken : strides.filterMap Stride.taken? = [m])

theorem Waits.step {bound : Nat} (hw : Waits config bound strides w) (hs : w.Sound s.stop)
    (hconfig : w.config = config) (hhead : w.isChoosing = false) (hrule : w.Rule now s h w' s') :
    Waits config bound (strides ++ [w.strideTo now h w']) w' := by
  cases hw with
  | lapsed hdone htaken =>
      obtain ⟨hnext, hnone⟩ := hdone.step hhead hrule
      exact .lapsed hnext (by simp [htaken, hnone])
  | sent m result hdone htaken =>
      obtain ⟨hnext, hnone⟩ := hdone.step hhead hrule
      exact .sent m result hnext (by simp [htaken, hnone])
  | @waiting alarm stage hphase hdeeds htaken =>
      have htodo : w.todo = [] := hs.calm (by simp [hphase, Phase.isUsing])
      have hquiet (hcalls : h.calls = []) :
          (strides ++ [w.strideTo now h w']).flatMap Stride.deeds = [] := by
        simp [hdeeds, deeds_of_calm htodo, hcalls]
      cases hrule with
      | @take purpose _ _ m _ _ _ hwaiting =>
          refine .sending m rfl (hquiet (by simp)) ?_
          simp [htaken, Stride.taken?, strideTo, hwaiting]
      | park _ hwaiting | arm _ hwaiting | unasked _ hwaiting | listen _ hwaiting
      | wake _ hwaiting =>
          cases hphase.symm.trans hwaiting
          refine .waiting rfl (hquiet (by simp)) ?_
          simp [htaken, Stride.taken?, strideTo, hphase]
      | expire _ hwaiting | asked _ hwaiting =>
          refine .lapsed ⟨?_, rfl, by simp [htodo]⟩ ?_
          · simpa [outstanding, dues, htodo] using hquiet (by simp)
          · simp [htaken, Stride.taken?, strideTo, hphase]
      | _ => simp_all
  | sending m hphase hdeeds htaken =>
      obtain ⟨htodo, session, hsession, hopen⟩ :=
        hs.exists_of_isUsing (by simp [hphase, Phase.isUsing])
      cases hrule with
      | @transmit m' session' result _ hsending hheld =>
          cases hphase.symm.trans hsending
          cases hsession.symm.trans hheld
          refine .sent m result ⟨?_, rfl, by simp⟩ ?_
          · simp [hdeeds, deeds_of_calm htodo, Session.sending, hopen, hconfig, outstanding, dues]
          · simp [htaken, Stride.taken?, strideTo, hphase]
      | _ => simp_all

/-! ## The verdict -/

/-- What comes of the silence of a peer that was last heard of at `life`, when the next probe is
counted from `mark`. -/
inductive Verdict (config : LinkConfig) (judged : Stride) (life mark : Instant)
    (strides : List Stride) (w : Worker) : Prop
  /-- After more than two intervals the link is closed, and counted. Nothing is sent. -/
  | stale (hfound : judged.isStale = true)
      (hidle : 2 * duration config.heartbeatInterval < judged.now - life)
      (hdone : Concludes strides w
        (.wrote (.count .staleDisconnects) :: .called .close ::
          (Write.publish .disconnected).map .wrote))
      (htaken : strides.filterMap Stride.taken? = [])
  /-- One interval after the latest probe the next one is made. No message is sent. -/
  | due (hfound : judged.isProbing = true)
      (hidle : judged.now - life ≤ 2 * duration config.heartbeatInterval)
      (hdue : duration config.heartbeatInterval ≤ judged.now - mark)
      (hdone : strides = [] ∧ w.phase = .probing ∨ ∃ result, Concludes strides w
        (.called (.send heartbeatProbe.octets config.sendTimeout.toNat result) ::
          dues none (probeEffects result)))
      (htaken : strides.filterMap Stride.taken? = [])
  /-- Else there is time to wait for a message, but not beyond the next probe. -/
  | wait (bound : Nat) (hfound : judged.after.phase = .waiting .work bound none .outbound)
      (hidle : judged.now - life ≤ 2 * duration config.heartbeatInterval)
      (hearly : judged.now - mark < duration config.heartbeatInterval)
      (hpositive : 0 < bound) (hbound : bound ≤ duration config.pollInterval)
      (hnext : judged.now + bound ≤ mark + duration config.heartbeatInterval)
      (hwaits : Waits config bound strides w)

variable {judged : Stride} {life mark : Instant}

theorem Verdict.step (hw : Verdict config judged life mark strides w) (hs : w.Sound s.stop)
    (hconfig : w.config = config) (hhead : w.isChoosing = false) (hrule : w.Rule now s h w' s') :
    Verdict config judged life mark (strides ++ [w.strideTo now h w']) w' := by
  cases hw with
  | stale hfound hidle hdone htaken =>
      obtain ⟨hnext, hnone⟩ := hdone.step hhead hrule
      exact .stale hfound hidle hnext (by simp [htaken, hnone])
  | wait bound hfound hidle hearly hpositive hbound hnext hwaits =>
      exact .wait bound hfound hidle hearly hpositive hbound hnext
        (hwaits.step hs hconfig hhead hrule)
  | due hfound hidle hdue hdone htaken =>
      rcases hdone with ⟨rfl, hphase⟩ | ⟨result, hdone⟩
      · obtain ⟨htodo, session, hsession, hopen⟩ :=
          hs.exists_of_isUsing (by simp [hphase, Phase.isUsing])
        cases hrule with
        | @probe session' result _ _ hheld =>
            cases hsession.symm.trans hheld
            refine .due hfound hidle hdue (.inr ⟨result, ?_, rfl, ?_⟩) ?_
            · cases result <;>
                simp [deeds_of_calm htodo, Session.sending, hopen, hconfig, outstanding,
                  probeEffects, dues]
            · cases result <;> simp [hopen, probeEffects]
            · simp [Stride.taken?, strideTo, hphase]
        | _ => simp_all
      · obtain ⟨hnext, hnone⟩ := hdone.step hhead hrule
        exact .due hfound hidle hdue (.inr ⟨result, hnext⟩) (by simp [htaken, hnone])

/-! ## A tick -/

variable {prior tick : List Stride} {left : Nat}

end Worker

end Uplink
