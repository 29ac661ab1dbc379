import Uplink.Proofs.Transport.Semantics

/-! # What holds of a world between two moves -/

namespace Uplink

/-- What may become of a run in one move: it is started, or makes at most one step. -/
inductive Follows : Option Course → Option Course → Prop
  | absent : Follows none none
  | born (uri config outbound inbound now) :
      Follows none (some (.fresh uri config outbound inbound now))
  | same (c) : Follows (some c) (some c)
  | step {c d} (h : Course.Evolves c d) : Follows (some c) (some d)

namespace Follows

theorem refl (c? : Option Course) : Follows c? c? := by
  cases c? with
  | none => exact .absent
  | some c => exact .same c

/-- A run is never lost. -/
theorem exists_of_some {c : Course} {d? : Option Course} (h : Follows (some c) d?) :
    ∃ d, d? = some d ∧ (d = c ∨ c.Evolves d) := by
  cases h with
  | same => exact ⟨c, rfl, .inl rfl⟩
  | @step _ d h => exact ⟨d, rfl, .inr h⟩

end Follows

/-- What no write and no look at a signal takes back is never taken back. -/
theorem Course.Evolves.keeps {c d : Course} (h : c.Evolves d) {p : StopToken → Prop}
    (hwrite : ∀ (s : Shared) (x : Write), p s.stop → p (s.write x).stop)
    (hrequest : ∀ t waker, p t → p (t.pollRequest waker).2.1)
    (hexit : ∀ t waker, p t → p (t.pollExit waker).2.1) (hc : p c.shared.stop) :
    p d.shared.stop := by
  cases h with
  | work hrule =>
      cases hrule with
      | write => exact hwrite _ _ hc
      | listen => exact hrequest _ _ hc
      | _ => exact hc
  | write => exact hwrite _ _ hc
  | listen => exact hexit _ _ hc
  | _ => exact hc

/-- A request to stop is never taken back. -/
theorem Course.Evolves.isRequested {c d : Course} (h : c.Evolves d)
    (hc : c.shared.stop.isRequested = true) : d.shared.stop.isRequested = true := by
  refine h.keeps (p := fun t => t.isRequested = true) ?_ (fun _ _ ht => ht) (fun _ _ ht => ht) hc
  intro s x hs
  cases x <;> first | exact hs | rfl

namespace World

variable {σ : Type}

/-! ## Histories and courses -/

theorem history_append (w : World σ) (transport : Transport) (net : σ) (threads : List Activity)
    (j id : Nat) (h : History) :
    (⟨transport, net, threads, w.log ++ h.map (j, ·)⟩ : World σ).history id =
      w.history id ++ if j = id then h else [] := by
  simp only [history, List.filterMap_append, List.append_cancel_left_eq]
  induction h with
  | nil => simp
  | cons x h ih => by_cases hid : j = id <;> simp_all

theorem course_history {w : World σ} {id : Nat} {c : Course} (hc : w.course? id = some c) :
    c.history = w.history id := by
  obtain ⟨run, _, rfl⟩ := Option.map_eq_some_iff.mp hc
  rfl

theorem mem_log_of_mem_history {w : World σ} {id : Nat} {x : Happening} (h : x ∈ w.history id) :
    (id, x) ∈ w.log := by
  obtain ⟨⟨j, y⟩, hentry, heq⟩ := List.mem_filterMap.mp h
  split at heq
  · next hj =>
      obtain rfl : y = x := Option.some.inj heq
      exact hj ▸ hentry
  · cases heq

/-- What a change of one run's block and the record of it make of the courses. -/
theorem course?_of_modify (w : World σ) (net : σ) (threads : List Activity) (id : Nat)
    (f : Run → Run) (h : History) (running detached : Option Nat) (j : Nat) :
    (⟨{ w.transport with runs := w.transport.runs.modify id f, running, detached }, net, threads,
        w.log ++ h.map (id, ·)⟩ : World σ).course? j =
      if id = j then
        w.transport.runs[j]?.map fun run => ⟨(f run).worker, (f run).shared, w.history j ++ h⟩
      else w.course? j := by
  simp only [course?, history_append, List.getElem?_modify]
  by_cases hj : id = j <;> simp [hj, Function.comp_def]

theorem follows_of_modify (w : World σ) (net : σ) (threads : List Activity) {id : Nat} {run : Run}
    (f : Run → Run) (h : History) (running detached : Option Nat)
    (hrun : w.transport.runs[id]? = some run)
    (hstep : Course.Evolves ⟨run.worker, run.shared, w.history id⟩
      ⟨(f run).worker, (f run).shared, w.history id ++ h⟩) (j : Nat) :
    Follows (w.course? j)
      ((⟨{ w.transport with runs := w.transport.runs.modify id f, running, detached }, net,
        threads, w.log ++ h.map (id, ·)⟩ : World σ).course? j) := by
  rw [course?_of_modify]
  split
  · next hj =>
      subst hj
      simpa [course?, hrun] using Follows.step hstep
  · exact .refl _

theorem follows_of_silent (w : World σ) (threads : List Activity) {id : Nat} {run : Run}
    (f : Run → Run) (hrun : w.transport.runs[id]? = some run)
    (hstep : Course.Evolves ⟨run.worker, run.shared, w.history id⟩
      ⟨(f run).worker, (f run).shared, w.history id⟩) (j : Nat) :
    Follows (w.course? j)
      ((⟨w.transport.updateRun id f, w.net, threads, w.log⟩ : World σ).course? j) := by
  have h := w.follows_of_modify w.net threads f [] w.transport.running w.transport.detached hrun
    (by simpa using hstep) j
  rw [List.map_nil, List.append_nil] at h
  exact h

/-- What a start does to the runs. -/
theorem follows_of_launch (w : World σ) (uri : String) (now : Instant) (threads : List Activity)
    (hnew : w.history w.transport.runs.length = []) (j : Nat) :
    Follows (w.course? j)
      ((⟨w.transport.launch uri now, w.net, threads, w.log⟩ : World σ).course? j) := by
  have hborn : Follows none (some ⟨.fresh uri w.transport.config now,
      .fresh w.transport.outboundCapacity w.transport.inboundCapacity now,
      w.history w.transport.runs.length⟩) := by
    rw [hnew]
    exact .born uri w.transport.config _ _ now
  simp only [course?, Transport.launch, List.getElem?_append]
  split
  · exact .refl _
  · next hj =>
      rw [List.getElem?_eq_none (Nat.le_of_not_lt hj)]
      by_cases hj' : j = w.transport.runs.length
      · subst hj'
        rw [Nat.sub_self]
        exact hborn
      · have : j - w.transport.runs.length ≠ 0 := by omega
        simpa [List.getElem?_singleton, this] using Follows.absent

/-- What a step of a start or a stop does to the runs. -/
theorem follows_of_call (w : World σ) {now : Instant} {caller : Waker}
    {call next : Transport.Procedure} {t : Transport} (threads : List Activity)
    (hrule : w.transport.Rule now caller call t next)
    (hcallers : ∀ id x xs rest, call = .write id (x :: xs) rest →
      x.isCallers = true ∧ id < w.transport.runs.length)
    (hnew : w.history w.transport.runs.length = []) (j : Nat) :
    Follows (w.course? j)
      ((⟨t, w.net, threads, w.log ++ call.marks⟩ : World σ).course? j) := by
  have hlisten {id : Nat} {run : Run} (hrun : w.transport.runs[id]? = some run) :
      Follows (w.course? j)
        ((⟨w.transport.updateShared id fun shared =>
            { shared with stop := (run.shared.stop.pollExit caller).2.1 },
          w.net, threads, w.log⟩ : World σ).course? j) :=
    w.follows_of_silent threads _ hrun (.listen (c := ⟨run.worker, run.shared, _⟩) caller) j
  cases hrule with
  | launch =>
      simpa [Transport.Procedure.marks] using w.follows_of_launch _ now threads hnew j
  | write =>
      obtain ⟨hx, hid⟩ := hcallers _ _ _ _ rfl
      exact w.follows_of_modify w.net threads _ _ _ _ (List.getElem?_eq_getElem hid) (.write hx) j
  | signalled hrun | unsignalled hrun => simpa [Transport.Procedure.marks] using hlisten hrun
  | _ =>
      have hsame : Follows (w.course? j) (w.course? j) := .refl _
      simpa [course?, history, Transport.Procedure.marks] using hsame

/-! ## Runs that are let go -/

/-- The run exists and is not the one in progress, so nobody takes up its block any more. -/
def Released (w : World σ) (id : Nat) : Prop :=
  id < w.transport.runs.length ∧ w.transport.running ≠ some id

/-- The worker of the run was asked to end. -/
def Asked (w : World σ) (id : Nat) : Prop :=
  ∃ c, w.course? id = some c ∧ c.shared.stop.isRequested = true

/-- Where a start may stand. -/
inductive StartStage (w : World σ) : Transport.Procedure → Prop
  | reap {uri} : StartStage w (.reap uri)
  | await {uri id alarm stage} (hid : w.Released id) :
      StartStage w (.await id alarm stage (.launch uri) (.detach id (.finished (.error .busy))))
  | giveBack {id} (hid : w.Released id) : StartStage w (.detach id (.finished (.error .busy)))
  | launch {uri} : StartStage w (.launch uri)
  | finished {result} : StartStage w (.finished result)

/-- Where a stop may stand. -/
inductive StopStage (w : World σ) : Transport.Procedure → Prop
  | take : StopStage w .take
  | ask {id xs} (hid : w.Released id)
      (hxs : xs <:+ Write.publish .stopping ++ [.requested, .request])
      (hasked : .requested ∈ xs ∨ w.Asked id) :
      StopStage w
        (.write id xs (.awaitExit id (.conclude id) (.detach id (.conclude id))))
  | await {id alarm stage} (hid : w.Released id) (hasked : w.Asked id) :
      StopStage w (.await id alarm stage (.conclude id) (.detach id (.conclude id)))
  | leave {id} (hid : w.Released id) (hasked : w.Asked id) :
      StopStage w (.detach id (.conclude id))
  | conclude {id xs} (hid : w.Released id) (hasked : w.Asked id)
      (hxs : xs <:+ [.clearOutbound, .clearInbound] ++ Write.publish .stopped) :
      StopStage w (.write id xs (.finished (.ok ())))
  | finished {result} : StopStage w (.finished result)

/-- The world is in good order. -/
structure Sound (w : World σ) : Prop where
  /-- Nothing happened to a run that does not exist. -/
  recorded : ∀ entry ∈ w.log, entry.1 < w.transport.runs.length
  /-- A run whose queues were cleared was let go and asked to end. -/
  cleared : ∀ id side, (id, .cleared side) ∈ w.log → w.Released id ∧ w.Asked id
  /-- The run in progress exists. -/
  running : ∀ id, w.transport.running = some id → id < w.transport.runs.length
  /-- A run that was left behind is not in progress. -/
  detached : ∀ id, w.transport.detached = some id → w.Released id
  starting : ∀ call, .starting call ∈ w.threads → w.StartStage call
  stopping : ∀ call, .stopping call ∈ w.threads → w.StopStage call
  /-- A thread uses the block of a run that exists. -/
  aiming : ∀ activity ∈ w.threads, ∀ id action, activity.aim? = some (id, action) →
    id < w.transport.runs.length

/-- What was true of the runs stays true. -/
structure Grows (w w' : World σ) : Prop where
  length_le : w.transport.runs.length ≤ w'.transport.runs.length
  released : ∀ id, w.Released id → w'.Released id
  asked : ∀ id, w.Asked id → w'.Asked id

theorem StartStage.mono {w w' : World σ} (h : w.Grows w') {call : Transport.Procedure}
    (hcall : w.StartStage call) : w'.StartStage call := by
  cases hcall with
  | reap => exact .reap
  | await hid => exact .await (h.released _ hid)
  | giveBack hid => exact .giveBack (h.released _ hid)
  | launch => exact .launch
  | finished => exact .finished

theorem StopStage.mono {w w' : World σ} (h : w.Grows w') {call : Transport.Procedure}
    (hcall : w.StopStage call) : w'.StopStage call := by
  cases hcall with
  | take => exact .take
  | ask hid hxs hasked => exact .ask (h.released _ hid) hxs (hasked.imp_right (h.asked _))
  | await hid hasked => exact .await (h.released _ hid) (h.asked _ hasked)
  | leave hid hasked => exact .leave (h.released _ hid) (h.asked _ hasked)
  | conclude hid hasked hxs => exact .conclude (h.released _ hid) (h.asked _ hasked) hxs
  | finished => exact .finished

theorem history_eq_nil {w : World σ} (hw : w.Sound) : w.history w.transport.runs.length = [] := by
  rw [history, List.filterMap_eq_nil_iff]
  intro entry hentry
  simp [Nat.ne_of_lt (hw.recorded entry hentry)]

/-- A stop writes only what is for callers to write. -/
theorem StopStage.isCallers {w : World σ} {id : Nat} {x : Write} {xs : List Write}
    {rest : Transport.Procedure} (h : w.StopStage (.write id (x :: xs) rest)) :
    x.isCallers = true ∧ id < w.transport.runs.length := by
  cases h with
  | ask hid hxs =>
      have hall : ∀ y ∈ Write.publish .stopping ++ [.requested, .request], y.isCallers = true := by
        decide
      exact ⟨hall x (hxs.mem List.mem_cons_self), hid.1⟩
  | conclude hid _ hxs =>
      have hall : ∀ y ∈ [.clearOutbound, .clearInbound] ++ Write.publish .stopped,
          y.isCallers = true := by
        decide
      exact ⟨hall x (hxs.mem List.mem_cons_self), hid.1⟩

theorem StopStage.clears {w : World σ} {id : Nat} {x : Write} {xs : List Write} {side : Side}
    {rest : Transport.Procedure} (h : w.StopStage (.write id (x :: xs) rest))
    (hx : .cleared side ∈ x.marks) : w.Released id ∧ w.Asked id := by
  cases h with
  | ask _ hxs =>
      have hall : ∀ y ∈ Write.publish .stopping ++ [.requested, .request], y.marks = [] := by
        simp [Write.publish, Write.marks]
      simp [hall x (hxs.mem List.mem_cons_self)] at hx
  | conclude hid hasked => exact ⟨hid, hasked⟩

/-- What a move makes of the runs. -/
theorem follows_rule {w w' : World σ} (hw : w.Sound) (hrule : w.Rule w') (j : Nat) :
    Follows (w.course? j) (w'.course? j) := by
  have hnew := history_eq_nil hw
  cases hrule with
  | rest | drift | beginStart | beginStop | beginTry | finish | giveUp | await => exact .refl _
  | work net hrun hrule => exact w.follows_of_modify net w.threads _ _ _ _ hrun (.work hrule) j
  | start hthread hrule =>
      refine w.follows_of_call _ hrule ?_ hnew j
      rintro id x xs rest rfl
      nomatch hw.starting _ (List.mem_of_getElem? hthread)
  | stop hthread hrule =>
      refine w.follows_of_call _ hrule ?_ hnew j
      rintro id x xs rest rfl
      exact (hw.stopping _ (List.mem_of_getElem? hthread)).isCallers
  | @push _ _ _ _ run _ _ _ _ hrun hpush =>
      exact w.follows_of_modify w.net _ _ _ _ _ hrun
        (.push (c := ⟨run.worker, run.shared, _⟩) hpush) j
  | @pop _ _ _ _ run _ _ _ _ hrun hpop =>
      exact w.follows_of_modify w.net _ _ _ _ _ hrun
        (.pop (c := ⟨run.worker, run.shared, _⟩) hpop) j
  | @parkSender _ thread _ run _ _ hrun =>
      exact w.follows_of_silent _ _ hrun
        (.parkSender (c := ⟨run.worker, run.shared, _⟩) (waker thread)) j
  | @parkReceiver _ thread _ run _ _ hrun =>
      exact w.follows_of_silent _ _ hrun
        (.parkReceiver (c := ⟨run.worker, run.shared, _⟩) (waker thread)) j

/-- A run that is there in a world and in the next one is the same, or has made a step. -/
theorem eq_or_evolves {w w' : World σ} (hw : w.Sound) (hrule : w.Rule w') {id : Nat}
    {c d : Course} (hc : w.course? id = some c) (hd : w'.course? id = some d) :
    d = c ∨ c.Evolves d := by
  obtain ⟨e, he, hsame⟩ := (hc ▸ follows_rule hw hrule id).exists_of_some
  obtain rfl : d = e := Option.some.inj (hd.symm.trans he)
  exact hsame

/-! ## Good order is kept -/

/-- The run in progress stays, or is taken away, or is a new one. -/
theorem running_rule {w w' : World σ} (hrule : w.Rule w') :
    w'.transport.running = w.transport.running ∨ w'.transport.running = none ∨
      w'.transport.running = some w.transport.runs.length ∧
        w.transport.runs.length < w'.transport.runs.length := by
  cases hrule with
  | start _ hrule | stop _ hrule =>
      cases hrule with
      | take => exact .inr (.inl rfl)
      | launch => exact .inr (.inr ⟨rfl, by simp [Transport.launch]⟩)
      | _ => exact .inl rfl
  | _ => exact .inl rfl

theorem lt_of_course? {w : World σ} {id : Nat} {c : Course} (h : w.course? id = some c) :
    id < w.transport.runs.length := by
  have hsome : (w.course? id).isSome = true := by rw [h]; rfl
  simpa [course?] using hsome

theorem exists_course? {w : World σ} {id : Nat} (h : id < w.transport.runs.length) :
    ∃ c, w.course? id = some c := by
  simp [course?, h]

theorem grows_rule {w w' : World σ} (hw : w.Sound) (hrule : w.Rule w') : w.Grows w' := by
  have hkept (id : Nat) (hid : id < w.transport.runs.length) : id < w'.transport.runs.length := by
    obtain ⟨c, hc⟩ := exists_course? hid
    obtain ⟨d, hd, _⟩ := (hc ▸ follows_rule hw hrule id).exists_of_some
    exact lt_of_course? hd
  refine ⟨Nat.le_of_not_lt fun hlt => Nat.lt_irrefl _ (hkept _ hlt), ?_, ?_⟩
  · rintro id ⟨hid, hrunning⟩
    refine ⟨hkept id hid, ?_⟩
    rcases running_rule hrule with heq | heq | ⟨heq, _⟩ <;> rw [heq]
    · exact hrunning
    · exact nofun
    · exact fun hlast => Nat.ne_of_gt hid (Option.some.inj hlast)
  · rintro id ⟨c, hc, hasked⟩
    obtain ⟨d, hd, rfl | h⟩ := (hc ▸ follows_rule hw hrule id).exists_of_some
    · exact ⟨d, hd, hasked⟩
    · exact ⟨d, hd, h.isRequested hasked⟩

/-- What a thread may turn to in one move. -/
inductive Turned (w w' : World σ) : Activity → Prop
  | idle : Turned w w' .idle
  | reap {uri} : Turned w w' (.starting (.reap uri))
  | take : Turned w w' (.stopping .take)
  | starting {now caller call next} (hmem : .starting call ∈ w.threads)
      (hrule : w.transport.Rule now caller call w'.transport next) : Turned w w' (.starting next)
  | stopping {now caller call next} (hmem : .stopping call ∈ w.threads)
      (hrule : w.transport.Rule now caller call w'.transport next) : Turned w w' (.stopping next)
  | aims {activity id action} (haim : activity.aim? = some (id, action))
      (hid : w.transport.running = some id ∨ ∃ old ∈ w.threads, old.aim? = some (id, action)) :
      Turned w w' activity

section
variable {w w' : World σ} {now : Instant} {caller : Waker} {call next : Transport.Procedure}

theorem startStage_rule (hw : w.Sound) (hgrows : w.Grows w') (hcall : w.StartStage call)
    (hrule : w.transport.Rule now caller call w'.transport next) : w'.StartStage next := by
  generalize ht : w'.transport = t at hrule
  cases hcall with
  | reap =>
      cases hrule with
      | nothingLeft => exact .launch
      | reap hdetached => exact .await (hgrows.released _ (hw.detached _ hdetached))
  | await hid =>
      have hid := hgrows.released _ hid
      cases hrule with
      | lost | expire => exact .giveBack hid
      | flagged | signalled => exact .launch
      | unflagged | unsignalled | arm | wake => exact .await hid
  | giveBack => cases hrule; exact .finished
  | launch =>
      cases hrule with
      | refuse | launch => exact .finished
  | finished => cases hrule; exact .finished

theorem asked_of_write {id : Nat} (hid : id < w.transport.runs.length)
    (h : w'.transport = w.transport.updateShared id (·.write .requested)) : w'.Asked id := by
  refine ⟨⟨w.transport.runs[id].worker, w.transport.runs[id].shared.write .requested,
    w'.history id⟩, ?_, rfl⟩
  simp [course?, h, Transport.updateShared, Transport.updateRun, hid]

theorem stopStage_rule (hw : w.Sound) (hgrows : w.Grows w') (hcall : w.StopStage call)
    (hrule : w.transport.Rule now caller call w'.transport next) : w'.StopStage next := by
  generalize ht : w'.transport = t at hrule
  cases hcall with
  | take =>
      cases hrule with
      | nothingRuns => exact .finished
      | @take id hrunning =>
          refine .ask ⟨?_, ?_⟩ (List.suffix_refl _) (.inl (by simp))
          · exact Nat.lt_of_lt_of_le (hw.running _ hrunning) hgrows.length_le
          · simp [ht]
  | @ask id xs hid hxs hasked =>
      have hlt := hid.1
      have hid := hgrows.released _ hid
      cases hrule with
      | written => exact .await hid (hgrows.asked _ (hasked.resolve_left (by simp)))
      | @write _ x xs _ =>
          refine .ask hid ((List.suffix_cons _ _).trans hxs) ?_
          -- The request is still to be written, or is being written, or was written before.
          rcases hasked with hmem | hasked
          · rcases List.mem_cons.mp hmem with rfl | hmem
            · exact .inr (asked_of_write hlt ht)
            · exact .inl hmem
          · exact .inr (hgrows.asked _ hasked)
  | await hid hasked =>
      have hid := hgrows.released _ hid
      have hasked := hgrows.asked _ hasked
      cases hrule with
      | lost | expire => exact .leave hid hasked
      | flagged | signalled => exact .conclude hid hasked (List.suffix_refl _)
      | unflagged | unsignalled | arm | wake => exact .await hid hasked
  | leave hid hasked =>
      cases hrule
      exact .conclude (hgrows.released _ hid) (hgrows.asked _ hasked) (List.suffix_refl _)
  | conclude hid hasked hxs =>
      cases hrule with
      | written => exact .finished
      | write =>
          exact .conclude (hgrows.released _ hid) (hgrows.asked _ hasked)
            ((List.suffix_cons _ _).trans hxs)
  | finished => cases hrule; exact .finished

/-! Each part of the order is kept by every move. -/

/-- A move adds to the record of one run. When it clears a queue of it, the run was let go and
asked to end. -/
theorem log_rule (hw : w.Sound) (hrule : w.Rule w') :
    w'.log = w.log ∨ ∃ (id : Nat) (h : History),
      w'.log = w.log ++ h.map (id, ·) ∧ id < w.transport.runs.length ∧
      ∀ side, .cleared side ∈ h → w.Released id ∧ w.Asked id := by
  cases hrule with
  | @work _ id run _ _ h net hrun hrule =>
      refine .inr ⟨id, h, rfl, (List.getElem?_eq_some_iff.mp hrun).1, fun side hmem => ?_⟩
      exact absurd hmem (Worker.not_cleared_rule hrule side)
  | push _ _ hrun | pop _ _ hrun =>
      exact .inr ⟨_, _, rfl, (List.getElem?_eq_some_iff.mp hrun).1, by simp⟩
  | start hthread hrule =>
      have hstage := hw.starting _ (List.mem_of_getElem? hthread)
      cases hstage <;> exact .inl (List.append_nil _)
  | @stop _ _ call _ _ hthread hrule =>
      have hstage := hw.stopping _ (List.mem_of_getElem? hthread)
      cases call with
      | write id xs rest =>
          cases xs with
          | nil => exact .inl (List.append_nil _)
          | cons x xs =>
              exact .inr ⟨id, x.marks, rfl, hstage.isCallers.2, fun side => hstage.clears⟩
      | _ => exact .inl (List.append_nil _)
  | _ => exact .inl rfl

theorem recorded_rule (hw : w.Sound) (hrule : w.Rule w') :
    ∀ entry ∈ w'.log, entry.1 < w'.transport.runs.length := by
  have hlen := (grows_rule hw hrule).length_le
  have hold : ∀ entry ∈ w.log, entry.1 < w'.transport.runs.length :=
    fun entry hentry => Nat.lt_of_lt_of_le (hw.recorded entry hentry) hlen
  intro entry hentry
  rcases log_rule hw hrule with hlog | ⟨id, h, hlog, hid, _⟩
  · exact hold entry (hlog ▸ hentry)
  · rcases List.mem_append.mp (hlog ▸ hentry) with hentry | hentry
    · exact hold entry hentry
    · obtain ⟨x, _, rfl⟩ := List.mem_map.mp hentry
      exact Nat.lt_of_lt_of_le hid hlen

theorem cleared_rule (hw : w.Sound) (hrule : w.Rule w') :
    ∀ id side, (id, .cleared side) ∈ w'.log → w'.Released id ∧ w'.Asked id := by
  have hgrows := grows_rule hw hrule
  have hold : ∀ id side, (id, .cleared side) ∈ w.log → w'.Released id ∧ w'.Asked id :=
    fun id side hmem => (hw.cleared id side hmem).imp (hgrows.released id) (hgrows.asked id)
  intro id side hmem
  rcases log_rule hw hrule with hlog | ⟨j, h, hlog, _, hclear⟩
  · exact hold id side (hlog ▸ hmem)
  · rcases List.mem_append.mp (hlog ▸ hmem) with hmem | hmem
    · exact hold id side hmem
    · obtain ⟨x, hx, heq⟩ := List.mem_map.mp hmem
      cases heq
      exact (hclear side hx).imp (hgrows.released _) (hgrows.asked _)

theorem runningExists_rule (hw : w.Sound) (hrule : w.Rule w') :
    ∀ id, w'.transport.running = some id → id < w'.transport.runs.length := by
  intro id hid
  rcases running_rule hrule with heq | heq | ⟨heq, hlt⟩
  · exact Nat.lt_of_lt_of_le (hw.running id (heq ▸ hid)) (grows_rule hw hrule).length_le
  · simp [heq] at hid
  · rw [heq] at hid
    exact Option.some.inj hid ▸ hlt

theorem detached_rule (hw : w.Sound) (hrule : w.Rule w') :
    ∀ id, w'.transport.detached = some id → w'.Released id := by
  have hgrows := grows_rule hw hrule
  have hold : ∀ id, w.transport.detached = some id → w'.Released id :=
    fun id hid => hgrows.released id (hw.detached id hid)
  have hcall {now : Instant} {caller : Waker} {call next : Transport.Procedure}
      (hleave : ∀ id rest, call = .detach id rest → w.Released id)
      (hstep : w.transport.Rule now caller call w'.transport next) :
      ∀ id, w'.transport.detached = some id → w'.Released id := by
    generalize ht : w'.transport = t at hstep
    cases hstep with
    | reap => exact nofun
    | detach =>
        rintro id ⟨⟩
        exact hgrows.released _ (hleave _ _ rfl)
    | _ => exact hold
  cases hrule with
  | start hthread hrule =>
      refine hcall ?_ hrule
      rintro id rest rfl
      cases hw.starting _ (List.mem_of_getElem? hthread) with
      | giveBack hid => exact hid
  | stop hthread hrule =>
      refine hcall ?_ hrule
      rintro id rest rfl
      cases hw.stopping _ (List.mem_of_getElem? hthread) with
      | leave hid => exact hid
  | _ => exact hold

/-- A thread is about what it was about before, or turned to it in the move. -/
theorem turned_rule (hrule : w.Rule w') :
    ∀ activity ∈ w'.threads, activity ∈ w.threads ∨ Turned w w' activity := by
  have hset {thread : Nat} {new : Activity} (hnew : Turned w w' new) :
      ∀ activity ∈ w.threads.set thread new, activity ∈ w.threads ∨ Turned w w' activity := by
    intro activity hmem
    rcases List.mem_or_eq_of_mem_set hmem with hold | rfl
    · exact .inl hold
    · exact .inr hnew
  cases hrule with
  | rest | drift | work => exact fun _ => .inl
  | beginStart => exact hset .reap
  | beginStop => exact hset .take
  | beginTry _ hrunning => exact hset (.aims rfl (.inl hrunning))
  | start hthread hrule => exact hset (.starting (List.mem_of_getElem? hthread) hrule)
  | stop hthread hrule => exact hset (.stopping (List.mem_of_getElem? hthread) hrule)
  | finish | giveUp | push | pop => exact hset .idle
  | await hthread => exact hset (.aims rfl (.inr ⟨_, List.mem_of_getElem? hthread, rfl⟩))
  | parkSender hthread _ hnext | parkReceiver hthread _ hnext =>
      refine hset ?_
      rcases hnext with rfl | rfl
      · exact .idle
      · exact .aims rfl (.inr ⟨_, List.mem_of_getElem? hthread, rfl⟩)

theorem starting_rule (hw : w.Sound) (hrule : w.Rule w') :
    ∀ call, .starting call ∈ w'.threads → w'.StartStage call := by
  have hgrows := grows_rule hw hrule
  intro call hcall
  rcases turned_rule hrule _ hcall with hold | hnew
  · exact (hw.starting call hold).mono hgrows
  · cases hnew with
    | reap => exact .reap
    | starting hmem hstep => exact startStage_rule hw hgrows (hw.starting _ hmem) hstep
    | aims haim => cases haim

theorem stopping_rule (hw : w.Sound) (hrule : w.Rule w') :
    ∀ call, .stopping call ∈ w'.threads → w'.StopStage call := by
  have hgrows := grows_rule hw hrule
  intro call hcall
  rcases turned_rule hrule _ hcall with hold | hnew
  · exact (hw.stopping call hold).mono hgrows
  · cases hnew with
    | take => exact .take
    | stopping hmem hstep => exact stopStage_rule hw hgrows (hw.stopping _ hmem) hstep
    | aims haim => cases haim

theorem aiming_rule (hw : w.Sound) (hrule : w.Rule w') :
    ∀ activity ∈ w'.threads, ∀ id action, activity.aim? = some (id, action) →
      id < w'.transport.runs.length := by
  intro activity hactivity id action haim
  have hid : id < w.transport.runs.length := by
    rcases turned_rule hrule _ hactivity with hold | hnew
    · exact hw.aiming _ hold _ _ haim
    · cases hnew with
      | aims haim' hid =>
          cases haim'.symm.trans haim
          exact hid.elim (hw.running _) fun ⟨old, hold, haim⟩ => hw.aiming old hold _ _ haim
      | _ => cases haim
  exact Nat.lt_of_lt_of_le hid (grows_rule hw hrule).length_le

/-- A world stays in good order. -/
theorem sound_rule (hw : w.Sound) (hrule : w.Rule w') : w'.Sound where
  recorded := recorded_rule hw hrule
  cleared := cleared_rule hw hrule
  running := runningExists_rule hw hrule
  detached := detached_rule hw hrule
  starting := starting_rule hw hrule
  stopping := stopping_rule hw hrule
  aiming := aiming_rule hw hrule

end

/-- Every run that has gone its course goes on to do so. -/
theorem reachable_rule {w w' : World σ} (hw : w.Sound)
    (hcourses : ∀ id c, w.course? id = some c → Course.Reachable c) (hrule : w.Rule w') :
    ∀ id c, w'.course? id = some c → Course.Reachable c := by
  intro id d hd
  have hfollows := follows_rule hw hrule id
  rw [hd] at hfollows
  generalize hold : w.course? id = c? at hfollows
  cases hfollows with
  | born => exact .fresh _ _ _ _ _
  | same => exact hcourses id _ hold
  | step h => exact (hcourses id _ hold).next h

theorem sound_fresh (config : LinkConfig) (outbound inbound threads : Nat) (net : σ) :
    (fresh config outbound inbound threads net).Sound := by
  constructor <;> simp [fresh, List.mem_replicate, Activity.aim?]

variable [Connector σ]

/-- A world in good order stays so, whatever is done in it. -/
theorem Sound.run {w : World σ} (hw : w.Sound) (moves : List (Move σ)) : (w.run moves).Sound :=
  run_induction hw (fun w move hw => sound_rule hw (w.step_rule move)) moves

/-- Every run goes its course in every world, whatever is done in it. -/
theorem reachable_course (config : LinkConfig) (outbound inbound threads : Nat) (net : σ)
    (moves : List (Move σ)) {id : Nat} {c : Course}
    (hc : ((fresh config outbound inbound threads net).run moves).course? id = some c) :
    Course.Reachable c := by
  have hinv := run_induction (w := fresh config outbound inbound threads net)
    (P := fun w => w.Sound ∧ ∀ id c, w.course? id = some c → Course.Reachable c)
    ⟨sound_fresh _ _ _ _ _, by simp [fresh, course?]⟩ ?_ moves
  · exact hinv.2 id c hc
  rintro w move ⟨hw, hcourses⟩
  have hrule := w.step_rule move
  exact ⟨sound_rule hw hrule, reachable_rule hw hcourses hrule⟩

end World

end Uplink
