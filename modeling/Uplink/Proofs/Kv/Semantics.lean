import Uplink.Proofs.Kv.World

/-! # The rules of a store and its callers

One rule for each thing that may happen next. -/

namespace Uplink.Kv.World

variable {σ : Type}

/-! ## What becomes of one request -/

/-- What one rule may make of one request. -/
inductive Passage (s : Store σ) : Option Inquiry → Option Inquiry → Prop
  | rest (inquiry?) : Passage s inquiry? inquiry?
  | ask (call) : Passage s none (some ⟨call, .begun⟩)
  | decline {call e} (he : e = .closed ∨ e = .invalidKey) :
      Passage s (some ⟨call, .begun⟩) (some ⟨call, .answered (.error e)⟩)
  | pass {call c} (hopen : s.isClosed = false) :
      Passage s (some ⟨call, .begun⟩) (some ⟨call, .offering c⟩)
  | enter {call c} : Passage s (some ⟨call, .offering c⟩) (some ⟨call, .waiting s.nextId⟩)
  | crowd {call c} :
      Passage s (some ⟨call, .offering c⟩) (some ⟨call, .answered (.error .queueFull)⟩)
  | answer {call id a} : Passage s (some ⟨call, .waiting id⟩) (some ⟨call, .answered a⟩)

theorem passage_turn {w : World σ} {i : Nat} {call : Call} {old stage : Stage}
    (hi : w.inquiries[i]? = some ⟨call, old⟩)
    (h : Passage w.store (some ⟨call, old⟩) (some ⟨call, stage⟩)) (j : Nat) :
    Passage w.store w.inquiries[j]? (w.turn i stage).inquiries[j]? := by
  rw [getElem?_turn]
  split
  · next hij =>
      subst hij
      rw [hi]
      exact h
  · exact .rest _

/-! ## Rules -/

variable [Backend σ]

/-- What may happen next. -/
inductive Rule (w : World σ) : World σ → Prop
  | rest : Rule w w
  | take {id c channel} (hworker : w.store.worker = .idle)
      (hchannel : w.store.channel = .command id c :: channel) :
      Rule w { w with store := { w.store with worker := .holding id c, channel } }
  | stop {channel} (hworker : w.store.worker = .idle)
      (hchannel : w.store.channel = .shutdown :: channel) :
      Rule w { w with store := { w.store with worker := .stopped, channel } }
  | execute {id c reply backend} (hworker : w.store.worker = .holding id c)
      (hexecute : Backend.execute w.store.backend c = (some reply, backend)) :
      Rule w
        { w with
          store := { w.store with
            backend, worker := .idle, replies := (id, reply) :: w.store.replies }
          log := w.log ++ [.executed ⟨id, c, some reply⟩] }
  | breakDown {id c backend} (hworker : w.store.worker = .holding id c)
      (hexecute : Backend.execute w.store.backend c = (none, backend)) :
      Rule w
        { w with
          store := { w.store with backend, worker := .broken }
          log := w.log ++ [.executed ⟨id, c, none⟩] }
  | ask (call) : Rule w { w with inquiries := w.inquiries ++ [⟨call, .begun⟩] }
  | reject {i call} (hi : w.inquiries[i]? = some ⟨call, .begun⟩) (hkey : call.command? = none) :
      Rule w (w.turn i (.answered (.error .invalidKey)))
  | refuse {i call} (hi : w.inquiries[i]? = some ⟨call, .begun⟩)
      (hclosed : w.store.isClosed = true) : Rule w (w.turn i (.answered (.error .closed)))
  | pass {i call c} (hi : w.inquiries[i]? = some ⟨call, .begun⟩) (hkey : call.command? = some c)
      (hopen : w.store.isClosed = false) : Rule w (w.turn i (.offering c))
  | enter {i call c} (hi : w.inquiries[i]? = some ⟨call, .offering c⟩)
      (hroom : w.store.channel.length < channelDepth) :
      Rule w
        { w.turn i (.waiting w.store.nextId) with
          store := { w.store with
            channel := w.store.channel ++ [.command w.store.nextId c]
            nextId := w.store.nextId + 1 }
          log := w.log ++ [.entered i w.store.nextId c] }
  | crowd {i call c} (hi : w.inquiries[i]? = some ⟨call, .offering c⟩)
      (hfull : channelDepth ≤ w.store.channel.length) :
      Rule w (w.turn i (.answered (.error .queueFull)))
  | reply {i call id reply} (hi : w.inquiries[i]? = some ⟨call, .waiting id⟩)
      (hreply : (id, reply) ∈ w.store.replies) :
      Rule w (w.turn i (.answered (call.answer reply)))
  | late {i call id} (hi : w.inquiries[i]? = some ⟨call, .waiting id⟩) :
      Rule w (w.turn i (.answered (.error .timeout)))
  | close : Rule w { w with closings := w.closings ++ [.begun] }
  | shut {j} (hj : w.closings[j]? = some .begun) (hopen : w.store.isClosed = false) :
      Rule w { w.advance j .telling with store := { w.store with isClosed := true } }
  | repeat_ {j} (hj : w.closings[j]? = some .begun) (hclosed : w.store.isClosed = true) :
      Rule w (w.advance j (.returned .redundant))
  | tell {j} (hj : w.closings[j]? = some .telling)
      (hroom : w.store.channel.length < channelDepth) :
      Rule w
        { w.advance j .joining with
          store := { w.store with channel := w.store.channel ++ [.shutdown] } }
  | giveUp {j} (hj : w.closings[j]? = some .telling)
      (hfull : channelDepth ≤ w.store.channel.length) :
      Rule w (w.advance j (.returned .detached))
  | join {j} (hj : w.closings[j]? = some .joining) (hended : w.store.worker.hasEnded = true) :
      Rule w (w.advance j (.returned .joined))

/-! ## Every move follows a rule -/

theorem work_rule (w : World σ) : Rule w w.work := by
  cases hworker : w.store.worker with
  | holding id c =>
      cases hstalled : w.store.isStalled with
      | true =>
          simpa [work, Store.workerStep?, Store.take?, hworker, hstalled] using Rule.rest
      | false =>
          cases hexecute : Backend.execute w.store.backend c with
          | mk outcome backend =>
              cases outcome with
              | some reply =>
                  simpa [work, Store.workerStep?, Store.execute?, Store.marks, hworker, hstalled,
                    hexecute] using Rule.execute hworker hexecute
              | none =>
                  simpa [work, Store.workerStep?, Store.execute?, Store.marks, hworker, hstalled,
                    hexecute] using Rule.breakDown hworker hexecute
  | idle =>
      cases hchannel : w.store.channel with
      | nil =>
          simpa [work, Store.workerStep?, Store.execute?, Store.take?, hworker, hchannel] using
            Rule.rest
      | cons request channel =>
          cases request with
          | command id c =>
              simpa [work, Store.workerStep?, Store.execute?, Store.take?, Store.marks, hworker,
                hchannel] using Rule.take hworker hchannel
          | shutdown =>
              simpa [work, Store.workerStep?, Store.execute?, Store.take?, Store.marks, hworker,
                hchannel] using Rule.stop hworker hchannel
  | stopped | broken =>
      simpa [work, Store.workerStep?, Store.execute?, Store.take?, hworker] using Rule.rest

theorem go_rule (w : World σ) (i : Nat) (expired : Bool) : Rule w (w.go i expired) := by
  cases hi : w.inquiries[i]? with
  | none => simpa [go, hi] using Rule.rest
  | some inquiry =>
      obtain ⟨call, stage⟩ := inquiry
      cases stage with
      | begun =>
          cases hkey : call.command? with
          | none => simpa [go, hi, check, hkey] using Rule.reject hi hkey
          | some c =>
              cases hclosed : w.store.isClosed with
              | true => simpa [go, hi, check, hkey, hclosed] using Rule.refuse hi hclosed
              | false => simpa [go, hi, check, hkey, hclosed] using Rule.pass hi hkey hclosed
      | offering c =>
          by_cases hroom : w.store.channel.length < channelDepth
          · simpa [go, hi, offer, Store.admit?, Store.enqueue?, hroom] using Rule.enter hi hroom
          · cases expired with
            | true =>
                simpa [go, hi, offer, Store.admit?, Store.enqueue?, hroom] using
                  Rule.crowd hi (Nat.le_of_not_lt hroom)
            | false =>
                simpa [go, hi, offer, Store.admit?, Store.enqueue?, hroom] using Rule.rest
      | waiting id =>
          cases hreply : w.store.replies.lookup id with
          | some reply =>
              have hmem : (id, reply) ∈ w.store.replies := by
                obtain ⟨front, rest, heq, _⟩ := List.lookup_eq_some_iff.mp hreply
                simp [heq]
              simpa [go, hi, await, hreply] using Rule.reply hi hmem
          | none =>
              cases expired with
              | true => simpa [go, hi, await, hreply] using Rule.late hi
              | false => simpa [go, hi, await, hreply] using Rule.rest
      | answered a => simpa [go, hi] using Rule.rest

theorem proceed_rule (w : World σ) (j : Nat) (expired : Bool) : Rule w (w.proceed j expired) := by
  cases hj : w.closings[j]? with
  | none => simpa [proceed, hj] using Rule.rest
  | some closing =>
      cases closing with
      | begun =>
          cases hclosed : w.store.isClosed with
          | true => simpa [proceed, hj, hclosed] using Rule.repeat_ hj hclosed
          | false => simpa [proceed, hj, hclosed] using Rule.shut hj hclosed
      | telling =>
          by_cases hroom : w.store.channel.length < channelDepth
          · simpa [proceed, hj, Store.enqueue?, hroom] using Rule.tell hj hroom
          · cases expired with
            | true =>
                simpa [proceed, hj, Store.enqueue?, hroom] using
                  Rule.giveUp hj (Nat.le_of_not_lt hroom)
            | false => simpa [proceed, hj, Store.enqueue?, hroom] using Rule.rest
      | joining =>
          cases hended : w.store.worker.hasEnded with
          | true => simpa [proceed, hj, hended] using Rule.join hj hended
          | false => simpa [proceed, hj, hended] using Rule.rest
      | returned ending => simpa [proceed, hj] using Rule.rest

theorem step_rule (w : World σ) (move : Move) : Rule w (w.step move) := by
  cases move with
  | work => exact work_rule w
  | ask call => exact .ask call
  | go i expired => exact go_rule w i expired
  | close => exact .close
  | proceed j expired => exact proceed_rule w j expired

/-! ## Every rule passes a request on -/

theorem passage_rule {w w' : World σ} (hrule : Rule w w') (i : Nat) :
    Passage w.store w.inquiries[i]? w'.inquiries[i]? := by
  cases hrule with
  | ask call =>
      rw [List.getElem?_append]
      split
      · exact .rest _
      · next hle =>
          rw [List.getElem?_eq_none (Nat.le_of_not_lt hle)]
          cases i - w.inquiries.length with
          | zero => exact .ask call
          | succ k => exact .rest none
  | reject hi => exact passage_turn hi (.decline (.inr rfl)) i
  | refuse hi => exact passage_turn hi (.decline (.inl rfl)) i
  | pass hi hkey hopen => exact passage_turn hi (.pass hopen) i
  | enter hi => exact passage_turn hi .enter i
  | crowd hi => exact passage_turn hi .crowd i
  | reply hi => exact passage_turn hi .answer i
  | late hi => exact passage_turn hi .answer i
  | _ => exact .rest _

/-- An answer is for good. -/
theorem answered_rule {w w' : World σ} {i : Nat} {call : Call} {a : Reply}
    (hi : w.inquiries[i]? = some ⟨call, .answered a⟩) (hrule : Rule w w') :
    w'.inquiries[i]? = some ⟨call, .answered a⟩ := by
  have hpassage := passage_rule hrule i
  rw [hi] at hpassage
  generalize w'.inquiries[i]? = inquiry? at hpassage ⊢
  cases hpassage
  rfl

/-! ## Runs -/

/-- What holds at the beginning and is kept by every rule holds ever after. -/
theorem run_induction {P : World σ → Prop} {w : World σ} (hw : P w)
    (hrule : ∀ {w w'}, P w → Rule w w' → P w') (moves : List Move) : P (w.run moves) := by
  induction moves generalizing w with
  | nil => exact hw
  | cons move moves ih => exact ih (hrule hw (step_rule w move))

theorem answered_run {w : World σ} {i : Nat} {call : Call} {a : Reply}
    (hi : w.inquiries[i]? = some ⟨call, .answered a⟩) (moves : List Move) :
    (w.run moves).inquiries[i]? = some ⟨call, .answered a⟩ :=
  run_induction (P := fun w => w.inquiries[i]? = some ⟨call, .answered a⟩) hi answered_rule moves

/-! ## A caller on its own -/

/-- A call with a key is a request for its command, and the caller makes an answer of the reply. -/
theorem perform_of_command {call : Call} {c : Command} (hkey : call.command? = some c)
    (s : Store σ) :
    s.perform call = (call.answer (s.request c).1, (s.request c).2) := by
  cases call with
  | set name value =>
      obtain ⟨key, hname, rfl⟩ := Option.map_eq_some_iff.mp hkey
      rcases hrequest : s.request (.set key value) with ⟨reply | reply, s'⟩ <;>
        simp [Store.perform, Store.set, hname, hrequest, Call.answer, Except.map]
  | get name kind =>
      obtain ⟨key, hname, rfl⟩ := Option.map_eq_some_iff.mp hkey
      rcases hrequest : s.request (.get key kind) with ⟨reply | reply | value, s'⟩
      · simp [Store.perform, Store.get, hname, hrequest, Call.answer, Except.map]
      · simp [Store.perform, Store.get, hname, hrequest, Call.answer, Except.map]
      · by_cases hkind : value.kind = kind <;>
          simp [Store.perform, Store.get, hname, hrequest, Call.answer, Except.map, hkind]
  | reset =>
      obtain rfl := Option.some.inj hkey
      rcases hrequest : s.request .erase with ⟨reply | reply, s'⟩ <;>
        simp [Store.perform, Store.reset, hrequest, Call.answer, Except.map]

theorem perform_of_no_command {call : Call} (hkey : call.command? = none) (s : Store σ) :
    s.perform call = (.error .invalidKey, s) := by
  cases call with
  | set name value =>
      have hname : Key.ofName? name = none := Option.map_eq_none_iff.mp hkey
      simp [Store.perform, Store.set, hname, Except.map]
  | get name kind =>
      have hname : Key.ofName? name = none := Option.map_eq_none_iff.mp hkey
      simp [Store.perform, Store.get, hname, Except.map]
  | reset => cases hkey

theorem run_append (w : World σ) (front back : List Move) :
    w.run (front ++ back) = (w.run front).run back :=
  List.foldl_append

/-- The worker alone runs as it does in the store. -/
theorem run_work (w : World σ) (steps : Nat) :
    let w' := w.run (.replicate steps .work)
    w'.store = w.store.runFor steps ∧ w'.inquiries = w.inquiries ∧ w'.closings = w.closings := by
  induction steps generalizing w with
  | zero => exact ⟨rfl, rfl, rfl⟩
  | succ steps ih =>
      cases hstep : w.store.workerStep? with
      | none =>
          have hwork : w.step .work = w := by simp [step, work, hstep]
          have hstays : w.store.runFor (steps + 1) = w.store.runFor steps := by
            cases steps <;> simp [Store.runFor, hstep]
          simpa [List.replicate_succ, run, hwork, hstays] using ih w
      | some store =>
          simpa [List.replicate_succ, run, step, work, hstep, Store.runFor] using ih (w.step .work)

section Alone

variable {w : World σ} {inquiries : List Inquiry} {call : Call}

/-- The worker settles, and at its time limit a request takes the reply that there is. -/
theorem run_waiting {id : Nat} (h : w.inquiries = inquiries ++ [⟨call, .waiting id⟩]) :
    ∃ moves, (w.run moves).store = w.store.settle ∧
      (w.run moves).inquiries =
        inquiries ++ [⟨call, .answered (call.answer (w.store.settle.replyTo id))⟩] := by
  let settled := w.run (.replicate (2 * w.store.channel.length + 1) .work)
  obtain ⟨hstore, hsame, _⟩ : settled.store = w.store.settle ∧
      settled.inquiries = w.inquiries ∧ settled.closings = w.closings := w.run_work _
  have hlast : settled.inquiries[inquiries.length]? = some ⟨call, .waiting id⟩ := by
    simp [hsame, h]
  have hgo : settled.go inquiries.length true =
      settled.turn inquiries.length (.answered (call.answer (w.store.settle.replyTo id))) := by
    cases hreply : settled.store.replies.lookup id <;>
      simp [go, hlast, await, hreply, Store.replyTo, Call.answer, ← hstore]
  refine ⟨.replicate (2 * w.store.channel.length + 1) .work ++ [.go inquiries.length true], ?_⟩
  rw [run_append]
  change (settled.go _ _).store = _ ∧ (settled.go _ _).inquiries = _
  rw [hgo]
  exact ⟨hstore, inquiries_turn_last _ _ (hsame.trans h)⟩

/-- A caller on its own finds room at once, or not at all. -/
theorem run_offering {c : Command} (h : w.inquiries = inquiries ++ [⟨call, .offering c⟩])
    (hopen : w.store.isClosed = false) :
    ∃ moves, (w.run moves).store = (w.store.request c).2 ∧
      (w.run moves).inquiries =
        inquiries ++ [⟨call, .answered (call.answer (w.store.request c).1)⟩] := by
  have hlast : w.inquiries[inquiries.length]? = some ⟨call, .offering c⟩ := by simp [h]
  cases hadmit : w.store.admit? c with
  | none =>
      have hgo : w.go inquiries.length true =
          w.turn inquiries.length (.answered (.error .queueFull)) := by
        simp [go, hlast, offer, hadmit]
      have hrequest : w.store.request c = (.error .queueFull, w.store) := by
        simp [Store.request, Store.offer, hopen, hadmit]
      refine ⟨[.go inquiries.length true], ?_⟩
      change (w.go _ _).store = _ ∧ (w.go _ _).inquiries = _
      rw [hgo, hrequest, Call.answer]
      exact ⟨rfl, inquiries_turn_last _ _ h⟩
  | some admitted =>
      obtain ⟨id, store⟩ := admitted
      have hgo : w.go inquiries.length true =
          { w.turn inquiries.length (.waiting id) with
            store, log := w.log ++ [.entered inquiries.length id c] } := by
        simp [go, hlast, offer, hadmit]
      have hrequest : w.store.request c = (store.settle.replyTo id, store.settle) := by
        simp [Store.request, Store.offer, hopen, hadmit]
      have hwaiting : (w.go inquiries.length true).inquiries =
          inquiries ++ [⟨call, .waiting id⟩] := by
        rw [hgo]
        exact inquiries_turn_last _ _ h
      obtain ⟨moves, hstore, hinquiries⟩ := run_waiting hwaiting
      refine ⟨.go inquiries.length true :: moves, ?_⟩
      rw [hrequest]
      rw [hgo] at hstore hinquiries
      change (run (w.go _ _) _).store = _ ∧ (run (w.go _ _) _).inquiries = _
      rw [hgo]
      exact ⟨hstore, hinquiries⟩

/-- A call while nobody else acts is a run. -/
theorem run_call (w : World σ) (call : Call) :
    ∃ moves, (w.run moves).store = (w.store.perform call).2 ∧
      (w.run moves).inquiries =
        w.inquiries ++ [⟨call, .answered (w.store.perform call).1⟩] := by
  let asked := w.step (.ask call)
  have hasked : asked.inquiries = w.inquiries ++ [⟨call, .begun⟩] := rfl
  have hlast : asked.inquiries[w.inquiries.length]? = some ⟨call, .begun⟩ := by simp [hasked]
  have hdecline {e : KvError} (hperform : w.store.perform call = (.error e, w.store))
      (hgo : asked.go w.inquiries.length true =
        asked.turn w.inquiries.length (.answered (.error e))) :
      ∃ moves, (w.run moves).store = (w.store.perform call).2 ∧
        (w.run moves).inquiries =
          w.inquiries ++ [⟨call, .answered (w.store.perform call).1⟩] := by
    refine ⟨[.ask call, .go w.inquiries.length true], ?_⟩
    change (asked.go _ _).store = _ ∧ (asked.go _ _).inquiries = _
    rw [hgo, hperform]
    exact ⟨rfl, inquiries_turn_last _ _ hasked⟩
  cases hkey : call.command? with
  | none => exact hdecline (perform_of_no_command hkey _) (by simp [go, hlast, check, hkey])
  | some c =>
      have hperform := perform_of_command hkey w.store
      have hstore : asked.store = w.store := rfl
      cases hclosed : w.store.isClosed with
      | true =>
          refine hdecline (e := .closed) ?_ ?_
          · simp [hperform, Store.request, Store.offer, hclosed, Call.answer]
          · simp [go, hlast, check, hkey, hstore, hclosed]
      | false =>
          have hgo : asked.go w.inquiries.length true =
              asked.turn w.inquiries.length (.offering c) := by
            simp [go, hlast, check, hkey, hstore, hclosed]
          obtain ⟨moves, hmoves⟩ := run_offering
            (asked.inquiries_turn_last (.offering c) hasked) hclosed
          refine ⟨.ask call :: .go w.inquiries.length true :: moves, ?_⟩
          change (run (asked.go _ _) _).store = _ ∧ (run (asked.go _ _) _).inquiries = _
          rw [hgo, hperform]
          exact hmoves

/-- A shutdown while nobody else acts is a run. -/
theorem run_shutdown (w : World σ) : ∃ moves, (w.run moves).store = w.store.shutdown := by
  let j := w.closings.length
  cases hclosed : w.store.isClosed with
  | true =>
      refine ⟨[.close, .proceed j true], ?_⟩
      simp [run, step, proceed, j, hclosed, Store.shutdown]
  | false =>
      let begun := w.run [.close, .proceed j true]
      have hbegun : begun.store = { w.store with isClosed := true } ∧
          begun.closings[j]? = some .telling := by
        simp [begun, run, step, proceed, j, hclosed, advance]
      cases hsend : begun.store.enqueue? .shutdown with
      | none =>
          refine ⟨[.close, .proceed j true], hbegun.1.trans ?_⟩
          rw [hbegun.1] at hsend
          simp [Store.shutdown, hclosed, hsend]
      | some store =>
          have hgo : (begun.proceed j true).store = store := by
            simp [proceed, hbegun.2, hsend]
          let steps := 2 * store.channel.length + 1
          refine ⟨[.close, .proceed j true] ++ .proceed j true :: .replicate steps .work, ?_⟩
          rw [run_append]
          change (run (begun.proceed j true) _).store = _
          rw [((begun.proceed j true).run_work steps).1, hgo]
          rw [hbegun.1] at hsend
          simp [Store.shutdown, hclosed, hsend, Store.settle, steps]

end Alone

end Uplink.Kv.World
