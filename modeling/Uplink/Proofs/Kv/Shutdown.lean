import Mathlib.Data.List.Induction
import Uplink.Proofs.Kv.Invariant

/-! # Shutdowns

A shutdown closes the store for later requests. It ends the worker too, if it can tell it so in
time; otherwise the worker goes on with what is on its way. -/

namespace Uplink.Kv.World

variable {σ : Type} {w w' : World σ}

/-! ## What a shutdown has done -/

/-- What holds of the shutdowns and of the channel. -/
structure Shut (w : World σ) : Prop where
  /-- A shutdown that has gone on has closed the store, or found it closed. -/
  isClosed : ∀ (j : Nat) (closing : Closing), w.closings[j]? = some closing → closing ≠ .begun →
    w.store.isClosed = true
  /-- A shutdown that waited for the worker has seen it end. -/
  hasEnded : ∀ j : Nat, w.closings[j]? = some (Closing.returned .joined) →
    w.store.worker.hasEnded = true
  length_le : w.store.channel.length ≤ channelDepth

theorem closing_of_advance {j k : Nat} {new closing : Closing}
    (h : (w.advance j new).closings[k]? = some closing) :
    j = k ∧ closing = new ∨ w.closings[k]? = some closing := by
  rw [advance, List.getElem?_set] at h
  split at h
  · next hjk =>
      split at h
      · exact .inl ⟨hjk, (Option.some.inj h).symm⟩
      · cases h
  · exact .inr h

theorem closing_of_close {k : Nat} {closing : Closing}
    (h : (w.closings ++ [.begun])[k]? = some closing) :
    closing = .begun ∨ w.closings[k]? = some closing := by
  rw [List.getElem?_append] at h
  split at h
  · exact .inr h
  · exact .inl (List.mem_singleton.mp (List.mem_of_getElem? h))

/-- The commands on their way are one more than the channel takes, at most. -/
theorem Shut.length_pending_le (hw : w.Shut) : w.store.pending.length ≤ channelDepth + 1 := by
  have hheld : w.store.worker.held.length ≤ 1 := by
    cases w.store.worker <;> simp [WorkerState.held]
  have hchannel : (w.store.channel.filterMap Request.numbered?).length ≤ channelDepth :=
    Nat.le_trans (List.length_filterMap_le _ _) hw.length_le
  simp only [Store.pending, List.length_append]
  omega

variable [Backend σ]

theorem isClosed_rule
    (hw : ∀ (j : Nat) (closing : Closing), w.closings[j]? = some closing → closing ≠ .begun →
      w.store.isClosed = true) (hrule : Rule w w') :
    ∀ (j : Nat) (closing : Closing), w'.closings[j]? = some closing → closing ≠ .begun →
      w'.store.isClosed = true := by
  intro k closing hk hne
  cases hrule with
  | close =>
      rcases closing_of_close hk with hbegun | hk
      · exact absurd hbegun hne
      · exact hw k closing hk hne
  | shut => rfl
  | repeat_ _ hclosed => exact hclosed
  | tell hj | giveUp hj | join hj => exact hw _ _ hj nofun
  | _ => exact hw k closing hk hne

theorem hasEnded_rule
    (hw : ∀ j : Nat, w.closings[j]? = some (Closing.returned .joined) →
      w.store.worker.hasEnded = true) (hrule : Rule w w') :
    ∀ j : Nat, w'.closings[j]? = some (Closing.returned .joined) →
      w'.store.worker.hasEnded = true := by
  intro k hk
  cases hrule with
  | take hworker | execute hworker =>
      have hended := hw k hk
      simp [hworker, WorkerState.hasEnded] at hended
  | stop | breakDown => rfl
  | close => exact hw k ((closing_of_close hk).resolve_left nofun)
  | shut | repeat_ | tell | giveUp =>
      exact hw k ((closing_of_advance hk).resolve_left fun h => nomatch h.2)
  | join _ hended => exact hended
  | _ => exact hw k hk

theorem length_channel_rule (hw : w.store.channel.length ≤ channelDepth) (hrule : Rule w w') :
    w'.store.channel.length ≤ channelDepth := by
  cases hrule with
  | take _ hchannel | stop _ hchannel =>
      rw [hchannel, List.length_cons] at hw
      exact Nat.le_of_succ_le hw
  | enter _ hroom | tell _ hroom =>
      rw [List.length_append]
      exact hroom
  | _ => exact hw

theorem shut_rule (hw : w.Shut) (hrule : Rule w w') : w'.Shut where
  isClosed := isClosed_rule hw.isClosed hrule
  hasEnded := hasEnded_rule hw.hasEnded hrule
  length_le := length_channel_rule hw.length_le hrule

theorem shut_run (backend : σ) (moves : List Move) : ((fresh backend).run moves).Shut :=
  run_induction ⟨nofun, nofun, Nat.zero_le _⟩ shut_rule moves

/-! ## A worker that has ended -/

/-- A worker that has ended does no work. -/
theorem ended_rule (hended : w.store.worker.hasEnded = true) (hrule : Rule w w') :
    w'.store.worker = w.store.worker ∧ w'.store.backend = w.store.backend ∧
      w'.executions = w.executions := by
  cases hrule with
  | take hworker | stop hworker | execute hworker | breakDown hworker =>
      simp [hworker, WorkerState.hasEnded] at hended
  | enter => simp [executions]
  | _ => exact ⟨rfl, rfl, rfl⟩

theorem ended_run (hended : w.store.worker.hasEnded = true) (moves : List Move) :
    (w.run moves).store.backend = w.store.backend ∧ (w.run moves).executions = w.executions := by
  let Same (w' : World σ) : Prop := w'.store.worker = w.store.worker ∧
    w'.store.backend = w.store.backend ∧ w'.executions = w.executions
  have hrun : Same (w.run moves) := by
    refine run_induction ⟨rfl, rfl, rfl⟩ ?_ moves
    rintro u u' ⟨hworker, hbackend, hexecutions⟩ hrule
    obtain ⟨hworker', hbackend', hexecutions'⟩ := ended_rule (hworker ▸ hended) hrule
    exact ⟨hworker'.trans hworker, hbackend'.trans hbackend, hexecutions'.trans hexecutions⟩
  exact hrun.2

/-! ## A closed store -/

/-- What holds of a store ever after a moment when it was closed. -/
structure Closed (backend : σ) (base w : World σ) : Prop where
  served : Served backend w
  isClosed : w.store.isClosed = true
  /-- No request comes to look for room any more. -/
  offering : ∀ (i : Nat) (call : Call) (c : Command),
    w.inquiries[i]? = some ⟨call, .offering c⟩ → base.inquiries[i]? = some ⟨call, .offering c⟩
  /-- What has entered since is of requests that were looking for room, one for each. -/
  entered : ∃ entered, w.entries = base.entries ++ entered ∧
    ∀ entry ∈ entered, ∃ i call, base.inquiries[i]? = some ⟨call, .offering entry.2⟩ ∧
      w.numbers i = [entry.1]
  /-- A request that was begun since has got no further than to learn that the store is closed. -/
  declined : ∀ (i : Nat) (inquiry : Inquiry), base.inquiries.length ≤ i →
    w.inquiries[i]? = some inquiry → inquiry.stage = .begun ∨
      inquiry.stage = .answered (.error .closed) ∨ inquiry.stage = .answered (.error .invalidKey)
  newcomers : ∀ i, base.inquiries.length ≤ i → w.numbers i = []

theorem Closed.refl {backend : σ} (hw : Served backend w) (hclosed : w.store.isClosed = true) :
    Closed backend w w where
  served := hw
  isClosed := hclosed
  offering _ _ _ hi := hi
  entered := ⟨[], (List.append_nil _).symm, nofun⟩
  declined i inquiry hle hi := by
    rw [List.getElem?_eq_none hle] at hi
    cases hi
  newcomers := hw.strangers

theorem isClosed_of_rule (hclosed : w.store.isClosed = true) (hrule : Rule w w') :
    w'.store.isClosed = true := by
  cases hrule with
  | shut => rfl
  | _ => exact hclosed

/-- A number is for good. -/
theorem Served.numbers_eq {backend : σ} (hw : Served backend w) (hrule : Rule w w') {i id : Nat}
    (hnumber : w.numbers i = [id]) : w'.numbers i = [id] := by
  rcases numbers_rule hrule i with heq | ⟨call, c, hi⟩
  · exact heq.trans hnumber
  · cases hw.standing_of hi with
    | offering _ hnone => simp [hnone] at hnumber

theorem offering_rule {backend : σ} {base : World σ} (hw : Closed backend base w)
    (hrule : Rule w w') (i : Nat) (call : Call) (c : Command)
    (hi : w'.inquiries[i]? = some ⟨call, .offering c⟩) :
    base.inquiries[i]? = some ⟨call, .offering c⟩ := by
  have hpassage := passage_rule hrule i
  rw [hi] at hpassage
  generalize hold : w.inquiries[i]? = old at hpassage
  cases hpassage with
  | rest => exact hw.offering i call c hold
  | pass hopen => simp [hw.isClosed] at hopen

theorem entered_rule {backend : σ} {base : World σ} (hw : Closed backend base w)
    (hrule : Rule w w') :
    ∃ entered, w'.entries = base.entries ++ entered ∧
      ∀ entry ∈ entered, ∃ i call, base.inquiries[i]? = some ⟨call, .offering entry.2⟩ ∧
        w'.numbers i = [entry.1] := by
  obtain ⟨entered, hentries, hof⟩ := hw.entered
  have hkept : ∀ entry ∈ entered, ∃ i call,
      base.inquiries[i]? = some ⟨call, .offering entry.2⟩ ∧ w'.numbers i = [entry.1] := by
    intro entry hentry
    obtain ⟨i, call, hi, hnumber⟩ := hof entry hentry
    exact ⟨i, call, hi, hw.served.numbers_eq hrule hnumber⟩
  cases hrule with
  | execute | breakDown =>
      refine ⟨entered, ?_, hkept⟩
      simpa [entries, List.filterMap_cons] using hentries
  | @enter i call c hi =>
      -- Who enters now was looking for room at the beginning already.
      refine ⟨entered ++ [(w.store.nextId, c)], ?_, ?_⟩
      · rw [← List.append_assoc, ← hentries]
        simp [entries]
      · intro entry hentry
        rcases List.mem_append.mp hentry with hentry | hentry
        · exact hkept entry hentry
        · obtain rfl := List.mem_singleton.mp hentry
          cases hw.served.standing_of hi with
          | offering _ hnone =>
              exact ⟨i, call, hw.offering i call c hi, by simpa [numbers] using hnone⟩
  | _ => exact ⟨entered, hentries, hkept⟩

theorem declined_rule {backend : σ} {base : World σ} (hw : Closed backend base w)
    (hrule : Rule w w') (i : Nat) (inquiry : Inquiry) (hle : base.inquiries.length ≤ i)
    (hi : w'.inquiries[i]? = some inquiry) :
    inquiry.stage = .begun ∨ inquiry.stage = .answered (.error .closed) ∨
      inquiry.stage = .answered (.error .invalidKey) := by
  have hpassage := passage_rule hrule i
  have hdeclined := hw.declined i
  rw [hi] at hpassage
  generalize w.inquiries[i]? = old at hpassage hdeclined
  -- A closed store lets nobody pass, so the later stages have not been reached.
  cases hpassage with
  | rest => exact hdeclined inquiry hle rfl
  | ask => exact .inl rfl
  | decline he => rcases he with rfl | rfl <;> simp
  | pass hopen => simp [hw.isClosed] at hopen
  | enter | crowd | answer => simpa using hdeclined _ hle rfl

theorem newcomers_rule {backend : σ} {base : World σ} (hw : Closed backend base w)
    (hrule : Rule w w') (i : Nat) (hle : base.inquiries.length ≤ i) : w'.numbers i = [] := by
  rcases numbers_rule hrule i with heq | ⟨call, c, hi⟩
  · exact heq.trans (hw.newcomers i hle)
  · simpa using hw.declined i _ hle hi

theorem closed_rule {backend : σ} {base : World σ} (hw : Closed backend base w)
    (hrule : Rule w w') : Closed backend base w' where
  served := served_rule hw.served hrule
  isClosed := isClosed_of_rule hw.isClosed hrule
  offering := offering_rule hw hrule
  entered := entered_rule hw hrule
  declined := declined_rule hw hrule
  newcomers := newcomers_rule hw hrule

/-- What a closed store goes on to execute was on its way, or entered since. -/
theorem Closed.executions {backend : σ} {base : World σ} (hbase : Served backend base)
    (hw : Closed backend base w) (hmore : base.executions <+: w.executions) :
    ∃ more entered, w.executions = base.executions ++ more ∧
      more.map Execution.entry <+: base.store.pending ++ entered ∧
      ∀ entry ∈ entered, ∃ i call, base.inquiries[i]? = some ⟨call, .offering entry.2⟩ ∧
        w.numbers i = [entry.1] := by
  obtain ⟨more, heq⟩ := hmore
  obtain ⟨entered, hentries, hof⟩ := hw.entered
  refine ⟨more, entered, heq.symm, ?_, hof⟩
  have hprefix := hw.served.executed_prefix
  rw [← heq, hentries, hbase.conserved, List.map_append, List.append_assoc] at hprefix
  exact (List.prefix_append_right_inj _).mp hprefix

/-- A request to a closed store is declined as soon as it goes on. -/
theorem Closed.go {backend : σ} {base : World σ} (hw : Closed backend base w) {i : Nat}
    (hle : base.inquiries.length ≤ i) (expired : Bool) {inquiry : Inquiry}
    (hi : (w.go i expired).inquiries[i]? = some inquiry) :
    inquiry.stage = .answered (.error .closed) ∨
      inquiry.stage = .answered (.error .invalidKey) := by
  cases hold : w.inquiries[i]? with
  | none => simp [World.go, hold] at hi
  | some old =>
      obtain ⟨call, stage⟩ := old
      rcases hw.declined i _ hle hold with hbegun | hanswered
      · obtain rfl : stage = .begun := hbegun
        have hcheck : w.go i expired = w.turn i (.answered (.error .closed)) ∨
            w.go i expired = w.turn i (.answered (.error .invalidKey)) := by
          cases hkey : call.command? <;> simp [World.go, hold, check, hkey, hw.isClosed]
        rcases hcheck with hgo | hgo
        all_goals
          rw [hgo, getElem?_turn, if_pos rfl, hold] at hi
          obtain rfl := Option.some.inj hi
          simp
      · have hgo : w.go i expired = w := by
          rcases hanswered with heq | heq <;>
            · obtain rfl : stage = _ := heq
              simp [World.go, hold]
        rw [hgo, hold] at hi
        obtain rfl := Option.some.inj hi
        exact hanswered

theorem closed_run {backend : σ} (hw : Served backend w) (hclosed : w.store.isClosed = true)
    (moves : List Move) : Closed backend w (w.run moves) :=
  run_induction (Closed.refl hw hclosed) closed_rule moves

theorem executions_run (w : World σ) (moves : List Move) :
    w.executions <+: (w.run moves).executions :=
  run_induction (P := fun w' => w.executions <+: w'.executions) (List.prefix_refl _)
    (fun h hrule => h.trans (executions_rule hrule)) moves

/-! ## Giving up -/

omit [Backend σ] in
@[simp] theorem closings_go (w : World σ) (i : Nat) (expired : Bool) :
    (w.go i expired).closings = w.closings := by
  cases hi : w.inquiries[i]? with
  | none => simp [go, hi]
  | some inquiry =>
      obtain ⟨call, stage⟩ := inquiry
      cases stage with
      | begun => simp only [go, hi, check]; split <;> (try split) <;> rfl
      | offering c => simp only [go, hi, offer]; split <;> (try split) <;> rfl
      | waiting id => simp only [go, hi, await]; split <;> (try split) <;> rfl
      | answered a => simp [go, hi]

@[simp] theorem closings_work (w : World σ) : w.work.closings = w.closings := by
  cases hstep : w.store.workerStep? <;> simp [work, hstep]

omit [Backend σ] in
/-- What a shutdown comes to when it goes on. -/
theorem closings_proceed (w : World σ) (j : Nat) (expired : Bool) :
    (w.proceed j expired).closings = w.closings ∨
      ∃ new, (w.proceed j expired).closings = (w.advance j new).closings ∧
        (new = .returned .detached → expired = true ∧ channelDepth ≤ w.store.channel.length) := by
  cases hj : w.closings[j]? with
  | none => simp [proceed, hj]
  | some closing =>
      cases closing with
      | begun =>
          cases hclosed : w.store.isClosed with
          | true => exact .inr ⟨.returned .redundant, by simp [proceed, hj, hclosed], by simp⟩
          | false => exact .inr ⟨.telling, by simp [proceed, hj, hclosed], by simp⟩
      | telling =>
          by_cases hroom : w.store.channel.length < channelDepth
          · exact .inr ⟨.joining, by simp [proceed, hj, Store.enqueue?, hroom], by simp⟩
          · cases expired with
            | true =>
                exact .inr ⟨.returned .detached, by simp [proceed, hj, Store.enqueue?, hroom],
                  fun _ => ⟨rfl, Nat.le_of_not_lt hroom⟩⟩
            | false => exact .inl (by simp [proceed, hj, Store.enqueue?, hroom])
      | joining =>
          cases hended : w.store.worker.hasEnded with
          | true => exact .inr ⟨.returned .joined, by simp [proceed, hj, hended], by simp⟩
          | false => exact .inl (by simp [proceed, hj, hended])
      | returned ending => exact .inl (by simp [proceed, hj])

/-- A shutdown gives up only at its time limit, and when there is no room in the channel. -/
theorem detached_of_step {move : Move} {j : Nat}
    (h : (w.step move).closings[j]? = some (.returned .detached)) :
    w.closings[j]? = some (.returned .detached) ∨
      move = .proceed j true ∧ channelDepth ≤ w.store.channel.length := by
  cases move with
  | work => exact .inl (w.closings_work ▸ h)
  | ask call => exact .inl h
  | go i expired => exact .inl (w.closings_go i expired ▸ h)
  | close => exact .inl ((closing_of_close h).resolve_left nofun)
  | proceed k expired =>
      rw [step] at h
      rcases w.closings_proceed k expired with heq | ⟨new, heq, hgivesUp⟩
      · exact .inl (heq ▸ h)
      · rcases closing_of_advance (heq ▸ h) with ⟨rfl, hnew⟩ | hold
        · obtain ⟨rfl, hfull⟩ := hgivesUp hnew.symm
          exact .inr ⟨rfl, hfull⟩
        · exact .inl hold

theorem detached_of_run {backend : σ} {moves : List Move} {j : Nat}
    (h : ((fresh backend).run moves).closings[j]? = some (.returned .detached)) :
    ∃ front back, moves = front ++ .proceed j true :: back ∧
      ((fresh backend).run front).store.channel.length = channelDepth := by
  induction moves using List.reverseRecOn with
  | nil => cases h
  | append_singleton moves move ih =>
      rw [run_append] at h
      rcases detached_of_step h with hold | ⟨rfl, hfull⟩
      · obtain ⟨front, back, rfl, hfull⟩ := ih hold
        exact ⟨front, back ++ [move], by simp, hfull⟩
      · exact ⟨moves, [], rfl, Nat.le_antisymm (shut_run backend moves).length_le hfull⟩

/-! ## After a shutdown -/

/-- Once a shutdown has returned, however callers, worker and shutdowns come between one another
afterwards: a request that is begun later is never executed, and learns that the store is closed,
or that its key is none, as soon as it goes on. When the shutdown has waited for the worker, the
backend does nothing more. When it has given up, which it does only at its time limit and when the
channel is full, the backend goes on with the commands that are on their way, at most one more than
the channel takes, and after them with commands of requests that were looking for room when the
shutdown returned, at most one for each. -/
theorem after_shutdown (backend : σ) (before after : List Move) {j : Nat} {ending : Ending}
    (hreturned : ((fresh backend).run before).closings[j]? = some (.returned ending)) :
    let w := (fresh backend).run before
    let w' := w.run after
    (ending = .joined →
      w'.executions = w.executions ∧ w'.store.backend = w.store.backend) ∧
    (ending = .detached →
      (∃ front back, before = front ++ .proceed j true :: back ∧
        ((fresh backend).run front).store.channel.length = channelDepth) ∧
      w.store.pending.length ≤ channelDepth + 1 ∧
      ∃ more entered, w'.executions = w.executions ++ more ∧
        more.map Execution.entry <+: w.store.pending ++ entered ∧
        ∀ entry ∈ entered, ∃ i call, w.inquiries[i]? = some ⟨call, .offering entry.2⟩ ∧
          w'.numbers i = [entry.1]) ∧
    ∀ i, w.inquiries.length ≤ i →
      w'.executionsOf i = [] ∧
      ∀ expired inquiry, (w'.go i expired).inquiries[i]? = some inquiry →
        inquiry.stage = .answered (.error .closed) ∨
          inquiry.stage = .answered (.error .invalidKey) := by
  intro w w'
  have hw : Served backend w := served_run backend before
  have hshut : w.Shut := shut_run backend before
  have hclosed : w.store.isClosed = true := hshut.isClosed j _ hreturned nofun
  have hw' : Closed backend w w' := closed_run hw hclosed after
  refine ⟨?joined, ?detached, fun i hle => ⟨executionsOf_eq_nil (hw'.newcomers i hle),
    fun expired inquiry => hw'.go hle expired⟩⟩
  case joined =>
    rintro rfl
    exact (ended_run (hshut.hasEnded j hreturned) after).symm
  case detached =>
    rintro rfl
    exact ⟨detached_of_run hreturned, hshut.length_pending_le,
      hw'.executions hw (w.executions_run after)⟩

/-- One caller begins to set a number, and goes on for as long as it need not wait. -/
def visit (i : Nat) : List Move :=
  [.ask (.set "k" (.u32 i.toUInt32)), .go i false, .go i false]

/-- The backend does not go on with the command of the first of a dozen callers, ten others fill
the channel, and a shutdown gives up. -/
def crowd : List Move :=
  visit 0 ++ .work :: (List.range' 1 11).flatMap visit ++
    [.close, .proceed 0 false, .proceed 0 true]

/-- The worker goes on, and the last caller of the crowd finds room. -/
def recovery : List Move :=
  [.work, .work, .go 11 false] ++ .replicate 22 .work

theorem after_shutdown_of_crowd :
    let w := (fresh Nvs.empty).run crowd
    w.closings[0]? = some (.returned .detached) ∧
      (∀ i, 12 ≤ i → (w.run recovery).executionsOf i = []) ∧
      ∃ more entered, (w.run recovery).executions = w.executions ++ more ∧
        more.map Execution.entry <+: w.store.pending ++ entered ∧
        ∀ entry ∈ entered, ∃ i call, w.inquiries[i]? = some ⟨call, .offering entry.2⟩ ∧
          (w.run recovery).numbers i = [entry.1] := by
  have hreturned : ((fresh Nvs.empty).run crowd).closings[0]? = some (.returned .detached) := by
    rfl
  obtain ⟨_, hdetached, hlater⟩ := after_shutdown Nvs.empty crowd recovery hreturned
  exact ⟨hreturned, fun i hle => (hlater i hle).1, (hdetached rfl).2.2⟩

/-- The only shutdown has returned and the backend has executed nothing, and afterwards it executes
twelve commands. -/
theorem executed_after_shutdown :
    let w := (fresh Nvs.empty).run crowd
    w.closings = [.returned .detached] ∧ w.executions = [] ∧
      (w.run recovery).executions.map (·.id) = List.range 12 := by
  exact ⟨by rfl, by rfl, by rfl⟩

end Uplink.Kv.World
