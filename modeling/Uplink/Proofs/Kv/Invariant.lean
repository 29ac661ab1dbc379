import Mathlib.Data.List.Nodup
import Uplink.Proofs.Kv.Semantics

/-! # What holds of a store and its callers between two moves -/

namespace Uplink.Kv

/-! ## Executing one command after the other -/

section
variable {σ : Type} [Backend σ]

/-- The outcomes of commands that are executed one after the other. -/
def Backend.run (backend : σ) : List Command → List (Option Reply) × σ
  | [] => ([], backend)
  | c :: cs =>
    let (outcome, backend) := Backend.execute backend c
    let (outcomes, backend) := Backend.run backend cs
    (outcome :: outcomes, backend)

theorem Backend.run_concat (backend : σ) (cs : List Command) (c : Command) :
    Backend.run backend (cs ++ [c]) =
      let (outcomes, backend) := Backend.run backend cs
      let (outcome, backend) := Backend.execute backend c
      (outcomes ++ [outcome], backend) := by
  induction cs generalizing backend with
  | nil => rfl
  | cons d cs ih => simp [run, ih]

/-- Every outcome is one of the backend's own. -/
theorem Backend.exists_execute {backend : σ} {cs : List Command} {outcome : Option Reply}
    (h : outcome ∈ (Backend.run backend cs).1) :
    ∃ (s : σ) (c : Command), (Backend.execute s c).1 = outcome := by
  induction cs generalizing backend with
  | nil => cases h
  | cons c cs ih =>
      rcases List.mem_cons.mp h with rfl | h
      · exact ⟨backend, c, rfl⟩
      · exact ih h

end

/-! ## Commands on their way -/

/-- The numbered command of a request in the channel. -/
def Request.numbered? : Request → Option (Nat × Command)
  | .command id c => some (id, c)
  | .shutdown => none

/-- The command that the worker has taken and not executed. -/
def WorkerState.held : WorkerState → List (Nat × Command)
  | .holding id c => [(id, c)]
  | .idle | .stopped | .broken => []

/-- The commands that have not been executed, oldest first. -/
def Store.pending {σ : Type} (s : Store σ) : List (Nat × Command) :=
  s.worker.held ++ s.channel.filterMap Request.numbered?

namespace Event

def entered? : Event → Option (Nat × Command)
  | .entered _ id c => some (id, c)
  | .executed _ => none

def execution? : Event → Option Execution
  | .executed x => some x
  | .entered _ _ _ => none

/-- The number under which the command of a request enters the channel. -/
def numberOf? (i : Nat) : Event → Option Nat
  | .entered request id _ => if request = i then some id else none
  | .executed _ => none

section
variable (request id i : Nat) (c : Command) (x : Execution)

@[simp] theorem entered?_entered : (entered request id c).entered? = some (id, c) := rfl

@[simp] theorem entered?_executed : (executed x).entered? = none := rfl

@[simp] theorem execution?_entered : (entered request id c).execution? = none := rfl

@[simp] theorem execution?_executed : (executed x).execution? = some x := rfl

@[simp] theorem numberOf?_entered :
    (entered request id c).numberOf? i = if request = i then some id else none := rfl

@[simp] theorem numberOf?_executed : (executed x).numberOf? i = none := rfl

end

end Event

/-- What was executed, with its number. -/
def Execution.entry (x : Execution) : Nat × Command :=
  (x.id, x.command)

namespace World

variable {σ : Type}

/-- The commands that entered the channel, in this order, with their numbers. -/
def entries (w : World σ) : List (Nat × Command) :=
  w.log.filterMap Event.entered?

/-- What the backend executed, in this order. -/
def executions (w : World σ) : List Execution :=
  w.log.filterMap Event.execution?

/-- The numbers that the commands of a request got. -/
def numbers (w : World σ) (i : Nat) : List Nat :=
  w.log.filterMap (Event.numberOf? i)

/-- What the backend executed for a request. -/
def executionsOf (w : World σ) (i : Nat) : List Execution :=
  w.executions.filter fun x => x.id ∈ w.numbers i

/-- How a request stands, by its stage. -/
inductive Standing (w : World σ) (i : Nat) (call : Call) : Stage → Prop
  | begun (hnone : w.numbers i = []) : Standing w i call .begun
  | offering {c} (hkey : call.command? = some c) (hnone : w.numbers i = []) :
      Standing w i call (.offering c)
  | waiting {id c} (hkey : call.command? = some c) (hnumber : w.numbers i = [id])
      (hentry : (id, c) ∈ w.entries) : Standing w i call (.waiting id)
  /-- Its command has not entered the channel. -/
  | unheard {e} (hnone : w.numbers i = [])
      (he : e = .invalidKey ∨ e = .closed ∨ e = .queueFull) :
      Standing w i call (.answered (.error e))
  | late {id} (hnumber : w.numbers i = [id]) : Standing w i call (.answered (.error .timeout))
  /-- Its command was executed, and it was told the outcome. -/
  | heard {id c reply} (hkey : call.command? = some c) (hnumber : w.numbers i = [id])
      (hexecution : ⟨id, c, some reply⟩ ∈ w.executions) :
      Standing w i call (.answered (call.answer reply))

/-- The invariant of a store over a backend that was in the given state at the beginning. -/
structure Served [Backend σ] (backend : σ) (w : World σ) : Prop where
  /-- What has entered was executed, in this order, or is on its way. -/
  conserved : w.entries = w.executions.map Execution.entry ++ w.store.pending
  numbered : w.entries.map Prod.fst = List.range w.store.nextId
  /-- The backend has done what it was given, one command after the other. -/
  outcomes : (w.executions.map (·.outcome), w.store.backend) =
    Backend.run backend (w.executions.map (·.command))
  /-- Every reply is the outcome of the command of this number. -/
  replies : ∀ id reply, (id, reply) ∈ w.store.replies →
    ∃ c, ⟨id, c, some reply⟩ ∈ w.executions
  standing : ∀ i inquiry, w.inquiries[i]? = some inquiry → w.Standing i inquiry.call inquiry.stage
  strangers : ∀ i, w.inquiries.length ≤ i → w.numbers i = []

variable {w w' : World σ}

theorem executionsOf_eq_nil {i : Nat} (h : w.numbers i = []) : w.executionsOf i = [] := by
  simp [executionsOf, h]

theorem Standing.mono {i : Nat} {call : Call} {stage : Stage} (h : w.Standing i call stage)
    (hnumbers : w'.numbers i = w.numbers i) (hentries : w.entries ⊆ w'.entries)
    (hexecutions : w.executions ⊆ w'.executions) : w'.Standing i call stage := by
  cases h with
  | begun hnone => exact .begun (hnumbers.trans hnone)
  | offering hkey hnone => exact .offering hkey (hnumbers.trans hnone)
  | waiting hkey hnumber hentry =>
      exact .waiting hkey (hnumbers.trans hnumber) (hentries hentry)
  | unheard hnone he => exact .unheard (hnumbers.trans hnone) he
  | late hnumber => exact .late (hnumbers.trans hnumber)
  | heard hkey hnumber hexecution =>
      exact .heard hkey (hnumbers.trans hnumber) (hexecutions hexecution)

/-! ## One request comes to its next stage -/

/-- The request stands as its new stage has it, and the others stand as before. -/
theorem standing_turn {i : Nat} {call : Call} {old stage : Stage}
    (hw : ∀ i inquiry, w.inquiries[i]? = some inquiry → w.Standing i inquiry.call inquiry.stage)
    (hi : w.inquiries[i]? = some ⟨call, old⟩)
    (hinquiries : w'.inquiries = (w.turn i stage).inquiries)
    (hmono : ∀ j call stage, j ≠ i → w.Standing j call stage → w'.Standing j call stage)
    (hnew : w'.Standing i call stage) :
    ∀ j inquiry, w'.inquiries[j]? = some inquiry → w'.Standing j inquiry.call inquiry.stage := by
  intro j inquiry hj
  rw [hinquiries, getElem?_turn] at hj
  split at hj
  · next hij =>
      subst hij
      rw [hi] at hj
      obtain rfl := Option.some.inj hj
      exact hnew
  · next hij => exact hmono j _ _ (Ne.symm hij) (hw j inquiry hj)

/-! ## Every rule keeps it -/

section
variable [Backend σ]

theorem conserved_rule (hw : w.entries = w.executions.map Execution.entry ++ w.store.pending)
    (hrule : Rule w w') :
    w'.entries = w'.executions.map Execution.entry ++ w'.store.pending := by
  simp only [entries, executions, Store.pending] at hw ⊢
  cases hrule with
  | take hworker hchannel | stop hworker hchannel =>
      simpa [hworker, hchannel, WorkerState.held, Request.numbered?, List.filterMap_cons] using hw
  | execute hworker | breakDown hworker =>
      simpa [hworker, WorkerState.held, Execution.entry, List.filterMap_cons] using hw
  | enter => simp [hw, Request.numbered?, List.filterMap_cons]
  | tell => simpa [Request.numbered?, List.filterMap_cons] using hw
  | _ => exact hw

theorem numbered_rule (hw : w.entries.map Prod.fst = List.range w.store.nextId)
    (hrule : Rule w w') : w'.entries.map Prod.fst = List.range w'.store.nextId := by
  simp only [entries] at hw ⊢
  cases hrule with
  | execute | breakDown => simpa [List.filterMap_cons] using hw
  | enter => simp [hw, List.range_succ]
  | _ => exact hw

theorem outcomes_rule {backend : σ}
    (hw : (w.executions.map (·.outcome), w.store.backend) =
      Backend.run backend (w.executions.map (·.command))) (hrule : Rule w w') :
    (w'.executions.map (·.outcome), w'.store.backend) =
      Backend.run backend (w'.executions.map (·.command)) := by
  simp only [executions] at hw ⊢
  cases hrule with
  | execute hworker hexecute | breakDown hworker hexecute =>
      simp [Backend.run_concat, ← hw, hexecute]
  | enter => simpa [List.filterMap_cons] using hw
  | _ => exact hw

theorem log_rule (hrule : Rule w w') : w.log <+: w'.log := by
  cases hrule with
  | execute | breakDown | enter => exact List.prefix_append _ _
  | _ => exact List.prefix_refl _

theorem executions_rule (hrule : Rule w w') : w.executions <+: w'.executions :=
  (log_rule hrule).filterMap _

theorem entries_rule (hrule : Rule w w') : w.entries <+: w'.entries :=
  (log_rule hrule).filterMap _

theorem replies_rule
    (hw : ∀ id reply, (id, reply) ∈ w.store.replies → ∃ c, ⟨id, c, some reply⟩ ∈ w.executions)
    (hrule : Rule w w') :
    ∀ id reply, (id, reply) ∈ w'.store.replies → ∃ c, ⟨id, c, some reply⟩ ∈ w'.executions := by
  have hold (id : Nat) (reply : Reply) (hreply : (id, reply) ∈ w.store.replies) :
      ∃ c, ⟨id, c, some reply⟩ ∈ w'.executions := by
    obtain ⟨c, hc⟩ := hw id reply hreply
    exact ⟨c, (executions_rule hrule).subset hc⟩
  cases hrule with
  | execute =>
      intro id reply hreply
      rcases List.mem_cons.mp hreply with heq | hreply
      · cases heq
        exact ⟨_, by simp [executions]; exact .inr rfl⟩
      · exact hold id reply hreply
  | _ => exact hold

/-- Only a request that enters the channel gets a number. -/
theorem numbers_rule (hrule : Rule w w') (i : Nat) :
    w'.numbers i = w.numbers i ∨ ∃ call c, w.inquiries[i]? = some ⟨call, .offering c⟩ := by
  cases hrule with
  | execute | breakDown => left; simp [numbers, List.filterMap_cons]
  | @enter j call c hj =>
      by_cases hi : j = i
      · exact .inr ⟨call, c, hi ▸ hj⟩
      · left
        simp [numbers, hi]
  | _ => exact .inl rfl

theorem length_inquiries_rule (hrule : Rule w w') :
    w.inquiries.length ≤ w'.inquiries.length := by
  cases hrule with
  | ask => simp
  | enter => simp
  | _ => simp

theorem strangers_rule (hw : ∀ i, w.inquiries.length ≤ i → w.numbers i = [])
    (hrule : Rule w w') : ∀ i, w'.inquiries.length ≤ i → w'.numbers i = [] := by
  intro i hi
  have hle : w.inquiries.length ≤ i := Nat.le_trans (length_inquiries_rule hrule) hi
  rcases numbers_rule hrule i with heq | ⟨call, c, hsome⟩
  · exact heq.trans (hw i hle)
  · rw [List.getElem?_eq_none hle] at hsome
    cases hsome

/-- No two commands have one number. -/
theorem Served.nodup {backend : σ} (hw : Served backend w) : (w.entries.map Prod.fst).Nodup :=
  hw.numbered ▸ List.nodup_range

/-- What was executed is what entered first. -/
theorem Served.executed_prefix {backend : σ} (hw : Served backend w) :
    w.executions.map Execution.entry <+: w.entries :=
  hw.conserved ▸ List.prefix_append _ _

theorem Served.entry_mem {backend : σ} (hw : Served backend w) {x : Execution}
    (hx : x ∈ w.executions) : x.entry ∈ w.entries :=
  hw.executed_prefix.subset (List.mem_map_of_mem hx)

/-- The reply under the number of a command is its own. -/
theorem Served.execution_of_reply {backend : σ} (hw : Served backend w) {id : Nat} {c : Command}
    {reply : Reply} (hentry : (id, c) ∈ w.entries) (hreply : (id, reply) ∈ w.store.replies) :
    ⟨id, c, some reply⟩ ∈ w.executions := by
  obtain ⟨c', hc'⟩ := hw.replies id reply hreply
  have hsame : (id, c') = (id, c) :=
    List.inj_on_of_nodup_map hw.nodup (hw.entry_mem hc') hentry rfl
  cases hsame
  exact hc'

theorem Served.standing_of {backend : σ} (hw : Served backend w) {i : Nat} {call : Call}
    {stage : Stage} (hi : w.inquiries[i]? = some ⟨call, stage⟩) : w.Standing i call stage :=
  hw.standing i _ hi

theorem standing_rule {backend : σ} (hw : Served backend w) (hrule : Rule w w') :
    ∀ i inquiry, w'.inquiries[i]? = some inquiry → w'.Standing i inquiry.call inquiry.stage := by
  have hmono (j : Nat) (call : Call) (stage : Stage) (hnumbers : w'.numbers j = w.numbers j)
      (hj : w.Standing j call stage) : w'.Standing j call stage :=
    hj.mono hnumbers (entries_rule hrule).subset (executions_rule hrule).subset
  -- Every rule but `enter` leaves the numbers alone, and moves one request at most.
  have hturn {i : Nat} {call : Call} {old stage : Stage}
      (hi : w.inquiries[i]? = some ⟨call, old⟩)
      (hinquiries : w'.inquiries = (w.turn i stage).inquiries)
      (hlog : ∀ j, w'.numbers j = w.numbers j) (hnew : w.Standing i call stage) :
      ∀ j inquiry, w'.inquiries[j]? = some inquiry → w'.Standing j inquiry.call inquiry.stage :=
    standing_turn hw.standing hi hinquiries (fun j _ _ _ => hmono j _ _ (hlog j))
      (hmono i _ _ (hlog i) hnew)
  have hrest (hinquiries : w'.inquiries = w.inquiries) (hlog : ∀ j, w'.numbers j = w.numbers j) :
      ∀ i inquiry, w'.inquiries[i]? = some inquiry →
        w'.Standing i inquiry.call inquiry.stage := by
    intro i inquiry hi
    exact hmono i _ _ (hlog i) (hw.standing i inquiry (hinquiries ▸ hi))
  cases hrule with
  | execute | breakDown =>
      exact hrest rfl fun j => by simp [numbers, List.filterMap_cons]
  | ask call =>
      intro i inquiry hi
      rw [List.getElem?_append] at hi
      split at hi
      · exact hmono i _ _ rfl (hw.standing i inquiry hi)
      · next hlt =>
          obtain rfl := List.mem_singleton.mp (List.mem_of_getElem? hi)
          exact .begun (hw.strangers i (Nat.le_of_not_lt hlt))
  | reject hi =>
      cases hw.standing_of hi with
      | begun hnone => exact hturn hi rfl (fun _ => rfl) (.unheard hnone (.inl rfl))
  | refuse hi =>
      cases hw.standing_of hi with
      | begun hnone => exact hturn hi rfl (fun _ => rfl) (.unheard hnone (.inr (.inl rfl)))
  | pass hi hkey =>
      cases hw.standing_of hi with
      | begun hnone => exact hturn hi rfl (fun _ => rfl) (.offering hkey hnone)
  | @enter i call c hi =>
      cases hw.standing_of hi with
      | offering hkey hnone =>
          refine standing_turn hw.standing hi rfl (fun j _ _ hne => hmono j _ _ ?_)
            (.waiting hkey ?_ ?_)
          · simp [numbers, hne.symm]
          · simpa [numbers] using hnone
          · simp [entries]
  | crowd hi =>
      cases hw.standing_of hi with
      | offering hkey hnone =>
          exact hturn hi rfl (fun _ => rfl) (.unheard hnone (.inr (.inr rfl)))
  | reply hi hreply =>
      cases hw.standing_of hi with
      | waiting hkey hnumber hentry =>
          exact hturn hi rfl (fun _ => rfl)
            (.heard hkey hnumber (hw.execution_of_reply hentry hreply))
  | late hi =>
      cases hw.standing_of hi with
      | waiting hkey hnumber hentry => exact hturn hi rfl (fun _ => rfl) (.late hnumber)
  | _ => exact hrest rfl fun _ => rfl

theorem served_rule {backend : σ} (hw : Served backend w) (hrule : Rule w w') :
    Served backend w' where
  conserved := conserved_rule hw.conserved hrule
  numbered := numbered_rule hw.numbered hrule
  outcomes := outcomes_rule hw.outcomes hrule
  replies := replies_rule hw.replies hrule
  standing := standing_rule hw hrule
  strangers := strangers_rule hw.strangers hrule

/-! ## At the beginning, and ever after -/

theorem served_fresh (backend : σ) : Served backend (fresh backend) where
  conserved := rfl
  numbered := rfl
  outcomes := rfl
  replies := by intro id reply hreply; cases hreply
  standing := by intro i inquiry hi; cases hi
  strangers := by intro i _; rfl

theorem served_run (backend : σ) (moves : List Move) :
    Served backend ((fresh backend).run moves) :=
  run_induction (served_fresh backend) served_rule moves

end

end World

end Uplink.Kv
