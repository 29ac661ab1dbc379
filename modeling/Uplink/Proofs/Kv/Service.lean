import Mathlib.Data.List.Perm.Subperm
import Uplink.Proofs.Kv.Invariant

/-! # What callers may rely on

The backend executes the commands in the order in which they entered the channel, each at most
once, and what a caller is told is the outcome of its own command. -/

namespace Uplink.Kv

/-- Whether the errors that a backend makes itself are its failures and missing values only,
whatever it is given to execute. -/
def Backend.OwnErrors {σ : Type} [Backend σ] (backend : σ) : Prop :=
  ∀ (cs : List Command) (e : KvError),
    some (.error e) ∈ (Backend.run backend cs).1 → e = .notFound ∨ e = .backend

theorem ownErrors_nvs (s : Nvs) : Backend.OwnErrors s := by
  intro cs e h
  obtain ⟨s', c, hexecute⟩ := Backend.exists_execute h
  cases c with
  | set key value =>
      by_cases haccepts : Nvs.accepts value = true <;>
        simp_all [Backend.execute, Nvs.execute, Nvs.set, Except.map]
  | get key kind =>
      cases hfind : s'.find? key.name with
      | none => simp_all [Backend.execute, Nvs.execute, Nvs.get, Except.map]
      | some value =>
          by_cases hkind : value.kind = kind <;>
            simp_all [Backend.execute, Nvs.execute, Nvs.get, Except.map]
  | erase => simp [Backend.execute, Nvs.execute] at hexecute

namespace World

variable {σ : Type}

/-- What an answer tells of the backend's work for the request. -/
def Accounts (w : World σ) (i : Nat) (call : Call) (a : Reply) : Prop :=
  match a with
  | .error .invalidKey | .error .queueFull | .error .closed => w.executionsOf i = []
  | .error .timeout => (w.executionsOf i).length ≤ 1
  | .ok _ | .error .notFound | .error .backend =>
    ∃ id c reply, call.command? = some c ∧ w.executionsOf i = [⟨id, c, some reply⟩] ∧
      a = call.answer reply

variable [Backend σ] {backend : σ} {w w' : World σ}

/-! ## Executions -/

/-- No command is executed twice. -/
theorem Served.executed_nodup (hw : Served backend w) : (w.executions.map (·.id)).Nodup := by
  have hids : (w.executions.map (·.id)) = (w.executions.map Execution.entry).map Prod.fst := by
    simp [Execution.entry]
  rw [hids]
  exact hw.nodup.sublist (hw.executed_prefix.sublist.map Prod.fst)

theorem Served.length_numbers_le (hw : Served backend w) (i : Nat) : (w.numbers i).length ≤ 1 := by
  cases hi : w.inquiries[i]? with
  | none => simp [hw.strangers i (List.getElem?_eq_none_iff.mp hi)]
  | some inquiry =>
      obtain ⟨call, stage⟩ := inquiry
      cases hw.standing_of hi with
      | begun hnone | offering _ hnone | unheard hnone => simp [hnone]
      | waiting _ hnumber | late hnumber | heard _ hnumber => simp [hnumber]

theorem Served.length_executionsOf_le (hw : Served backend w) (i : Nat) :
    (w.executionsOf i).length ≤ 1 := by
  have hnodup : ((w.executionsOf i).map (·.id)).Nodup :=
    hw.executed_nodup.sublist (List.filter_sublist.map _)
  have hsubset : (w.executionsOf i).map (·.id) ⊆ w.numbers i := by
    intro id hid
    obtain ⟨x, hx, rfl⟩ := List.mem_map.mp hid
    exact of_decide_eq_true (List.mem_filter.mp hx).2
  calc (w.executionsOf i).length
      = ((w.executionsOf i).map (·.id)).length := (List.length_map _).symm
    _ ≤ (w.numbers i).length := (List.subperm_of_subset hnodup hsubset).length_le
    _ ≤ 1 := hw.length_numbers_le i

theorem Served.executionsOf_eq (hw : Served backend w) {i : Nat} {x : Execution}
    (hx : x ∈ w.executions) (hnumber : w.numbers i = [x.id]) : w.executionsOf i = [x] := by
  have hmem : x ∈ w.executionsOf i := List.mem_filter.mpr ⟨hx, by simp [hnumber]⟩
  obtain ⟨y, hy⟩ : ∃ y, w.executionsOf i = [y] :=
    List.length_eq_one_iff.mp (Nat.le_antisymm (hw.length_executionsOf_le i)
      (List.length_pos_of_mem hmem))
  rw [hy] at hmem ⊢
  rw [List.mem_singleton.mp hmem]

/-! ## Answers -/

theorem answer_of_ownErrors {call : Call} {reply : Reply} {e : KvError}
    (hreply : ∀ e, reply = .error e → e = .notFound ∨ e = .backend)
    (h : call.answer reply = .error e) : e = .notFound ∨ e = .backend := by
  cases reply with
  | error e' =>
      obtain rfl := Except.error.inj h
      exact hreply e' rfl
  | ok value =>
      cases call with
      | set | reset => simp [Call.answer] at h
      | get name kind =>
          cases value with
          | none => exact .inl (Except.error.inj h).symm
          | some value =>
              rw [Call.answer] at h
              split at h
              · cases h
              · exact .inl (Except.error.inj h).symm

/-- The backend's replies are its own. -/
theorem Served.reply_of_ownErrors (hown : Backend.OwnErrors backend) (hw : Served backend w)
    {x : Execution} (hx : x ∈ w.executions) {e : KvError} (he : x.outcome = some (.error e)) :
    e = .notFound ∨ e = .backend := by
  have hmem : x.outcome ∈ (Backend.run backend (w.executions.map (·.command))).1 :=
    hw.outcomes ▸ List.mem_map_of_mem hx
  exact hown _ e (he ▸ hmem)

theorem Served.accounts (hown : Backend.OwnErrors backend) (hw : Served backend w) {i : Nat}
    {call : Call} {a : Reply} (hi : w.inquiries[i]? = some ⟨call, .answered a⟩) :
    w.Accounts i call a := by
  cases hw.standing_of hi with
  | unheard hnone he =>
      rcases he with rfl | rfl | rfl <;> exact executionsOf_eq_nil hnone
  | late => exact hw.length_executionsOf_le i
  | @heard id c reply hkey hnumber hexecution =>
      have htold : ∃ id c reply', call.command? = some c ∧
          w.executionsOf i = [⟨id, c, some reply'⟩] ∧ call.answer reply = call.answer reply' :=
        ⟨id, c, reply, hkey, hw.executionsOf_eq hexecution hnumber, rfl⟩
      generalize hanswer : call.answer reply = a at htold ⊢
      cases a with
      | ok value => exact htold
      | error e =>
          rcases answer_of_ownErrors
            (fun e he => hw.reply_of_ownErrors hown hexecution (congrArg some he)) hanswer with
            rfl | rfl <;> exact htold

/-- However callers, worker and shutdowns come between one another, and whenever time limits
pass: the backend executes the commands one after the other in the order in which they entered
the channel, none twice. A caller that is told of a success, of a missing value or of a failure
of the backend is told the outcome of its own command, which was executed just once. A command
that was refused is not executed, neither before nor after the answer, and one whose reply did not
come in time is executed at most once. -/
theorem own_replies (hown : Backend.OwnErrors backend) (before after : List Move) :
    let w := (fresh backend).run before
    let w' := w.run after
    w'.executions.map Execution.entry <+: w'.entries ∧
      (w'.entries.map Prod.fst).Nodup ∧
      w'.executions.map (·.outcome) =
        (Backend.run backend (w'.executions.map (·.command))).1 ∧
      (∀ i, (w'.executionsOf i).length ≤ 1) ∧
      ∀ i call a, w.inquiries[i]? = some ⟨call, .answered a⟩ → w'.Accounts i call a := by
  intro w w'
  have hw' : Served backend w' := run_induction (served_run backend before) served_rule after
  exact ⟨hw'.executed_prefix, hw'.nodup, congrArg Prod.fst hw'.outcomes,
    hw'.length_executionsOf_le, fun i call a hi => hw'.accounts hown (answered_run hi after)⟩

/-- One caller sets a string, and another reads a number under the same key. -/
def exchange : List Move :=
  [.ask (.set "k" (.str "v")), .ask (.get "k" .u32), .go 0 false, .go 1 false, .go 0 false,
    .go 1 false, .work, .work, .work, .work, .go 1 false, .go 0 false]

theorem own_replies_of_exchange :
    let w := (fresh Nvs.empty).run exchange
    (w.inquiries[0]? = some ⟨.set "k" (.str "v"), .answered (.ok none)⟩ ∧
      w.Accounts 0 (.set "k" (.str "v")) (.ok none)) ∧
    w.inquiries[1]? = some ⟨.get "k" .u32, .answered (.error .notFound)⟩ ∧
      w.Accounts 1 (.get "k" .u32) (.error .notFound) := by
  obtain ⟨_, _, _, _, haccounts⟩ := own_replies (ownErrors_nvs .empty) exchange []
  exact ⟨⟨by rfl, haccounts 0 _ _ (by rfl)⟩, by rfl, haccounts 1 _ _ (by rfl)⟩

end World

end Uplink.Kv
