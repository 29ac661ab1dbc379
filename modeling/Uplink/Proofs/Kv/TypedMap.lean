import Mathlib.Data.List.Induction
import Uplink.Proofs.Kv.Stored

/-! # The store as a map

Over plain storage, and as long as no time limit passes, a store is a map from names to values of
one of the kinds: what a get finds is the value of the last set of its name that was accepted,
unless everything was erased since. -/

namespace Uplink.Kv

/-! ## Histories -/

section
variable {ε α : Type}

/-- The last thing found in a history since the last event that cuts it off. -/
def lastSince? (cuts : ε → Bool) (finds? : ε → Option α) (events : List ε) : Option α :=
  (events.reverse.takeWhile fun event => !cuts event).findSome? finds?

theorem lastSince?_concat (cuts : ε → Bool) (finds? : ε → Option α) (events : List ε) (event : ε) :
    lastSince? cuts finds? (events ++ [event]) =
      if cuts event then none else (finds? event).or (lastSince? cuts finds? events) := by
  cases hcuts : cuts event with
  | true => simp [lastSince?, hcuts]
  | false => cases hfinds : finds? event <;> simp [lastSince?, hcuts, hfinds]

end

/-! ## The map -/

/-- A name that cannot be a key. -/
abbrev IsNoKey (name : String) : Prop :=
  name = "" ∨ maxKeyLength < name.utf8ByteSize ∨ '\x00' ∈ name.toList

theorem isNoKey_iff {name : String} : IsNoKey name ↔ isKey name = false := by
  simp only [IsNoKey, isKey, Bool.and_eq_false_iff, Bool.not_eq_false', String.isEmpty_iff,
    decide_eq_false_iff_not, Nat.not_le, List.contains_iff_mem, or_assoc]

theorem isNoKey_of_ofName? {name : String} (h : Key.ofName? name = none) : IsNoKey name := by
  apply isNoKey_iff.mpr
  by_contra hkey
  simp [Key.ofName?, hkey] at h

theorem name_of_ofName? {name : String} {key : Key} (h : Key.ofName? name = some key) :
    ¬ IsNoKey name ∧ key.name = name := by
  have hname := Key.name_of_ofName? h
  refine ⟨?_, hname⟩
  rw [isNoKey_iff, ← hname, key.isKey_name]
  exact Bool.noConfusion

namespace Call

/-- What a get finds, where there is a value or none: it has to be of the wanted kind. -/
def found (value? : Option Value) (kind : Kind) : Except KvError Value :=
  match value? with
  | some value => if value.kind = kind then .ok value else .error .notFound
  | none => .error .notFound

/-- What a map from names to values answers. -/
def expected (look : String → Option Value) : Call → Reply
  | .set name value =>
    if IsNoKey name then .error .invalidKey
    else if Nvs.accepts value then .ok none
    else .error .backend
  | .get name kind =>
    if IsNoKey name then .error .invalidKey else (found (look name) kind).map some
  | .reset => .ok none

/-- The value that a call puts under a name. -/
def puts? (name : String) : Call → Option Value
  | .set other value =>
    if other = name ∧ ¬ IsNoKey other ∧ Nvs.accepts value then some value else none
  | .get _ _ | .reset => none

def isReset : Call → Bool
  | .reset => true
  | .set _ _ | .get _ _ => false

/-- The map after a call. -/
def update (look : String → Option Value) (call : Call) (name : String) : Option Value :=
  if call.isReset then none else (call.puts? name).or (look name)

end Call

/-- The value of the last accepted set of a name since the last reset. -/
def lastSet? (calls : List Call) (name : String) : Option Value :=
  lastSince? Call.isReset (Call.puts? name) calls

theorem lastSet?_concat (calls : List Call) (call : Call) :
    lastSet? (calls ++ [call]) = call.update (lastSet? calls) := by
  funext name
  exact lastSince?_concat _ _ calls call

/-- The map that a history of calls leaves has the last accepted set under each name. -/
theorem foldl_update (calls : List Call) :
    calls.foldl Call.update (fun _ => none) = lastSet? calls := by
  induction calls using List.reverseRecOn with
  | nil => rfl
  | append_singleton calls call ih =>
      rw [List.foldl_append, ih, lastSet?_concat]
      rfl

theorem Call.update_set {name : String} {value : Value} (hname : ¬ IsNoKey name)
    (haccepts : Nvs.accepts value = true) (look : String → Option Value) :
    (Call.set name value).update look = Function.update look name (some value) := by
  funext other
  by_cases hother : other = name
  · subst hother
    simp [update, isReset, puts?, hname, haccepts]
  · simp [update, isReset, puts?, hother, Ne.symm hother]

theorem Call.update_get (look : String → Option Value) (name : String) (kind : Kind) :
    (Call.get name kind).update look = look := by
  funext other
  simp [update, isReset, puts?]

/-- A call that is refused leaves the map as it was. -/
theorem Call.update_of_error {look : String → Option Value} {call : Call} {e : KvError}
    (h : call.expected look = .error e) : call.update look = look := by
  cases call with
  | set other value =>
      funext name
      have hputs : (Call.set other value).puts? name = none := by
        by_contra hsome
        obtain ⟨-, hname, haccepts⟩ :
            other = name ∧ ¬ IsNoKey other ∧ Nvs.accepts value = true := by
          by_contra hnot
          exact hsome (if_neg hnot)
        simp [expected, hname, haccepts] at h
      simp [update, isReset, hputs]
  | get other kind => exact update_get look other kind
  | reset => cases h

theorem Call.expected_of_no_command {call : Call} (h : call.command? = none)
    (look : String → Option Value) : call.expected look = .error .invalidKey := by
  cases call with
  | set name value =>
      have hname : IsNoKey name := isNoKey_of_ofName? (Option.map_eq_none_iff.mp h)
      exact if_pos hname
  | get name kind =>
      have hname : IsNoKey name := isNoKey_of_ofName? (Option.map_eq_none_iff.mp h)
      exact if_pos hname
  | reset => cases h

/-- Plain storage answers a call as the map does. -/
theorem Nvs.answer_execute {call : Call} {c : Command} (h : call.command? = some c) (b : Nvs) :
    call.answer (b.execute c).1 = call.expected b.find? := by
  cases call with
  | set name value =>
      obtain ⟨key, hkey, rfl⟩ := Option.map_eq_some_iff.mp h
      obtain ⟨hname, rfl⟩ := name_of_ofName? hkey
      by_cases haccepts : accepts value = true <;>
        simp [execute, set, haccepts, Call.answer, Call.expected, hname, Except.map]
  | get name kind =>
      obtain ⟨key, hkey, rfl⟩ := Option.map_eq_some_iff.mp h
      obtain ⟨hname, rfl⟩ := name_of_ofName? hkey
      simp only [execute, get, Call.expected, Call.found, if_neg hname]
      cases b.find? key.name with
      | none => rfl
      | some value =>
          by_cases hkind : value.kind = kind <;> simp [hkind, Except.map, Call.answer]
  | reset =>
      obtain rfl := Option.some.inj h
      rfl

/-- Plain storage changes as the map does. -/
theorem Nvs.find?_execute {call : Call} {c : Command} (h : call.command? = some c) (b : Nvs) :
    (b.execute c).2.find? = call.update b.find? := by
  cases call with
  | set name value =>
      obtain ⟨key, hkey, rfl⟩ := Option.map_eq_some_iff.mp h
      obtain ⟨hname, rfl⟩ := name_of_ofName? hkey
      funext other
      simp only [execute, find?_set, Call.update, Call.isReset, Call.puts?]
      by_cases haccepts : accepts value = true <;> by_cases hother : other = key.name <;>
        simp [haccepts, hother, hname, eq_comm]
  | get name kind =>
      obtain ⟨key, -, rfl⟩ := Option.map_eq_some_iff.mp h
      exact (Call.update_get b.find? name kind).symm
  | reset =>
      obtain rfl := Option.some.inj h
      rfl

/-! ## The store -/

namespace Store

section
variable {σ : Type} [Backend σ]

/-- Makes a call through the function for its kind of value. -/
def consult (s : Store σ) : Call → Reply × Store σ
  | .set name value => let (result, s) := s.set name value; (result.map fun () => none, s)
  | .get name .str => let (result, s) := s.getStr name; (result.map (some <| .str ·), s)
  | .get name .u32 => let (result, s) := s.getU32 name; (result.map (some <| .u32 ·), s)
  | .get name .blob => let (result, s) := s.getBlob name; (result.map (some <| .blob ·), s)
  | .reset => let (result, s) := s.reset; (result.map fun () => none, s)

/-- Makes calls one after the other. -/
def attend (s : Store σ) (calls : List Call) : Store σ :=
  calls.foldl (fun s call => (s.consult call).2) s

/-- What a get finds is of the kind that was asked for. -/
theorem kind_of_get {s s' : Store σ} {name : String} {kind : Kind} {value : Value}
    (h : s.get name kind = (.ok value, s')) : value.kind = kind := by
  unfold get at h
  cases hkey : Key.ofName? name with
  | none => simp [hkey] at h
  | some key =>
      rcases hrequest : s.request (.get key kind) with ⟨e | _ | found, s''⟩
      · simp [hkey, hrequest] at h
      · simp [hkey, hrequest] at h
      · by_cases hkind : found.kind = kind
        · simp only [hkey, hrequest, if_pos hkind, Prod.mk.injEq, Except.ok.injEq] at h
          exact h.1 ▸ hkind
        · simp [hkey, hrequest, hkind] at h

/-- The functions for each kind of value add nothing: a get has looked at the kind already. -/
theorem consult_eq_perform (s : Store σ) (call : Call) : s.consult call = s.perform call := by
  cases call with
  | set name value => rfl
  | reset => rfl
  | get name kind =>
      rcases hget : s.get name kind with ⟨e | value, s'⟩
      · cases kind <;>
          simp [consult, perform, getStr, getU32, getBlob, hget, Except.map]
      · have hkind := kind_of_get hget
        subst hkind
        cases value <;>
          simp only [Value.kind] at hget <;>
          simp [consult, perform, getStr, getU32, getBlob, hget, Except.map, Value.kind]

end

/-- A store that keeps up, with what is under each name. -/
structure Holds (s : Store Nvs) (look : String → Option Value) : Prop where
  isReady : s.IsReady
  find?_eq : s.backend.find? = look

theorem holds_spawn : (spawn Nvs.empty).Holds fun _ => none :=
  ⟨isReady_spawn _, rfl⟩

variable {s : Store Nvs} {look : String → Option Value}

theorem Holds.request (hs : s.Holds look) (c : Command) :
    (s.request c).1 = (s.backend.execute c).1 ∧
      (s.request c).2.Holds (s.backend.execute c).2.find? := by
  obtain ⟨hreply, hready, hbackend⟩ := hs.isReady.request (c := c) rfl
  exact ⟨hreply, hready, congrArg _ hbackend⟩

theorem Holds.perform (hs : s.Holds look) (call : Call) :
    (s.perform call).1 = call.expected look ∧ (s.perform call).2.Holds (call.update look) := by
  cases hcommand : call.command? with
  | none =>
      have hrefused := Call.expected_of_no_command hcommand look
      rw [World.perform_of_no_command hcommand, Call.update_of_error hrefused]
      exact ⟨hrefused.symm, hs⟩
  | some c =>
      obtain ⟨hreply, hholds⟩ := hs.request c
      obtain rfl := hs.find?_eq
      rw [World.perform_of_command hcommand]
      constructor
      · rw [hreply, Nvs.answer_execute hcommand]
      · rw [← Nvs.find?_execute hcommand]
        exact hholds

theorem Holds.consult (hs : s.Holds look) (call : Call) :
    (s.consult call).1 = call.expected look ∧ (s.consult call).2.Holds (call.update look) := by
  rw [consult_eq_perform]
  exact hs.perform call

theorem Holds.attend (hs : s.Holds look) (calls : List Call) :
    (s.attend calls).Holds (calls.foldl Call.update look) := by
  induction calls generalizing s look with
  | nil => exact hs
  | cons call calls ih => exact ih (hs.consult call).2

/-! ## The functions for each kind of value -/

theorem Holds.set (hs : s.Holds look) {name : String} {value : Value} (hname : ¬ IsNoKey name)
    (haccepts : Nvs.accepts value = true) :
    ∃ s', s.set name value = (.ok (), s') ∧ s'.Holds (Function.update look name (some value)) := by
  obtain ⟨hanswer, hholds⟩ := hs.perform (.set name value)
  rw [Call.update_set hname haccepts] at hholds
  simp only [Call.expected, if_neg hname, if_pos haccepts] at hanswer
  obtain ⟨_, hok⟩ := exists_of_map_ok hanswer
  exact ⟨_, Prod.ext hok rfl, hholds⟩

theorem Holds.get (hs : s.Holds look) {name : String} (hname : ¬ IsNoKey name) (kind : Kind) :
    ∃ s', s.get name kind = (Call.found (look name) kind, s') ∧ s'.Holds look := by
  obtain ⟨hanswer, hholds⟩ := hs.perform (.get name kind)
  rw [Call.update_get] at hholds
  have hmap : (s.get name kind).1.map some = (Call.found (look name) kind).map some :=
    hanswer.trans (if_neg hname)
  have hresult : (s.get name kind).1 = Call.found (look name) kind := by
    cases hgot : (s.get name kind).1 <;> cases hfound : Call.found (look name) kind <;>
      simp_all [Except.map]
  exact ⟨_, Prod.ext hresult rfl, hholds⟩

theorem Holds.getStr (hs : s.Holds look) {name text : String} (hname : ¬ IsNoKey name)
    (hlook : look name = some (.str text)) :
    ∃ s', s.getStr name = (.ok text, s') ∧ s'.Holds look := by
  obtain ⟨s', hget, hs'⟩ := hs.get hname .str
  exact ⟨s', by simp [Store.getStr, hget, hlook, Call.found, Value.kind], hs'⟩

theorem Holds.getStr_missing (hs : s.Holds look) {name : String} (hname : ¬ IsNoKey name)
    (hlook : look name = none) :
    ∃ s', s.getStr name = (.error .notFound, s') ∧ s'.Holds look := by
  obtain ⟨s', hget, hs'⟩ := hs.get hname .str
  exact ⟨s', by simp [Store.getStr, hget, hlook, Call.found], hs'⟩

theorem Holds.getBlob (hs : s.Holds look) {name : String} {octets : Octets}
    (hname : ¬ IsNoKey name) (hlook : look name = some (.blob octets)) :
    ∃ s', s.getBlob name = (.ok octets, s') ∧ s'.Holds look := by
  obtain ⟨s', hget, hs'⟩ := hs.get hname .blob
  exact ⟨s', by simp [Store.getBlob, hget, hlook, Call.found, Value.kind], hs'⟩

theorem Holds.getBlob_missing (hs : s.Holds look) {name : String} (hname : ¬ IsNoKey name)
    (hlook : look name = none) :
    ∃ s', s.getBlob name = (.error .notFound, s') ∧ s'.Holds look := by
  obtain ⟨s', hget, hs'⟩ := hs.get hname .blob
  exact ⟨s', by simp [Store.getBlob, hget, hlook, Call.found], hs'⟩

theorem Holds.reset (hs : s.Holds look) :
    ∃ s', s.reset = (.ok (), s') ∧ s'.Holds fun _ => none := by
  obtain ⟨hanswer, hholds⟩ := hs.perform .reset
  obtain ⟨_, hok⟩ := exists_of_map_ok hanswer
  exact ⟨_, Prod.ext hok rfl, hholds⟩

/-! ## Histories of calls -/

/-- Whatever calls were made of a new store, its next answer is that of a map which has the value
of the last accepted set under each name, and none from before the last reset. A name that is
empty or too long or has a zero in it is refused by sets and gets alike. A set that is refused
changes no answer, now or later. -/
theorem answers_of_map (before : List Call) :
    let s := (spawn Nvs.empty).attend before
    (∀ call, (s.consult call).1 = call.expected (lastSet? before)) ∧
      (∀ name, name = "" ∨ 15 < name.utf8ByteSize ∨ '\x00' ∈ name.toList →
        (∀ value, (s.consult (.set name value)).1 = .error .invalidKey) ∧
          ∀ kind, (s.consult (.get name kind)).1 = .error .invalidKey) ∧
      ∀ name value e, (s.consult (.set name value)).1 = .error e → ∀ after call,
        (((s.consult (.set name value)).2.attend after).consult call).1 =
          ((s.attend after).consult call).1 := by
  intro s
  have hs : s.Holds (lastSet? before) := foldl_update before ▸ holds_spawn.attend before
  refine ⟨fun call => (hs.consult call).1, ?_, ?_⟩
  · intro name hname
    constructor
    · intro value
      rw [(hs.consult _).1]
      exact if_pos hname
    · intro kind
      rw [(hs.consult _).1]
      exact if_pos hname
  · intro name value e herror after call
    obtain ⟨hanswer, hrefused⟩ := hs.consult (.set name value)
    rw [Call.update_of_error (hanswer.symm.trans herror)] at hrefused
    rw [((hrefused.attend after).consult call).1, ((hs.attend after).consult call).1]

example :
    let s := (spawn Nvs.empty).attend [.set "mode" (.u32 1), .set "mode" (.str "on")]
    (s.consult (.get "mode" .u32)).1 = .error .notFound ∧
      (s.consult (.get "mode" .str)).1 = .ok (some (.str "on")) := by
  decide +kernel

end Store

end Uplink.Kv
