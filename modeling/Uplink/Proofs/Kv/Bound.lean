import Uplink.Proofs.Kv.TypedMap

/-! # The bound on values

Storage refuses a blob that is too long, and so it never has one. It does not look at how long a
string is. A history of calls keeps to the bound exactly if no string in it is too long. -/

namespace Uplink.Kv

/-- Whether a string or a blob is longer than the bound. -/
def Value.isOversize : Value → Bool
  | .str text => maxBlobLength < text.utf8ByteSize
  | .blob octets => maxBlobLength < octets.length
  | .u32 _ => false

namespace Nvs

/-! ## Histories -/

/-- A call of storage itself, where any name will do. -/
def perform (s : Nvs) : Call → Reply × Nvs
  | .set name value => let (result, s) := s.set name value; (result.map fun () => none, s)
  | .get name kind => ((s.get name kind).map some, s)
  | .reset => (.ok none, s.erase)

/-- A call with its reply, and storage before and after it. -/
structure Entry where
  call : Call
  before : Nvs
  reply : Reply
  after : Nvs

def entry (s : Nvs) (call : Call) : Entry :=
  ⟨call, s, (s.perform call).1, (s.perform call).2⟩

def record (s : Nvs) : List Call → List Entry
  | [] => []
  | call :: calls => s.entry call :: (s.entry call).after.record calls

def replay (s : Nvs) (calls : List Call) : Nvs :=
  calls.foldl (fun s call => (s.perform call).2) s

/-- The bound at one call: a get finds nothing that is longer, and a set of what is longer is
refused and leaves the value under its name. -/
structure Entry.KeepsBound (e : Entry) : Prop where
  get_fits : ∀ name kind value, e.call = .get name kind → e.reply = .ok (some value) →
    value.isOversize = false
  set_refused : ∀ name value, e.call = .set name value → value.isOversize = true →
    e.reply = .error .backend ∧ e.after.find? name = e.before.find? name

/-! ## What is under a name -/

/-- The value that a call puts under a name. -/
def puts? (name : String) : Call → Option Value
  | .set other value => if other = name ∧ accepts value = true then some value else none
  | .get _ _ | .reset => none

theorem find?_perform (s : Nvs) (call : Call) (name : String) :
    (s.perform call).2.find? name =
      if call.isReset then none else (puts? name call).or (s.find? name) := by
  cases call with
  | set other value =>
      by_cases hput : other = name ∧ accepts value = true
      · simp [perform, find?_set, Call.isReset, puts?, hput]
      · have hkeep : ¬(accepts value = true ∧ name = other) := fun h => hput ⟨h.2.symm, h.1⟩
        simp [perform, find?_set, Call.isReset, puts?, hput, hkeep]
  | get other kind => rfl
  | reset => rfl

/-- Each name has the value that was put there last, unless everything was erased since. -/
theorem find?_replay (calls : List Call) (name : String) :
    (empty.replay calls).find? name = lastSince? Call.isReset (puts? name) calls := by
  induction calls using List.reverseRecOn with
  | nil => rfl
  | append_singleton calls call ih =>
      rw [replay, List.foldl_append, lastSince?_concat, ← ih]
      exact find?_perform _ call name

section
variable {s : Nvs} {call : Call} {p : Value → Prop}

/-- What holds of every value that is put there holds of every value that is there. -/
theorem forall_find?_perform (hs : ∀ name value, s.find? name = some value → p value)
    (hput : ∀ name value, call = .set name value → accepts value = true → p value) :
    ∀ name value, (s.perform call).2.find? name = some value → p value := by
  intro name value hfind
  rw [find?_perform] at hfind
  split_ifs at hfind
  rcases Option.or_eq_some_iff.mp hfind with hputs | ⟨-, hkept⟩
  · cases call with
    | set other value' =>
        obtain ⟨⟨-, haccepts⟩, heq⟩ := Option.ite_none_right_eq_some.mp hputs
        obtain rfl := Option.some.inj heq
        exact hput _ _ rfl haccepts
    | get other kind => cases hputs
    | reset => cases hputs
  · exact hs name value hkept

theorem forall_find?_replay {calls : List Call}
    (hput : ∀ name value, .set name value ∈ calls → accepts value = true → p value) :
    ∀ name value, (empty.replay calls).find? name = some value → p value := by
  induction calls using List.reverseRecOn with
  | nil => exact nofun
  | append_singleton calls call ih =>
      rw [replay, List.foldl_append]
      refine forall_find?_perform (ih fun name value hmem => hput name value ?_) ?_
      · exact List.mem_append_left _ hmem
      · rintro name value rfl
        exact hput name value (List.mem_append_right _ (List.mem_singleton.mpr rfl))

end

/-! ## Single calls -/

section
variable (s : Nvs) (name : String)

/-- What a get finds is under the name. -/
theorem find?_of_get {kind : Kind} {value : Value}
    (h : (s.perform (.get name kind)).1 = .ok (some value)) : s.find? name = some value := by
  simp only [perform, get] at h
  cases hfind : s.find? name with
  | none => simp [hfind, Except.map] at h
  | some found =>
      by_cases hkind : found.kind = kind
      · simpa [hfind, hkind, Except.map] using h
      · simp [hfind, hkind, Except.map] at h

theorem get_str_iff (text : String) :
    (s.perform (.get name .str)).1 = .ok (some (.str text)) ↔ s.find? name = some (.str text) := by
  constructor
  · exact find?_of_get s name
  · intro hfind
    simp [perform, get, hfind, Value.kind, Except.map]

/-- A string is taken at any length. -/
theorem perform_set_str (text : String) : (s.perform (.set name (.str text))).1 = .ok none :=
  rfl

theorem perform_set_blob {octets : Octets} (h : maxBlobLength < octets.length) :
    s.perform (.set name (.blob octets)) = (.error .backend, s) := by
  have hrefused : accepts (.blob octets) = false := by simpa [accepts] using h
  simp [perform, set, hrefused, Except.map]

end

theorem length_le_of_accepts {octets : Octets} (h : accepts (.blob octets) = true) :
    octets.length ≤ maxBlobLength := by
  simpa [accepts] using h

/-! ## The bound -/

/-- Only a string can be longer. -/
theorem isOversize_eq_false {value : Value} (haccepts : accepts value = true)
    (hstr : ∀ text, value = .str text → text.utf8ByteSize ≤ maxBlobLength) :
    value.isOversize = false := by
  cases value with
  | str text => simpa [Value.isOversize] using hstr text rfl
  | u32 n => rfl
  | blob octets => simpa [Value.isOversize] using length_le_of_accepts haccepts

section
variable {s : Nvs} {call : Call}

theorem keepsBound_entry (hs : ∀ name value, s.find? name = some value → value.isOversize = false)
    (hcall : ∀ name text, call = .set name (.str text) → text.utf8ByteSize ≤ maxBlobLength) :
    (s.entry call).KeepsBound where
  get_fits := by
    rintro name kind value rfl hreply
    exact hs name value (find?_of_get s name hreply)
  set_refused := by
    rintro name value rfl hoversize
    cases value with
    | str text =>
        have hle := hcall name text rfl
        simp only [Value.isOversize, decide_eq_true_eq] at hoversize
        omega
    | u32 n => cases hoversize
    | blob octets =>
        have hrefused := perform_set_blob s name (by simpa [Value.isOversize] using hoversize)
        simp [entry, hrefused]

theorem keepsBound_record {calls : List Call}
    (hs : ∀ name value, s.find? name = some value → value.isOversize = false)
    (hcalls : ∀ name text, .set name (.str text) ∈ calls → text.utf8ByteSize ≤ maxBlobLength) :
    ∀ e ∈ s.record calls, e.KeepsBound := by
  induction calls generalizing s with
  | nil => exact nofun
  | cons call calls ih =>
      have hcall : ∀ name text, call = .set name (.str text) →
          text.utf8ByteSize ≤ maxBlobLength := by
        rintro name text rfl
        exact hcalls name text List.mem_cons_self
      refine List.forall_mem_cons.mpr ⟨keepsBound_entry hs hcall, ?_⟩
      refine ih ?_ fun name text hmem => hcalls name text (List.mem_cons_of_mem _ hmem)
      refine forall_find?_perform hs ?_
      rintro name value rfl haccepts
      exact isOversize_eq_false haccepts fun text htext => hcall name text (htext ▸ rfl)

theorem exists_entry_mem_record {calls : List Call} (h : call ∈ calls) :
    ∃ before : Nvs, before.entry call ∈ s.record calls := by
  induction calls generalizing s with
  | nil => cases h
  | cons first calls ih =>
      rcases List.mem_cons.mp h with rfl | hlater
      · exact ⟨s, List.mem_cons_self⟩
      · obtain ⟨before, hmem⟩ := ih hlater (s := (s.entry first).after)
        exact ⟨before, List.mem_cons_of_mem _ hmem⟩

end

/-- A history of sets, gets and erasures, with any names and values, keeps to the bound at every
call exactly if it has no set of a string that is longer. Whatever the history was, no blob that is
longer is ever found, and a set of one is refused and changes nothing. A string of any length is
taken, and found again as long as it is the last value that was put under its name, with no erasure
since. -/
theorem bound_kept_iff (calls : List Call) :
    let s := empty.replay calls
    ((∀ e ∈ empty.record calls, e.KeepsBound) ↔
      ∀ name text, .set name (.str text) ∈ calls → text.utf8ByteSize ≤ 4000) ∧
    (∀ name kind octets, (s.perform (.get name kind)).1 = .ok (some (.blob octets)) →
      octets.length ≤ 4000) ∧
    (∀ name octets, 4000 < octets.length →
      s.perform (.set name (.blob octets)) = (.error .backend, s)) ∧
    ∀ name text, (s.perform (.set name (.str text))).1 = .ok none ∧
      ((s.perform (.get name .str)).1 = .ok (some (.str text)) ↔
        lastSince? Call.isReset (puts? name) calls = some (.str text)) := by
  intro s
  refine ⟨⟨?_, ?_⟩, ?_, fun name _ => perform_set_blob s name, ?_⟩
  · intro hkept name text hmem
    obtain ⟨before, hentry⟩ := exists_entry_mem_record hmem (s := empty)
    by_contra hlong
    have hoversize : (Value.str text).isOversize = true :=
      decide_eq_true (Nat.lt_of_not_le hlong)
    obtain ⟨hrefused, -⟩ := (hkept _ hentry).set_refused name (.str text) rfl hoversize
    exact absurd ((perform_set_str before name text).symm.trans hrefused) nofun
  · exact keepsBound_record nofun
  · intro name kind octets hget
    exact length_le_of_accepts
      (forall_find?_replay (fun _ _ _ haccepts => haccepts) name _ (find?_of_get s name hget))
  · intro name text
    refine ⟨perform_set_str s name text, ?_⟩
    rw [get_str_iff, find?_replay]

theorem utf8ByteSize_replicate (count : Nat) :
    (String.ofList (List.replicate count 'x')).utf8ByteSize = count := by
  induction count with
  | zero => rfl
  | succ count ih =>
      rw [List.replicate_succ', String.ofList_append, String.utf8ByteSize_append, ih]
      rfl

/-- A string that is one octet too long takes the place of a number, and is found. -/
theorem bound_broken_by_long_string :
    let text := String.ofList (List.replicate 4001 'x')
    let calls := [.set "k" (.u32 7), .set "k" (.str text), .get "k" .str]
    let s := empty.replay calls
    text.utf8ByteSize = 4001 ∧ (s.perform (.get "k" .str)).1 = .ok (some (.str text)) ∧
      (s.perform (.get "k" .u32)).1 = .error .notFound ∧
      ¬∀ e ∈ empty.record calls, e.KeepsBound := by
  intro text calls s
  have hsize : text.utf8ByteSize = 4001 := utf8ByteSize_replicate 4001
  clear_value text
  refine ⟨hsize, rfl, rfl, ?_⟩
  intro hkept
  have hentry : (empty.replay [.set "k" (.u32 7)]).entry (.set "k" (.str text)) ∈
      empty.record calls := .tail _ (.head _)
  have hoversize : (Value.str text).isOversize = true :=
    decide_eq_true (hsize ▸ Nat.lt_succ_self 4000)
  obtain ⟨hrefused, -⟩ := (hkept _ hentry).set_refused "k" (.str text) rfl hoversize
  cases hrefused

end Nvs

end Uplink.Kv
