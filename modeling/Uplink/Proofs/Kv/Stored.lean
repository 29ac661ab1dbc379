import Uplink.Proofs.Kv.Solitary

/-! # What is stored

What a caller learns of the values in a store from the answers that it gets, when the backend may
fail at any time. -/

namespace Uplink.Kv

section
variable {σ : Type} [Backend σ]

/-- What callers rely on of a backend that may fail any command at any time, where `stored` tells
what is under a name. What failed was done or not, and an erase that failed may have removed some
of the values. -/
structure Backend.Honest (stored : σ → String → Option Value) : Prop where
  get_stored (b : σ) (key : Key) (kind : Kind) (name : String) :
    stored (execute b (.get key kind)).2 name = stored b name
  /-- What is found is there. -/
  get_ok (b : σ) (key : Key) (kind : Kind) (value? : Option Value) :
    (execute b (.get key kind)).1 = some (.ok value?) → stored b key.name = value?
  /-- What is not found is not there, or is of another kind. -/
  get_notFound (b : σ) (key : Key) (kind : Kind) (value : Value) :
    (execute b (.get key kind)).1 = some (.error .notFound) → stored b key.name = some value →
      value.kind ≠ kind
  set_other (b : σ) (key : Key) (value : Value) (name : String) :
    name ≠ key.name → stored (execute b (.set key value)).2 name = stored b name
  set_ok (b : σ) (key : Key) (value : Value) (value? : Option Value) :
    (execute b (.set key value)).1 = some (.ok value?) →
      stored (execute b (.set key value)).2 key.name = some value
  set_any (b : σ) (key : Key) (value : Value) :
    stored (execute b (.set key value)).2 key.name = some value ∨
      stored (execute b (.set key value)).2 key.name = stored b key.name
  erase_ok (b : σ) (value? : Option Value) (name : String) :
    (execute b .erase).1 = some (.ok value?) → stored (execute b .erase).2 name = none
  erase_any (b : σ) (name : String) :
    stored (execute b .erase).2 name = none ∨ stored (execute b .erase).2 name = stored b name

end

namespace Nvs

theorem lookup_filter_ne {name other : String} (hother : other ≠ name)
    (entries : List (String × Value)) :
    (entries.filter fun entry => !decide (entry.1 = name)).lookup other =
      entries.lookup other := by
  induction entries with
  | nil => rfl
  | cons entry entries ih =>
      by_cases hentry : entry.1 = name
      · have hne : (other == entry.1) = false := by simpa [hentry] using hother
        rw [List.filter_cons_of_neg (by simp [hentry]), List.lookup_cons, hne]
        exact ih
      · rw [List.filter_cons_of_pos (by simp [hentry]), List.lookup_cons, List.lookup_cons, ih]

theorem find?_set (s : Nvs) (name : String) (value : Value) (other : String) :
    (s.set name value).2.find? other =
      if accepts value = true ∧ other = name then some value else s.find? other := by
  by_cases haccepts : accepts value = true
  · by_cases hother : other = name
    · simp [set, haccepts, find?, hother]
    · have hne : (other == name) = false := by simpa using hother
      simp [set, haccepts, find?, hother, List.lookup_cons, hne, lookup_filter_ne hother]
  · simp [set, haccepts]

/-- Plain storage is honest: it fails nothing but a blob that is too long. -/
theorem honest : Backend.Honest find? where
  get_stored := by
    intro b key kind name
    rfl
  get_ok := by
    intro b key kind value? h
    cases hfind : b.find? key.name with
    | none => simp [Backend.execute, execute, get, hfind, Except.map] at h
    | some value =>
        by_cases hkind : value.kind = kind
        · simpa [Backend.execute, execute, get, hfind, hkind, Except.map] using h
        · simp [Backend.execute, execute, get, hfind, hkind, Except.map] at h
  get_notFound := by
    intro b key kind value h hfind hkind
    simp [Backend.execute, execute, get, hfind, hkind, Except.map] at h
  set_other := by
    intro b key value name hname
    simp [Backend.execute, execute, find?_set, hname]
  set_ok := by
    intro b key value value? h
    have haccepts : accepts value = true := by
      by_contra hnot
      simp [Backend.execute, execute, set, hnot, Except.map] at h
    simp [Backend.execute, execute, find?_set, haccepts]
  set_any := by
    intro b key value
    by_cases haccepts : accepts value = true
    · simp [Backend.execute, execute, find?_set, haccepts]
    · simp [Backend.execute, execute, find?_set, haccepts]
  erase_ok := by
    intro b value? name _
    rfl
  erase_any := by
    intro b name
    exact .inl rfl

end Nvs

theorem Key.name_of_ofName? {name : String} {key : Key} (h : Key.ofName? name = some key) :
    key.name = name := by
  unfold ofName? at h
  split at h
  · exact (congrArg Key.name (Option.some.inj h)).symm
  · cases h

theorem exists_of_map_ok {α β : Type} {f : α → β} {result : Except KvError α} {b : β}
    (h : result.map f = .ok b) : ∃ a, result = .ok a := by
  cases result with
  | error e => cases h
  | ok a => exact ⟨a, rfl⟩

namespace Store

variable {σ : Type} [Backend σ] {stored : σ → String → Option Value} {s s' : Store σ}

/-- A set leaves other names alone; it may have been done even if it failed, and was done if it
went well. -/
theorem set_cases (hhonest : Backend.Honest stored) (hs : s.Numbered) {name : String}
    {value : Value} {result : Except KvError Unit} (h : s.set name value = (result, s')) :
    s'.Numbered ∧ (∀ other, other ≠ name → stored s'.flush other = stored s.flush other) ∧
      (stored s'.flush name = some value ∨ stored s'.flush name = stored s.flush name) ∧
      (result = .ok () → stored s'.flush name = some value) := by
  unfold set at h
  cases hkey : Key.ofName? name with
  | none =>
      simp only [hkey, Prod.mk.injEq] at h
      obtain ⟨rfl, rfl⟩ := h
      exact ⟨hs, fun _ _ => rfl, .inr rfl, nofun⟩
  | some key =>
      obtain rfl := Key.name_of_ofName? hkey
      simp only [hkey, Prod.mk.injEq] at h
      obtain ⟨rfl, rfl⟩ := h
      obtain ⟨e, -, hrequest⟩ | ⟨hnumbered, hflush, hreply⟩ := request_cases hs (.set key value)
      · rw [hrequest]
        exact ⟨hs, fun _ _ => rfl, .inr rfl, nofun⟩
      · refine ⟨hnumbered, ?_, ?_, ?_⟩
        · intro other hother
          rw [hflush]
          exact hhonest.set_other _ key value other hother
        · rw [hflush]
          exact hhonest.set_any _ key value
        · intro hok
          obtain ⟨value?, hdone⟩ := exists_of_map_ok hok
          rw [hdone] at hreply
          rw [hflush]
          exact hhonest.set_ok _ key value value? (hreply.resolve_left nofun)

/-- Asking for a value changes nothing, and what is answered is true. -/
theorem request_get_cases (hhonest : Backend.Honest stored) (hs : s.Numbered) {key : Key}
    {kind : Kind} {reply : Except KvError (Option Value)}
    (h : s.request (.get key kind) = (reply, s')) :
    s'.Numbered ∧ (∀ other, stored s'.flush other = stored s.flush other) ∧
      (∀ value?, reply = .ok value? → stored s.flush key.name = value?) ∧
      (reply = .error .notFound → ∀ value, stored s.flush key.name = some value →
        value.kind ≠ kind) := by
  obtain ⟨e, he, hrequest⟩ | ⟨hnumbered, hflush, hreply⟩ := request_cases hs (.get key kind)
  · obtain ⟨rfl, rfl⟩ := Prod.mk.inj (h.symm.trans hrequest)
    rcases he with rfl | rfl <;> exact ⟨hs, fun _ => rfl, nofun, nofun⟩
  · rw [h] at hnumbered hflush hreply
    refine ⟨hnumbered, ?_, ?_, ?_⟩
    · intro other
      rw [hflush]
      exact hhonest.get_stored _ key kind other
    · rintro value? rfl
      exact hhonest.get_ok _ key kind value? (hreply.resolve_left nofun)
    · rintro rfl value hvalue
      exact hhonest.get_notFound _ key kind value (hreply.resolve_left nofun) hvalue

/-- A get changes nothing, and its answers are true. -/
theorem get_cases (hhonest : Backend.Honest stored) (hs : s.Numbered) {name : String}
    {kind : Kind} {result : Except KvError Value} (h : s.get name kind = (result, s')) :
    s'.Numbered ∧ (∀ other, stored s'.flush other = stored s.flush other) ∧
      (∀ value, result = .ok value → stored s.flush name = some value) ∧
      (result = .error .notFound → ∀ value, stored s.flush name = some value →
        value.kind ≠ kind) := by
  unfold get at h
  cases hkey : Key.ofName? name with
  | none =>
      simp only [hkey, Prod.mk.injEq] at h
      obtain ⟨rfl, rfl⟩ := h
      exact ⟨hs, fun _ => rfl, nofun, nofun⟩
  | some key =>
      obtain rfl := Key.name_of_ofName? hkey
      rcases hrequest : s.request (.get key kind) with ⟨e | _ | value, s''⟩
      all_goals
        obtain ⟨hnumbered, hkept, hfound, hmissed⟩ := request_get_cases hhonest hs hrequest
        simp only [hkey, hrequest, Prod.mk.injEq] at h
        obtain ⟨rfl, rfl⟩ := h
        refine ⟨hnumbered, hkept, ?_⟩
      · exact ⟨nofun, fun he => hmissed (Except.error.inj he ▸ rfl)⟩
      · exact ⟨nofun, by simp [hfound none rfl]⟩
      · have hvalue : stored s.flush key.name = some value := hfound (some value) rfl
        by_cases hkind : value.kind = kind
        · simp [hkind, hvalue]
        · simp [hkind, hvalue]

/-- An erase may have removed values even if it failed, and removed all if it went well. -/
theorem reset_cases (hhonest : Backend.Honest stored) (hs : s.Numbered)
    {result : Except KvError Unit} (h : s.reset = (result, s')) :
    s'.Numbered ∧
      (∀ name, stored s'.flush name = none ∨ stored s'.flush name = stored s.flush name) ∧
      (result = .ok () → ∀ name, stored s'.flush name = none) := by
  simp only [reset, Prod.mk.injEq] at h
  obtain ⟨rfl, rfl⟩ := h
  obtain ⟨e, -, hrequest⟩ | ⟨hnumbered, hflush, hreply⟩ := request_cases hs .erase
  · rw [hrequest]
    exact ⟨hs, fun _ => .inr rfl, by simp [Except.map]⟩
  · rw [hflush]
    refine ⟨hnumbered, fun name => hhonest.erase_any _ name, ?_⟩
    intro hok name
    obtain ⟨value?, hdone⟩ := exists_of_map_ok hok
    rw [hdone] at hreply
    exact hhonest.erase_ok _ value? name (hreply.resolve_left (by simp))

/-- Whether what others do leaves the value under a name alone. -/
def Interlude.spares (name : String) : Interlude → Bool
  | .call (.set other _) => other ≠ name
  | .call .reset => false
  | .call (.get _ _) | .shutdown | .stall | .resume => true

theorem undergo_stored (hhonest : Backend.Honest stored) (hs : s.Numbered)
    {interlude : Interlude} {name : String} (hspares : interlude.spares name = true) :
    stored (s.undergo interlude).flush name = stored s.flush name := by
  obtain ⟨-, heq | ⟨call, c, rfl, hkey, heq⟩⟩ := undergo_cases hs interlude
  · rw [heq]
  · rw [heq]
    cases call with
    | set other value =>
        obtain ⟨key, hname, rfl⟩ := Option.map_eq_some_iff.mp hkey
        obtain rfl := Key.name_of_ofName? hname
        have hne : key.name ≠ name := by simpa [Interlude.spares] using hspares
        exact hhonest.set_other _ key value name hne.symm
    | get other kind =>
        obtain ⟨key, -, rfl⟩ := Option.map_eq_some_iff.mp hkey
        exact hhonest.get_stored _ key kind name
    | reset => simp [Interlude.spares] at hspares

end Store

end Uplink.Kv
