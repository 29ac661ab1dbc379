import Uplink.Credentials
import Uplink.Proofs.Kv.Stored

/-! # Stored credentials

The name and the password of a network are written one after the other. What is loaded is the
latest network whose store went well, as long as no store and no reset has failed since. -/

namespace Uplink.Credentials

open Kv (KvError Store Value Backend)

/-! ## The life of a device -/

/-- Stores credentials while others do something between the two writes. -/
def storeAmid {σ : Type} [Backend σ] (between : List Store.Interlude) (c : Credentials)
    (kv : Store σ) : Except KvError Unit × Store σ :=
  match kv.set ssidKey (.str c.ssid) with
  | (.ok (), kv) => (between.foldl Store.undergo kv).set passwordKey (.str c.password)
  | (.error e, kv) => (.error e, kv)

theorem storeAmid_nil {σ : Type} [Backend σ] (c : Credentials) (kv : Store σ) :
    storeAmid [] c kv = c.store kv := rfl

/-- What happens to the store of a device. -/
inductive Deed
  /-- Credentials are stored, with what others do between the two writes. -/
  | store (c : Credentials) (between : List Store.Interlude)
  | reset
  | others (interlude : Store.Interlude)

namespace Deed

/-- What others do. -/
def interludes : Deed → List Store.Interlude
  | .store _ between => between
  | .reset => []
  | .others interlude => [interlude]

/-- Whether only stores and resets write the credentials. -/
def IsFair (deed : Deed) : Prop :=
  ∀ interlude ∈ deed.interludes,
    interlude.spares ssidKey = true ∧ interlude.spares passwordKey = true

variable {σ : Type} [Backend σ]

def carryOut (kv : Store σ) : Deed → Except KvError Unit × Store σ
  | .store c between => storeAmid between c kv
  | .reset => kv.reset
  | .others interlude => (.ok (), kv.undergo interlude)

end Deed

/-- What is known of the stored credentials from the results of stores and resets. -/
structure Ledger where
  /-- The latest ones whose store went well, unless a reset went well after that. -/
  latest : Option Credentials
  /-- The ones whose store has failed since. -/
  failed : List Credentials
  /-- Whether the password may be missing: no store went well since a reset, which may have
  failed, or since the beginning. -/
  mayLack : Bool

namespace Ledger

/-- Nothing was stored. -/
def blank : Ledger :=
  ⟨none, [], true⟩

/-- Takes down the result of a deed. -/
def note (l : Ledger) : Deed → Except KvError Unit → Ledger
  | .store c _, .ok () => ⟨some c, [], false⟩
  | .store c _, .error _ => { l with failed := c :: l.failed }
  | .reset, .ok () => blank
  | .reset, .error _ => { l with mayLack := true }
  | .others _, _ => l

/-- The credentials of which something may be stored. -/
def candidates (l : Ledger) : List Credentials :=
  l.latest.toList ++ l.failed

theorem mem_candidates_fail {l : Ledger} {c d : Credentials} {e : KvError}
    {between : List Store.Interlude} :
    d ∈ (l.note (.store c between) (.error e)).candidates ↔ d = c ∨ d ∈ l.candidates := by
  simp only [note, candidates, List.mem_append, List.mem_cons]
  exact or_left_comm

end Ledger

section
variable {σ : Type} [Backend σ]

/-- A store and its ledger after some deeds. -/
def live (kv : Store σ) (l : Ledger) : List Deed → Store σ × Ledger
  | [] => (kv, l)
  | deed :: deeds =>
    let (result, kv) := deed.carryOut kv
    live kv (l.note deed result) deeds

end

/-! ## What the ledger explains -/

/-- What is stored comes from the candidates of the ledger. -/
structure Ledger.Explains (l : Ledger) (look : String → Option Value) : Prop where
  ssid : ∀ value, look ssidKey = some value → ∃ d ∈ l.candidates, value = .str d.ssid
  password : ∀ value, look passwordKey = some value →
    ∃ d ∈ l.candidates, value = .str d.password
  missing : look passwordKey = none → l.mayLack = true

theorem Ledger.Explains.of_eq {l : Ledger} {look look' : String → Option Value}
    (h : l.Explains look) (hssid : look' ssidKey = look ssidKey)
    (hpassword : look' passwordKey = look passwordKey) : l.Explains look' where
  ssid := hssid ▸ h.ssid
  password := hpassword ▸ h.password
  missing := hpassword ▸ h.missing

/-- One part of what is stored, after a store that failed: it was written or not. -/
theorem Ledger.part_of_fail {l : Ledger} {part : Credentials → String} {before after : Option Value}
    (hbefore : ∀ value, before = some value → ∃ d ∈ l.candidates, value = .str (part d))
    {c : Credentials} (hafter : after = some (.str (part c)) ∨ after = before)
    (between : List Store.Interlude) (e : KvError) :
    ∀ value, after = some value →
      ∃ d ∈ (l.note (.store c between) (.error e)).candidates, value = .str (part d) := by
  intro value hvalue
  rcases hafter with hnew | hold
  · exact ⟨c, mem_candidates_fail.mpr (.inl rfl), Option.some.inj (hvalue.symm.trans hnew)⟩
  · obtain ⟨d, hd, heq⟩ := hbefore value (hold ▸ hvalue)
    exact ⟨d, mem_candidates_fail.mpr (.inr hd), heq⟩

theorem Ledger.Explains.fail {l : Ledger} {look look' : String → Option Value}
    (h : l.Explains look) {c : Credentials}
    (hssid : look' ssidKey = some (.str c.ssid) ∨ look' ssidKey = look ssidKey)
    (hpassword : look' passwordKey = some (.str c.password) ∨
      look' passwordKey = look passwordKey)
    (between : List Store.Interlude) (e : KvError) :
    (l.note (.store c between) (.error e)).Explains look' where
  ssid := part_of_fail h.ssid hssid between e
  password := part_of_fail h.password hpassword between e
  missing hnone := by
    rcases hpassword with hnew | hold
    · simp [hnew] at hnone
    · exact h.missing (hold ▸ hnone)

theorem Ledger.Explains.failedReset {l : Ledger} {look look' : String → Option Value}
    (h : l.Explains look) (hany : ∀ name, look' name = none ∨ look' name = look name)
    (e : KvError) : (l.note .reset (.error e)).Explains look' where
  ssid value hvalue :=
    h.ssid value ((hany ssidKey).resolve_left (by simp [hvalue]) ▸ hvalue)
  password value hvalue :=
    h.password value ((hany passwordKey).resolve_left (by simp [hvalue]) ▸ hvalue)
  missing _ := rfl

theorem passwordKey_ne_ssidKey : passwordKey ≠ ssidKey := by decide

section
variable {σ : Type} [Backend σ] {stored : σ → String → Option Value} {kv kv' : Store σ}

theorem undergo_all (hhonest : Backend.Honest stored) {between : List Store.Interlude}
    (hfair : ∀ interlude ∈ between,
      interlude.spares ssidKey = true ∧ interlude.spares passwordKey = true)
    (hkv : kv.Numbered) :
    (between.foldl Store.undergo kv).Numbered ∧
      stored (between.foldl Store.undergo kv).flush ssidKey = stored kv.flush ssidKey ∧
      stored (between.foldl Store.undergo kv).flush passwordKey = stored kv.flush passwordKey := by
  induction between generalizing kv with
  | nil => exact ⟨hkv, rfl, rfl⟩
  | cons interlude between ih =>
      obtain ⟨hssid, hpassword⟩ := hfair interlude List.mem_cons_self
      have hnumbered := (Store.undergo_cases hkv interlude).1
      obtain ⟨hlast, hssid', hpassword'⟩ :=
        ih (fun i hi => hfair i (List.mem_cons_of_mem _ hi)) hnumbered
      refine ⟨hlast, hssid'.trans ?_, hpassword'.trans ?_⟩
      · exact Store.undergo_stored hhonest hkv hssid
      · exact Store.undergo_stored hhonest hkv hpassword

/-- A store that went well leaves both parts, and one that failed leaves either of each. -/
theorem storeAmid_cases (hhonest : Backend.Honest stored) {between : List Store.Interlude}
    (hfair : ∀ interlude ∈ between,
      interlude.spares ssidKey = true ∧ interlude.spares passwordKey = true)
    (hkv : kv.Numbered) {c : Credentials} {result : Except KvError Unit}
    (h : storeAmid between c kv = (result, kv')) :
    kv'.Numbered ∧
      (stored kv'.flush ssidKey = some (.str c.ssid) ∨
        stored kv'.flush ssidKey = stored kv.flush ssidKey) ∧
      (stored kv'.flush passwordKey = some (.str c.password) ∨
        stored kv'.flush passwordKey = stored kv.flush passwordKey) ∧
      (result = .ok () → stored kv'.flush ssidKey = some (.str c.ssid) ∧
        stored kv'.flush passwordKey = some (.str c.password)) := by
  unfold storeAmid at h
  rcases hfirst : kv.set ssidKey (.str c.ssid) with ⟨e | _, kv₁⟩
  · rw [hfirst] at h
    obtain ⟨rfl, rfl⟩ := Prod.mk.inj h
    obtain ⟨hnumbered, hother, hssid, -⟩ := Store.set_cases hhonest hkv hfirst
    exact ⟨hnumbered, hssid, .inr (hother _ passwordKey_ne_ssidKey), nofun⟩
  · rw [hfirst] at h
    obtain ⟨hnumbered₁, hother₁, -, hssid₁⟩ := Store.set_cases hhonest hkv hfirst
    obtain ⟨hnumbered₂, hssid₂, hpassword₂⟩ := undergo_all hhonest hfair hnumbered₁
    obtain ⟨hnumbered, hother, hpassword, hdone⟩ := Store.set_cases hhonest hnumbered₂ h
    have hssid : stored kv'.flush ssidKey = some (.str c.ssid) :=
      (hother _ passwordKey_ne_ssidKey.symm).trans (hssid₂.trans (hssid₁ rfl))
    refine ⟨hnumbered, .inl hssid, ?_, fun hok => ⟨hssid, hdone hok⟩⟩
    rw [hpassword₂, hother₁ _ passwordKey_ne_ssidKey] at hpassword
    exact hpassword

theorem explains_carryOut (hhonest : Backend.Honest stored) (hkv : kv.Numbered) {l : Ledger}
    (hl : l.Explains (stored kv.flush)) {deed : Deed} (hfair : deed.IsFair)
    {result : Except KvError Unit} (h : deed.carryOut kv = (result, kv')) :
    kv'.Numbered ∧ (l.note deed result).Explains (stored kv'.flush) := by
  cases deed with
  | store c between =>
      obtain ⟨hnumbered, hssid, hpassword, hdone⟩ := storeAmid_cases hhonest hfair hkv h
      refine ⟨hnumbered, ?_⟩
      rcases result with e | ⟨⟩
      · exact hl.fail hssid hpassword between e
      · obtain ⟨hssid, hpassword⟩ := hdone rfl
        constructor <;> simp [hssid, hpassword, Ledger.note, Ledger.candidates]
  | reset =>
      obtain ⟨hnumbered, hany, hdone⟩ := Store.reset_cases hhonest hkv h
      refine ⟨hnumbered, ?_⟩
      rcases result with e | ⟨⟩
      · exact hl.failedReset hany e
      · constructor <;> simp [hdone rfl, Ledger.note, Ledger.blank]
  | others interlude =>
      obtain ⟨hssid, hpassword⟩ := hfair interlude List.mem_cons_self
      obtain ⟨-, rfl⟩ := Prod.mk.inj h
      refine ⟨(Store.undergo_cases hkv interlude).1, hl.of_eq ?_ ?_⟩
      · exact Store.undergo_stored hhonest hkv hssid
      · exact Store.undergo_stored hhonest hkv hpassword

/-- Whatever happens to a store, its ledger explains what is in it. -/
theorem explains_live (hhonest : Backend.Honest stored) (hkv : kv.Numbered) {l : Ledger}
    (hl : l.Explains (stored kv.flush)) {deeds : List Deed}
    (hfair : ∀ deed ∈ deeds, deed.IsFair) :
    (live kv l deeds).1.Numbered ∧
      (live kv l deeds).2.Explains (stored (live kv l deeds).1.flush) := by
  induction deeds generalizing kv l with
  | nil => exact ⟨hkv, hl⟩
  | cons deed deeds ih =>
      rcases hresult : deed.carryOut kv with ⟨result, kv'⟩
      obtain ⟨hnumbered, hexplains⟩ :=
        explains_carryOut hhonest hkv hl (hfair deed List.mem_cons_self) hresult
      simp only [live, hresult]
      exact ih hnumbered hexplains fun d hd => hfair d (List.mem_cons_of_mem _ hd)

/-! ## Loading -/

theorem getStr_cases (hhonest : Backend.Honest stored) (hkv : kv.Numbered) {name : String}
    {result : Except KvError String} (h : kv.getStr name = (result, kv')) :
    kv'.Numbered ∧ (∀ other, stored kv'.flush other = stored kv.flush other) ∧
      (∀ text, result = .ok text → stored kv.flush name = some (.str text)) ∧
      (result = .error .notFound → ∀ text, stored kv.flush name ≠ some (.str text)) := by
  rcases hget : kv.get name .str with ⟨e | value, kv''⟩
  all_goals
    obtain ⟨hnumbered, hkept, hfound, hmissing⟩ := Store.get_cases hhonest hkv hget
  · simp only [Store.getStr, hget, Prod.mk.injEq] at h
    obtain ⟨rfl, rfl⟩ := h
    refine ⟨hnumbered, hkept, nofun, ?_⟩
    intro he text htext
    exact hmissing (congrArg _ (Except.error.inj he)) _ htext rfl
  · have hvalue := hfound value rfl
    cases value with
    | str text =>
        simp only [Store.getStr, hget, Prod.mk.injEq] at h
        obtain ⟨rfl, rfl⟩ := h
        refine ⟨hnumbered, hkept, ?_, nofun⟩
        intro text' htext
        rw [← Except.ok.inj htext]
        exact hvalue
    | u32 n | blob octets =>
        simp only [Store.getStr, hget, Prod.mk.injEq] at h
        obtain ⟨rfl, rfl⟩ := h
        exact ⟨hnumbered, hkept, nofun, fun _ text htext => by simp [hvalue] at htext⟩

theorem ofStrings_eq_ok {ssid password : String} {c : Credentials}
    (h : ofStrings ssid password = .ok c) : c.ssid = ssid ∧ c.password = password := by
  unfold ofStrings at h
  split at h
  · split at h
    · cases h
      exact ⟨rfl, rfl⟩
    · cases h
  · cases h

theorem eq_of_parts {c d : Credentials} (hssid : c.ssid = d.ssid)
    (hpassword : c.password = d.password) : c = d := by
  cases c
  cases d
  simp_all

/-- What is loaded is stored, but for a password that is missing. -/
theorem load_cases (hhonest : Backend.Honest stored) (hkv : kv.Numbered) {ready : Readiness}
    {c : Credentials} (h : (load kv ready).1 = .ok c) :
    stored kv.flush ssidKey = some (.str c.ssid) ∧
      (stored kv.flush passwordKey = some (.str c.password) ∨
        c.password = "" ∧ ∀ text, stored kv.flush passwordKey ≠ some (.str text)) := by
  unfold load at h
  rcases hfirst : kv.getStr ssidKey with ⟨e | ssid, kv₁⟩
  · simp [hfirst] at h
  · obtain ⟨hnumbered, hkept, hssid, -⟩ := getStr_cases hhonest hkv hfirst
    rcases hsecond : kv₁.getStr passwordKey with ⟨e | password, kv₂⟩
    all_goals
      obtain ⟨-, -, hpassword, hmissing⟩ := getStr_cases hhonest hnumbered hsecond
      simp only [hfirst, hsecond] at h
      rw [hkept] at hpassword hmissing
    · cases e with
      | notFound =>
          have hparts : c.ssid = ssid ∧ c.password = "" := by
            cases hparts : ofStrings ssid "" with
            | error e => simp [hparts, bind, Except.bind] at h
            | ok d =>
                obtain rfl : d = c := by simpa [hparts, bind, Except.bind] using h
                exact ofStrings_eq_ok hparts
          exact ⟨hparts.1 ▸ hssid ssid rfl, .inr ⟨hparts.2, hmissing rfl⟩⟩
      | _ => simp [bind, Except.bind] at h
    · have hparts : c.ssid = ssid ∧ c.password = password := by
        cases hparts : ofStrings ssid password with
        | error e => simp [hparts, bind, Except.bind] at h
        | ok d =>
            obtain rfl : d = c := by simpa [hparts, bind, Except.bind] using h
            exact ofStrings_eq_ok hparts
      exact ⟨hparts.1 ▸ hssid ssid rfl, .inl (hparts.2 ▸ hpassword password rfl)⟩

theorem explains_blank {look : String → Option Value} (hempty : ∀ name, look name = none) :
    Ledger.blank.Explains look := by
  constructor <;> simp [hempty, Ledger.blank]

/-- Whatever happens to a store that was empty at the beginning, over a backend that may fail any
command at any time and may fall so far behind that callers give up: each part of the credentials
that are loaded comes from the latest store that went well or from one that has failed since, and
from none before a reset that went well. Only where no store went well since a reset was tried may
the password be missing. So as long as no store has failed since, and no reset, what is loaded was
stored together. -/
theorem load_of_deeds (hhonest : Backend.Honest stored) (backend : σ)
    (hempty : ∀ name, stored backend name = none) (deeds : List Deed)
    (hfair : ∀ deed ∈ deeds, deed.IsFair) (ready : Readiness) (c : Credentials)
    (hload : (load (live (.spawn backend) .blank deeds).1 ready).1 = .ok c) :
    let l := (live (Store.spawn backend) .blank deeds).2
    (∃ d ∈ l.candidates, c.ssid = d.ssid) ∧
      ((∃ d ∈ l.candidates, c.password = d.password) ∨ c.password = "" ∧ l.mayLack = true) ∧
      (l.failed = [] → l.mayLack = false → l.latest = some c) := by
  intro l
  obtain ⟨hnumbered, hexplains⟩ :=
    explains_live hhonest (Store.numbered_spawn backend) (explains_blank hempty) hfair
  obtain ⟨hssid, hpassword⟩ := load_cases hhonest hnumbered hload
  have hname : ∃ d ∈ l.candidates, c.ssid = d.ssid := by
    obtain ⟨d, hd, heq⟩ := hexplains.ssid _ hssid
    exact ⟨d, hd, Value.str.inj heq⟩
  have hsecret : (∃ d ∈ l.candidates, c.password = d.password) ∨
      c.password = "" ∧ l.mayLack = true := by
    rcases hpassword with hpassword | ⟨hnone, hmissing⟩
    · obtain ⟨d, hd, heq⟩ := hexplains.password _ hpassword
      exact .inl ⟨d, hd, Value.str.inj heq⟩
    · refine .inr ⟨hnone, hexplains.missing ?_⟩
      by_contra hsome
      obtain ⟨value, hvalue⟩ := Option.ne_none_iff_exists'.mp hsome
      obtain ⟨d, -, rfl⟩ := hexplains.password _ hvalue
      exact hmissing _ hvalue
  refine ⟨hname, hsecret, ?_⟩
  intro hfailed hlack
  obtain ⟨d, hd, hdname⟩ := hname
  obtain ⟨d', hd', hdsecret⟩ := hsecret.resolve_right (by simp [hlack])
  simp only [Ledger.candidates, hfailed, List.append_nil, Option.mem_toList] at hd hd'
  obtain rfl : d = d' := Option.some.inj (hd.symm.trans hd')
  rw [hd, eq_of_parts hdname hdsecret]

end

def home : Credentials :=
  ⟨"home", "at home at last", by decide +kernel, by decide +kernel⟩

def cafe : Credentials :=
  ⟨"cafe", "with sugar please", by decide +kernel, by decide +kernel⟩

/-- One store goes well, and the next one gives up on a backend that goes on too late. -/
def relocation : List Deed :=
  [.store home [], .others .stall, .store cafe [], .others .resume]

/-- The new name comes with the old password. -/
theorem load_of_relocation :
    let kv := (live (Store.spawn Kv.Nvs.empty) .blank relocation).1
    let l := (live (Store.spawn Kv.Nvs.empty) .blank relocation).2
    ∃ c, (load kv .empty).1 = .ok c ∧ c.ssid = "cafe" ∧ c.password = "at home at last" ∧
      l.latest = some home ∧ l.failed = [cafe] ∧ (∃ d ∈ l.candidates, c.ssid = d.ssid) := by
  intro kv l
  have hload : (load kv .empty).1 =
      .ok ⟨"cafe", "at home at last", by decide +kernel, by decide +kernel⟩ := by
    rfl
  have hfair : ∀ deed ∈ relocation, deed.IsFair := by
    simp [relocation, Deed.IsFair, Deed.interludes, Store.Interlude.spares]
  exact ⟨_, hload, rfl, rfl, rfl, rfl,
    (load_of_deeds Kv.Nvs.honest .empty (fun _ => rfl) relocation hfair .empty _ hload).1⟩

/-- The password cannot be written: the store fails, and the new name is found with no password. -/
theorem open_after_failed_store :
    let flash : Kv.FaultyNvs := ⟨.empty, [(passwordKey, .error .backend)], [], none, []⟩
    let (result, kv) := cafe.store (Store.spawn flash)
    result = .error .backend ∧
      ∃ c, (load kv .empty).1 = .ok c ∧ c.ssid = cafe.ssid ∧ c.password = "" ∧ c ≠ cafe := by
  refine ⟨rfl, ⟨"cafe", "", by decide +kernel, by decide +kernel⟩, rfl, rfl, rfl, ?_⟩
  decide +kernel

end Uplink.Credentials
