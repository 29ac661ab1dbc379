import Uplink.Config.Storage
import Uplink.Credentials
import Uplink.Proofs.Config.Blob
import Uplink.Proofs.Kv.TypedMap
import Uplink.Transport

/-! # The settings of a device

The configuration of the link, its URI and the credentials of the network share one store. Each of
them is loaded as it was last stored, whatever was stored of the others. -/

namespace Uplink

open Kv (Store Backend Value IsNoKey Nvs)

/-! ## Single settings -/

namespace LinkConfig

theorem ofBlob_toBlob {c : LinkConfig} (hvalid : c.validate = .ok ()) :
    ofBlob c.toBlob = .ok c := by
  have hdecode := (takesUp_toBlob c).whole []
  rw [List.append_nil] at hdecode
  simp [ofBlob, hdecode, hvalid]

theorem validate_of_ofBlob {octets : Octets} {c : LinkConfig} (h : ofBlob octets = .ok c) :
    c.validate = .ok () := by
  unfold ofBlob at h
  split at h
  · cases h
  · split at h
    · obtain rfl := Except.ok.inj h
      assumption
    · cases h

theorem validate_default : LinkConfig.default.validate = .ok () := by decide

/-- Whatever a store holds, and whatever its backend does, what is loaded is valid. -/
theorem validate_load {σ : Type} [Backend σ] (s : Store σ) :
    (LinkConfig.load s).1.validate = .ok () := by
  unfold load
  split
  · split
    · exact validate_of_ofBlob ‹_›
    · exact validate_default
  · exact validate_default

end LinkConfig

theorem Credentials.ofStrings_parts (c : Credentials) :
    Credentials.ofStrings c.ssid c.password = .ok c := by
  simp [ofStrings, c.isSsid_ssid, c.isPassword_password]

namespace Settings

theorem configKey_isKey : ¬ IsNoKey configKey := by decide +kernel

theorem uriKey_isKey : ¬ IsNoKey uriKey := by decide +kernel

theorem ssidKey_isKey : ¬ IsNoKey ssidKey := by decide +kernel

theorem passwordKey_isKey : ¬ IsNoKey passwordKey := by decide +kernel

section
variable {s : Store Nvs} {look : String → Option Value}

theorem load_config (hs : s.Holds look) {c? : Option LinkConfig}
    (hlook : look configKey = c?.map fun c => .blob c.toBlob)
    (hvalid : ∀ c ∈ c?, c.validate = .ok ()) :
    ∃ s', LinkConfig.load s = (c?.getD .default, s') ∧ s'.Holds look := by
  cases c? with
  | none =>
      obtain ⟨s', hget, hs'⟩ := hs.getBlob_missing configKey_isKey hlook
      exact ⟨s', by simp [LinkConfig.load, hget], hs'⟩
  | some c =>
      obtain ⟨s', hget, hs'⟩ := hs.getBlob configKey_isKey hlook
      have hread := LinkConfig.ofBlob_toBlob (hvalid c rfl)
      exact ⟨s', by simp [LinkConfig.load, hget, hread], hs'⟩

theorem load_uri (hs : s.Holds look) {uri? : Option String}
    (hlook : look uriKey = uri?.map .str) :
    ∃ s', loadUri s = (uri?.filter (· ≠ ""), s') ∧ s'.Holds look := by
  cases uri? with
  | none =>
      obtain ⟨s', hget, hs'⟩ := hs.getStr_missing uriKey_isKey hlook
      exact ⟨s', by simp [loadUri, hget], hs'⟩
  | some uri =>
      obtain ⟨s', hget, hs'⟩ := hs.getStr uriKey_isKey hlook
      refine ⟨s', ?_, hs'⟩
      by_cases hempty : uri = "" <;> simp [loadUri, hget, hempty, Option.filter]

theorem load_credentials (hs : s.Holds look) {c? : Option Credentials}
    (hssid : look ssidKey = c?.map (.str ·.ssid))
    (hpassword : look passwordKey = c?.map (.str ·.password)) (ready : Readiness) :
    ∃ s', (Credentials.load s ready).1 = c?.elim (.error .noCredentials) .ok ∧
      (Credentials.load s ready).2.1 = s' ∧ s'.Holds look := by
  cases c? with
  | none =>
      obtain ⟨s', hget, hs'⟩ := hs.getStr_missing ssidKey_isKey hssid
      exact ⟨s', by simp [Credentials.load, hget], by simp [Credentials.load, hget], hs'⟩
  | some c =>
      obtain ⟨s₁, hname, hs₁⟩ := hs.getStr ssidKey_isKey hssid
      obtain ⟨s₂, hsecret, hs₂⟩ := hs₁.getStr passwordKey_isKey hpassword
      have hload : Credentials.load s ready =
          (.ok c, s₂, (ready.set Readiness.provisioned).1) := by
        simp [Credentials.load, hname, hsecret, bind, Except.bind, c.ofStrings_parts]
      exact ⟨s₂, by rw [hload]; rfl, by rw [hload], hs₂⟩

end

/-! ## A history of stores -/

/-- What happens to the settings of a device. -/
inductive Deed
  | storeConfig (c : LinkConfig)
  | storeUri (uri : String)
  | storeCredentials (c : Credentials)
  | reset
  /-- All settings are loaded. -/
  | load

namespace Deed

def isReset : Deed → Bool
  | .reset => true
  | .storeConfig _ | .storeUri _ | .storeCredentials _ | .load => false

def config? : Deed → Option LinkConfig
  | .storeConfig c => some c
  | .storeUri _ | .storeCredentials _ | .reset | .load => none

def uri? : Deed → Option String
  | .storeUri uri => some uri
  | .storeConfig _ | .storeCredentials _ | .reset | .load => none

def credentials? : Deed → Option Credentials
  | .storeCredentials c => some c
  | .storeConfig _ | .storeUri _ | .reset | .load => none

def carryOut {σ : Type} [Backend σ] (s : Store σ) : Deed → Except TransportError Unit × Store σ
  | .storeConfig c => c.store s
  | .storeUri uri => Uplink.storeUri uri s
  | .storeCredentials c => let (result, s) := c.store s; (result.mapError .ofKvError, s)
  | .reset => let (result, s) := s.reset; (result.mapError .ofKvError, s)
  | .load =>
    let (_, s) := LinkConfig.load s
    let (_, s) := loadUri s
    let (_, s, _) := Credentials.load s .empty
    (.ok (), s)

/-- How a deed turns out: only a configuration that is not valid is refused. -/
def expected : Deed → Except TransportError Unit
  | .storeConfig c => c.validate.mapError .ofConfigError
  | .storeUri _ | .storeCredentials _ | .reset | .load => .ok ()

end Deed

/-- A deed with its result. -/
structure Entry where
  deed : Deed
  result : Except TransportError Unit

/-- What was stored last with success, and not removed by a reset since. -/
def lastStored? {α : Type} (part? : Deed → Option α) (entries : List Entry) : Option α :=
  Kv.lastSince? (·.deed.isReset)
    (fun entry => if entry.result.isOk then part? entry.deed else none) entries

/-- A store after some deeds, with the record of them. -/
def live {σ : Type} [Backend σ] (s : Store σ) (entries : List Entry) :
    List Deed → Store σ × List Entry
  | [] => (s, entries)
  | deed :: deeds =>
    let (result, s) := deed.carryOut s
    live s (entries ++ [⟨deed, result⟩]) deeds

section
variable {α : Type} {part? : Deed → Option α} {deed : Deed}

theorem lastStored?_concat (entries : List Entry) (result : Except TransportError Unit) :
    lastStored? part? (entries ++ [⟨deed, result⟩]) =
      if deed.isReset then none
      else (if result.isOk then part? deed else none).or (lastStored? part? entries) :=
  Kv.lastSince?_concat _ _ entries _

theorem lastStored?_other (hdeed : deed.isReset = false) (hpart : part? deed = none)
    (entries : List Entry) (result : Except TransportError Unit) :
    lastStored? part? (entries ++ [⟨deed, result⟩]) = lastStored? part? entries := by
  simp [lastStored?_concat, hdeed, hpart]

theorem lastStored?_refused (hdeed : deed.isReset = false) (entries : List Entry)
    (e : TransportError) :
    lastStored? part? (entries ++ [⟨deed, .error e⟩]) = lastStored? part? entries := by
  simp [lastStored?_concat, hdeed, Except.isOk, Except.toBool]

theorem lastStored?_stored (part? : Deed → Option α) {a : α} (hdeed : deed.isReset = false)
    (hpart : part? deed = some a) (entries : List Entry) :
    lastStored? part? (entries ++ [⟨deed, .ok ()⟩]) = some a := by
  simp [lastStored?_concat, hdeed, hpart, Except.isOk, Except.toBool]

theorem lastStored?_reset (entries : List Entry) (result : Except TransportError Unit) :
    lastStored? part? (entries ++ [⟨.reset, result⟩]) = none := by
  simp [lastStored?_concat, Deed.isReset]

end

/-- What the record says is what is stored. -/
structure Describes (entries : List Entry) (look : String → Option Value) : Prop where
  config : look configKey = (lastStored? Deed.config? entries).map fun c => .blob c.toBlob
  valid : ∀ c ∈ lastStored? Deed.config? entries, c.validate = .ok ()
  uri : look uriKey = (lastStored? Deed.uri? entries).map .str
  ssid : look ssidKey = (lastStored? Deed.credentials? entries).map (.str ·.ssid)
  password : look passwordKey = (lastStored? Deed.credentials? entries).map (.str ·.password)

theorem describes_nil : Describes [] fun _ => none where
  config := rfl
  valid := nofun
  uri := rfl
  ssid := rfl
  password := rfl

section
variable {entries : List Entry} {s : Store Nvs} {look : String → Option Value}

section
variable {α : Type} {part? : Deed → Option α} {key : String} {value : α → Value} {deed : Deed}

/-- What is stored under one key does not show under another. -/
theorem update_other (h : look key = (lastStored? part? entries).map value) {key' : String}
    (hkey : key ≠ key') (stored : Value) (hdeed : deed.isReset = false)
    (hpart : part? deed = none) (result : Except TransportError Unit) :
    Function.update look key' (some stored) key =
      (lastStored? part? (entries ++ [⟨deed, result⟩])).map value := by
  rw [Function.update_of_ne hkey, lastStored?_other hdeed hpart]
  exact h

theorem update_stored (part? : Deed → Option α) (value : α → Value) {a : α}
    (hdeed : deed.isReset = false) (hpart : part? deed = some a) :
    Function.update look key (some (value a)) key =
      (lastStored? part? (entries ++ [⟨deed, .ok ()⟩])).map value := by
  rw [Function.update_self, lastStored?_stored part? hdeed hpart]
  rfl

end

/-- What is stored stays when the record says the same. -/
theorem Describes.same (h : Describes entries look) {entries' : List Entry}
    (hconfig : lastStored? Deed.config? entries' = lastStored? Deed.config? entries)
    (huri : lastStored? Deed.uri? entries' = lastStored? Deed.uri? entries)
    (hcredentials :
      lastStored? Deed.credentials? entries' = lastStored? Deed.credentials? entries) :
    Describes entries' look where
  config := hconfig ▸ h.config
  valid := hconfig ▸ h.valid
  uri := huri ▸ h.uri
  ssid := hcredentials ▸ h.ssid
  password := hcredentials ▸ h.password

theorem Describes.refused (h : Describes entries look) {deed : Deed} {e : TransportError}
    (hdeed : deed.isReset = false) : Describes (entries ++ [⟨deed, .error e⟩]) look :=
  h.same (lastStored?_refused hdeed _ e) (lastStored?_refused hdeed _ e)
    (lastStored?_refused hdeed _ e)

theorem Describes.storedConfig (h : Describes entries look) {c : LinkConfig}
    (hvalid : c.validate = .ok ()) :
    Describes (entries ++ [⟨.storeConfig c, .ok ()⟩])
      (Function.update look configKey (some (.blob c.toBlob))) where
  config := update_stored Deed.config? (fun c => .blob c.toBlob) rfl rfl
  valid := by
    rw [lastStored?_stored Deed.config? rfl rfl]
    rintro _ ⟨⟩
    exact hvalid
  uri := update_other h.uri (by decide) _ rfl rfl _
  ssid := update_other h.ssid (by decide) _ rfl rfl _
  password := update_other h.password (by decide) _ rfl rfl _

theorem Describes.storedUri (h : Describes entries look) (uri : String) :
    Describes (entries ++ [⟨.storeUri uri, .ok ()⟩])
      (Function.update look uriKey (some (.str uri))) where
  config := update_other h.config (by decide) _ rfl rfl _
  valid := by
    rw [lastStored?_other rfl rfl]
    exact h.valid
  uri := update_stored Deed.uri? .str rfl rfl
  ssid := update_other h.ssid (by decide) _ rfl rfl _
  password := update_other h.password (by decide) _ rfl rfl _

/-- The name is written before the password. -/
theorem Describes.storedCredentials (h : Describes entries look) (c : Credentials) :
    Describes (entries ++ [⟨.storeCredentials c, .ok ()⟩])
      (Function.update (Function.update look ssidKey (some (.str c.ssid))) passwordKey
        (some (.str c.password))) where
  config := by
    rw [Function.update_of_ne (by decide)]
    exact update_other h.config (by decide) _ rfl rfl _
  valid := by
    rw [lastStored?_other rfl rfl]
    exact h.valid
  uri := by
    rw [Function.update_of_ne (by decide)]
    exact update_other h.uri (by decide) _ rfl rfl _
  ssid := by
    rw [Function.update_of_ne (by decide)]
    exact update_stored Deed.credentials? (.str ·.ssid) rfl rfl
  password := update_stored Deed.credentials? (.str ·.password) rfl rfl

theorem describes_reset (entries : List Entry) (result : Except TransportError Unit) :
    Describes (entries ++ [⟨.reset, result⟩]) fun _ => none := by
  constructor <;> simp [lastStored?_reset]

theorem Describes.loaded (h : Describes entries look) (result : Except TransportError Unit) :
    Describes (entries ++ [⟨.load, result⟩]) look :=
  h.same (lastStored?_other rfl rfl _ _) (lastStored?_other rfl rfl _ _)
    (lastStored?_other rfl rfl _ _)

/-- A deed turns out as it should, and the record with it says what is stored afterwards. -/
theorem Describes.carryOut (h : Describes entries look) (hs : s.Holds look) (deed : Deed) :
    ∃ s' look', deed.carryOut s = (deed.expected, s') ∧ s'.Holds look' ∧
      Describes (entries ++ [⟨deed, deed.expected⟩]) look' := by
  cases deed with
  | storeConfig c =>
      cases hvalid : c.validate with
      | error e =>
          refine ⟨s, look, ?_, hs, ?_⟩
          · simp [Deed.carryOut, LinkConfig.store, Deed.expected, hvalid, Except.mapError]
          · simpa [Deed.expected, hvalid, Except.mapError] using h.refused rfl
      | ok =>
          have haccepts : Nvs.accepts (.blob c.toBlob) = true :=
            decide_eq_true (Nat.le_trans c.length_toBlob_le (by decide))
          obtain ⟨s', hset, hs'⟩ := hs.set configKey_isKey haccepts
          refine ⟨s', _, ?_, hs', ?_⟩
          · simp [Deed.carryOut, LinkConfig.store, Deed.expected, hvalid, hset, Except.mapError]
          · simpa [Deed.expected, hvalid, Except.mapError] using h.storedConfig hvalid
  | storeUri uri =>
      have haccepts : Nvs.accepts (.str uri) = true := rfl
      obtain ⟨s', hset, hs'⟩ := hs.set uriKey_isKey haccepts
      refine ⟨s', _, ?_, hs', h.storedUri uri⟩
      simp [Deed.carryOut, Uplink.storeUri, Deed.expected, hset, Except.mapError]
  | storeCredentials c =>
      have haccepts (s : String) : Nvs.accepts (.str s) = true := rfl
      obtain ⟨s₁, hname, hs₁⟩ := hs.set ssidKey_isKey (haccepts c.ssid)
      obtain ⟨s₂, hsecret, hs₂⟩ := hs₁.set passwordKey_isKey (haccepts c.password)
      refine ⟨s₂, _, ?_, hs₂, h.storedCredentials c⟩
      simp [Deed.carryOut, Credentials.store, Deed.expected, hname, hsecret, Except.mapError]
  | reset =>
      obtain ⟨s', hreset, hs'⟩ := hs.reset
      refine ⟨s', _, ?_, hs', describes_reset entries _⟩
      simp [Deed.carryOut, Deed.expected, hreset, Except.mapError]
  | load =>
      obtain ⟨s₁, hconfig, hs₁⟩ := load_config hs h.config h.valid
      obtain ⟨s₂, huri, hs₂⟩ := load_uri hs₁ h.uri
      obtain ⟨s₃, -, hcredentials, hs₃⟩ := load_credentials hs₂ h.ssid h.password .empty
      refine ⟨s₃, look, ?_, hs₃, h.loaded _⟩
      simp [Deed.carryOut, Deed.expected, hconfig, huri, hcredentials]

theorem Describes.live (h : Describes entries look) (hs : s.Holds look)
    (hresults : ∀ entry ∈ entries, entry.result = entry.deed.expected) (deeds : List Deed) :
    ∃ look', (live s entries deeds).1.Holds look' ∧ Describes (live s entries deeds).2 look' ∧
      ∀ entry ∈ (live s entries deeds).2, entry.result = entry.deed.expected := by
  induction deeds generalizing s entries look with
  | nil => exact ⟨look, hs, h, hresults⟩
  | cons deed deeds ih =>
      obtain ⟨s', look', hcarry, hs', h'⟩ := h.carryOut hs deed
      simp only [Settings.live, hcarry]
      apply ih h' hs'
      intro entry hentry
      rcases List.mem_append.mp hentry with hentry | hentry
      · exact hresults entry hentry
      · rw [List.mem_singleton.mp hentry]

end

/-- After any history of stores and resets on a new store, loads among them, each setting is
loaded as it was last stored with success since the last reset. Only a configuration that is not
valid is refused. What is loaded from any store, whatever its backend does, runs a transport. -/
theorem loads_of_deeds (deeds : List Deed) :
    let (s, entries) := live (Store.spawn Nvs.empty) [] deeds
    (∀ entry ∈ entries, entry.result = entry.deed.expected) ∧
      (LinkConfig.load s).1 = (lastStored? Deed.config? entries).getD .default ∧
      (loadUri s).1 = (lastStored? Deed.uri? entries).filter (· ≠ "") ∧
      (∀ ready, (Credentials.load s ready).1 =
        (lastStored? Deed.credentials? entries).elim (.error .noCredentials) .ok) ∧
      ∀ (σ : Type) [Backend σ] (any : Store σ) outbound inbound,
        ∃ t, Transport.create (LinkConfig.load any).1 outbound inbound = .ok t := by
  obtain ⟨look, hs, h, hresults⟩ := describes_nil.live Store.holds_spawn nofun deeds
  obtain ⟨_, hconfig, -⟩ := load_config hs h.config h.valid
  obtain ⟨_, huri, -⟩ := load_uri hs h.uri
  refine ⟨hresults, by rw [hconfig], by rw [huri], ?_, ?_⟩
  · intro ready
    obtain ⟨_, hcredentials, -⟩ := load_credentials hs h.ssid h.password ready
    exact hcredentials
  · intro σ _ any outbound inbound
    exact ⟨_, by rw [Transport.create, LinkConfig.validate_load]⟩

/-- A configuration without polls is refused and leaves the one before it; the reset removes the
URI only as long as none is stored after it. -/
example :
    let idle : LinkConfig := { LinkConfig.default with pollInterval := 0 }
    let brisk : LinkConfig := { LinkConfig.default with pollInterval := 5 }
    let (s, entries) := live (Store.spawn Nvs.empty) []
      [.storeUri "ws://old", .reset, .storeConfig brisk, .storeConfig idle, .storeUri "ws://hub"]
    (LinkConfig.load s).1 = brisk ∧ (loadUri s).1 = some "ws://hub" ∧
      lastStored? Deed.config? entries = some brisk := by
  decide +kernel

end Settings

end Uplink
