import Uplink.Credentials

/-! # How the answers of the store are taken

Loading reads the name and then the password. Whatever the store answers, the outcome tells
credentials that are found, missing, malformed and unreadable apart, except in one case: a name
that cannot be read passes for one that is missing. -/

namespace Uplink.Credentials

open Kv (KvError Store Backend)

/-- What a store answers when the name and then the password are read. -/
def Answers {σ : Type} [Backend σ] (kv : Store σ) (ssid password : Except KvError String) : Prop :=
  (kv.getStr ssidKey).1 = ssid ∧ ((kv.getStr ssidKey).2.getStr passwordKey).1 = password

/-- The password that an answer stands for, where a missing one is empty. -/
def IsSecret (password : Except KvError String) (secret : String) : Prop :=
  password = .ok secret ∨ password = .error .notFound ∧ secret = ""

/-- Whether a read failed for another reason than that nothing is stored. -/
def IsUnreadable (answer : Except KvError String) : Prop :=
  ∃ e, answer = .error e ∧ e ≠ .notFound

/-- An outcome that tells all answers apart: what is found, what is missing, and what cannot be
read. -/
structure Classified (ssid password : Except KvError String)
    (outcome : Except CredentialError Credentials) : Prop where
  found : ∀ c, outcome = .ok c ↔
    ∃ name secret, ssid = .ok name ∧ IsSecret password secret ∧ ofStrings name secret = .ok c
  malformed : ∀ e, e = .invalidSsid ∨ e = .invalidPassword → (outcome = .error e ↔
    ∃ name secret, ssid = .ok name ∧ IsSecret password secret ∧ ofStrings name secret = .error e)
  missing : outcome = .error .noCredentials ↔ ssid = .error .notFound
  unreadable : ∀ e, outcome = .error (.storage e) ↔
    e ≠ .notFound ∧ (ssid = .error e ∨ (∃ name, ssid = .ok name) ∧ password = .error e)

/-! ## Outcomes by answer -/

theorem ofStrings_error {name secret : String} {e : CredentialError}
    (h : ofStrings name secret = .error e) : e = .invalidSsid ∨ e = .invalidPassword := by
  unfold ofStrings at h
  split at h
  · split at h
    · cases h
    · exact .inr (Except.error.inj h).symm
  · exact .inl (Except.error.inj h).symm

theorem IsSecret.unique {password : Except KvError String} {secret secret' : String}
    (h : IsSecret password secret) (h' : IsSecret password secret') : secret' = secret := by
  rcases h with rfl | ⟨rfl, rfl⟩
  · rcases h' with hok | ⟨hmissing, -⟩
    · exact (Except.ok.inj hok).symm
    · cases hmissing
  · rcases h' with hok | ⟨-, rfl⟩
    · cases hok
    · rfl

theorem not_isUnreadable_of_isSecret {password : Except KvError String} {secret : String}
    (h : IsSecret password secret) : ¬IsUnreadable password := by
  rintro ⟨e, he, hne⟩
  rcases h with hok | ⟨hmissing, -⟩
  · simp [he] at hok
  · exact hne (Except.error.inj (he.symm.trans hmissing))

/-- An answer stands for a password, or it is unreadable. -/
theorem isSecret_or_isUnreadable (password : Except KvError String) :
    (∃ secret, IsSecret password secret) ∨ IsUnreadable password := by
  cases password with
  | ok secret => exact .inl ⟨secret, .inl rfl⟩
  | error e =>
      by_cases hmissing : e = .notFound
      · exact .inl ⟨"", .inr ⟨congrArg _ hmissing, rfl⟩⟩
      · exact .inr ⟨e, rfl, hmissing⟩

section
variable {σ : Type} [Backend σ] {kv : Store σ} {ssid password : Except KvError String}

/-- A name that is not read ends it, for whatever reason. -/
theorem load_of_no_ssid {e : KvError} (h : Answers kv (.error e) password) (ready : Readiness) :
    (load kv ready).1 = .error .noCredentials ∧ (load kv ready).2.2 = ready := by
  rcases hfirst : kv.getStr ssidKey with ⟨answer, kv₁⟩
  obtain ⟨rfl⟩ : answer = .error e := by simpa [Answers, hfirst] using h.1
  simp [load, hfirst]

theorem load_of_unreadable_password {name : String} {e : KvError} (hne : e ≠ .notFound)
    (h : Answers kv (.ok name) (.error e)) (ready : Readiness) :
    (load kv ready).1 = .error (.storage e) ∧ (load kv ready).2.2 = ready := by
  rcases hfirst : kv.getStr ssidKey with ⟨answer, kv₁⟩
  rcases hsecond : kv₁.getStr passwordKey with ⟨answer', kv₂⟩
  obtain ⟨rfl, rfl⟩ : answer = .ok name ∧ answer' = .error e := by
    simpa [Answers, hfirst, hsecond] using h
  cases e with
  | notFound => exact absurd rfl hne
  | _ => simp [load, hfirst, hsecond, bind, Except.bind]

/-- With a name and a password, what is loaded is what they make, and only that is marked. -/
theorem load_of_parts {name secret : String} (hsecret : IsSecret password secret)
    (h : Answers kv (.ok name) password) (ready : Readiness) :
    (load kv ready).1 = ofStrings name secret ∧
      (load kv ready).2.2 =
        match ofStrings name secret with
        | .ok _ => (ready.set Readiness.provisioned).1
        | .error _ => ready := by
  rcases hfirst : kv.getStr ssidKey with ⟨answer, kv₁⟩
  rcases hsecond : kv₁.getStr passwordKey with ⟨answer', kv₂⟩
  obtain ⟨rfl, rfl⟩ : answer = .ok name ∧ answer' = password := by
    simpa [Answers, hfirst, hsecond] using h
  rcases hsecret with rfl | ⟨rfl, rfl⟩
  all_goals
    simp only [load, hfirst, hsecond, bind, Except.bind]
    cases ofStrings name _ <;> exact ⟨rfl, rfl⟩

end

/-! ## The classification -/

section
variable {ssid password : Except KvError String}

theorem classified_missing : Classified (.error .notFound) password (.error .noCredentials) where
  found c := by simp
  malformed e he := by rcases he with rfl | rfl <;> simp
  missing := by simp
  unreadable e := by simp [eq_comm]

theorem classified_unreadable_password {name : String} {e : KvError} (hne : e ≠ .notFound) :
    Classified (.ok name) (.error e) (.error (.storage e)) where
  found c := by simp [IsSecret, hne]
  malformed e' he := by rcases he with rfl | rfl <;> simp [IsSecret, hne]
  missing := by simp
  unreadable e' := by
    simp only [Except.error.injEq, CredentialError.storage.injEq, reduceCtorEq, Except.ok.injEq,
      exists_eq', true_and, false_or]
    constructor
    · rintro rfl
      exact ⟨hne, rfl⟩
    · exact And.right

theorem classified_parts {name secret : String} (hsecret : IsSecret password secret) :
    Classified (.ok name) password (ofStrings name secret) := by
  have hparts : ∀ outcome, ofStrings name secret = outcome ↔
      ∃ name' secret', (.ok name : Except KvError String) = .ok name' ∧
        IsSecret password secret' ∧ ofStrings name' secret' = outcome := by
    intro outcome
    constructor
    · exact fun h => ⟨name, secret, rfl, hsecret, h⟩
    · rintro ⟨name', secret', hname, hsecret', h⟩
      rwa [← Except.ok.inj hname, hsecret.unique hsecret'] at h
  refine ⟨fun c => hparts _, fun e _ => hparts _, ?_, ?_⟩
  · constructor
    · intro h
      rcases ofStrings_error h with he | he <;> cases he
    · exact nofun
  · intro e
    constructor
    · intro h
      rcases ofStrings_error h with he | he <;> cases he
    · rintro ⟨hne, hname | ⟨-, hpassword⟩⟩
      · cases hname
      · exact (not_isUnreadable_of_isSecret hsecret ⟨e, hpassword, hne⟩).elim

end

/-- A store that gives these answers. -/
def scripted (ssid password : Except KvError String) : Store Kv.FaultyNvs :=
  let mishaps name : Except KvError String → List (String × Kv.Mishap)
    | .ok _ => []
    | .error e => [(name, .error e)]
  let answers name : Except KvError String → List (String × Kv.Value)
    | .ok text => [(name, .str text)]
    | .error _ => []
  .spawn ⟨.empty, [], mishaps ssidKey ssid ++ mishaps passwordKey password, none,
    answers ssidKey ssid ++ answers passwordKey password⟩

theorem answers_scripted (ssid password : Except KvError String) :
    Answers (scripted ssid password) ssid password := by
  cases ssid <;> cases password <;> exact ⟨rfl, rfl⟩

/-- A store may give any pair of answers to the reads of the name and of the password. The outcome
tells them all apart exactly if the name is not unreadable, in which case it counts as missing;
and the device counts as provisioned exactly by what is found, with no other change. -/
theorem load_classified_iff (ssid password : Except KvError String) :
    Answers (scripted ssid password) ssid password ∧
      ∀ {σ : Type} [Backend σ] (kv : Store σ) (ready : Readiness), Answers kv ssid password →
        (Classified ssid password (load kv ready).1 ↔ ¬IsUnreadable ssid) ∧
        (IsUnreadable ssid → (load kv ready).1 = .error .noCredentials) ∧
        (∀ c, (load kv ready).1 = .ok c →
          (load kv ready).2.2.bits = ready.bits ||| Readiness.provisioned) ∧
        (∀ e, (load kv ready).1 = .error e → (load kv ready).2.2 = ready) := by
  refine ⟨answers_scripted ssid password, ?_⟩
  intro σ _ kv ready h
  cases ssid with
  | error e =>
      obtain ⟨houtcome, hready⟩ := load_of_no_ssid h ready
      refine ⟨?_, fun _ => houtcome, by simp [houtcome], fun _ _ => hready⟩
      rw [houtcome]
      constructor
      · rintro hclassified ⟨e', he', hne⟩
        exact hne (Except.error.inj (he'.symm.trans (hclassified.missing.mp rfl)))
      · intro hreadable
        have he : e = .notFound :=
          Decidable.byContradiction fun hne => hreadable ⟨e, rfl, hne⟩
        rw [he]
        exact classified_missing
  | ok name =>
      have hreadable : ¬IsUnreadable (.ok name) := nofun
      rcases isSecret_or_isUnreadable password with ⟨secret, hsecret⟩ | ⟨e, rfl, hne⟩
      · obtain ⟨houtcome, hready⟩ := load_of_parts hsecret h ready
        rw [houtcome, hready]
        refine ⟨iff_of_true (classified_parts hsecret) hreadable, fun hbad => (hreadable hbad).elim,
          ?_, ?_⟩
        · intro c hc
          rw [hc]
          rfl
        · intro e he
          rw [he]
      · obtain ⟨houtcome, hready⟩ := load_of_unreadable_password hne h ready
        rw [houtcome]
        exact ⟨iff_of_true (classified_unreadable_password hne) hreadable,
          fun hbad => (hreadable hbad).elim, nofun, fun _ _ => hready⟩

/-- A network with no password that is stored is found and marks the device. -/
theorem load_classified_open :
    Answers (scripted (.ok "cafe") (.error .notFound)) (.ok "cafe") (.error .notFound) ∧
      Classified (.ok "cafe") (.error .notFound)
        (load (scripted (.ok "cafe") (.error .notFound)) .empty).1 :=
  have h := load_classified_iff (.ok "cafe") (.error .notFound)
  ⟨h.1, (h.2 _ .empty h.1).1.mpr nofun⟩

/-- The backend fails, and nothing seems to be stored. -/
theorem missing_when_unreadable :
    Answers (scripted (.error .backend) (.error .notFound)) (.error .backend) (.error .notFound) ∧
      (load (scripted (.error .backend) (.error .notFound)) .empty).1 = .error .noCredentials ∧
      ¬Classified (.error .backend) (.error .notFound)
        (load (scripted (.error .backend) (.error .notFound)) .empty).1 := by
  refine ⟨answers_scripted _ _, rfl, ?_⟩
  intro h
  cases h.missing.mp rfl

end Uplink.Credentials
