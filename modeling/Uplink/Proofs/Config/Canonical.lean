import Uplink.Proofs.Settings
import Uplink.Proofs.Backoff

/-! # Configurations in other spellings

A stored number may be padded, and anything may follow the last field. Whatever octets were read,
the configuration in them is valid as a whole, and its own stored form is one of the shortest that
are read as it. -/

namespace Uplink

/-! ## Octets spent -/

/-- No result takes more octets to write than were spent to read it. -/
def Spends {α : Type} (read : Octets → Option (α × Octets)) (write : α → Octets) : Prop :=
  ∀ octets a rest, read octets = some (a, rest) → (write a).length + rest.length ≤ octets.length

namespace Varint

theorem length_encode_pos (n : Nat) : 0 < (encode n).length := by
  rw [encode]
  split <;> simp

/-- A digit in front makes a spelling longer by one octet at most. -/
theorem length_encode_digit_le {digit : Nat} (hdigit : digit < 0x80) (high : Nat) :
    (encode (digit + 0x80 * high)).length ≤ (encode high).length + 1 := by
  rw [encode]
  split
  · simp
  · have hhigh : (digit + 0x80 * high) / 0x80 = high := by omega
    simp [hhigh]

theorem length_encode_mono {m n : Nat} (h : m ≤ n) : (encode m).length ≤ (encode n).length := by
  induction n using Nat.strongRecOn generalizing m with
  | ind n ih =>
      rw [encode]
      split
      · exact length_encode_pos n
      · next hm =>
          have hn : ¬n < 0x80 := by omega
          have hhigh : (encode (m / 0x80)).length ≤ (encode (n / 0x80)).length :=
            ih (n / 0x80) (by omega) (Nat.div_le_div_right h)
          rw [encode.eq_1 n, if_neg hn]
          simpa using hhigh

theorem spends_decode (last : UInt8) (room : Nat) : Spends (decode? last room) encode := by
  intro octets n rest h
  fun_induction decode? last room octets generalizing n rest with
  | case1 | case2 | case3 | case6 => cases h
  | case4 room b tail hsmall hlast =>
      obtain ⟨rfl, rfl⟩ := Prod.mk.inj (Option.some.inj h)
      have hone : (encode b.toNat).length ≤ 1 :=
        length_encode_le (by decide) (UInt8.lt_iff_toNat_lt.mp hsmall)
      rw [List.length_cons]
      omega
  | case5 room b tail hlarge high rest' hread ih =>
      obtain ⟨rfl, rfl⟩ := Prod.mk.inj (Option.some.inj h)
      have htail := ih high rest' hread
      have hdigit := length_encode_digit_le (Nat.mod_lt b.toNat (by decide : 0 < 0x80)) high
      rw [List.length_cons]
      omega

end Varint

namespace LinkConfig

/-- A number that is cut down to its word does not grow. -/
theorem spends_word : Spends Varint.word? storeWord := by
  intro octets w rest h
  obtain ⟨⟨n, rest'⟩, hread, heq⟩ := Option.map_eq_some_iff.mp h
  obtain ⟨rfl, rfl⟩ := Prod.mk.inj heq
  have hcut : n.toUInt32.toNat ≤ n := by
    rw [UInt32.toNat_ofNat']
    exact Nat.mod_le _ _
  calc (storeWord n.toUInt32).length + rest'.length
      ≤ (Varint.encode n).length + rest'.length :=
        Nat.add_le_add_right (Varint.length_encode_mono hcut) _
    _ ≤ octets.length := Varint.spends_decode 0x0F 5 octets n rest' hread

theorem readWords?_succ_eq_some_iff {count : Nat} {octets rest : Octets} {ws : List UInt32} :
    readWords? (count + 1) octets = some (ws, rest) ↔
      ∃ w octets' tail, Varint.word? octets = some (w, octets') ∧
        readWords? count octets' = some (tail, rest) ∧ ws = w :: tail := by
  simp only [readWords?, Option.bind_eq_bind, Option.bind_eq_some_iff, Option.some.injEq,
    Prod.mk.injEq, Prod.exists]
  constructor
  · rintro ⟨w, octets', hword, tail, octets'', hread, rfl, rfl⟩
    exact ⟨w, octets', tail, hword, hread, rfl⟩
  · rintro ⟨w, octets', tail, hword, hread, rfl⟩
    exact ⟨w, octets', hword, tail, rest, hread, rfl, rfl⟩

theorem length_readWords {count : Nat} {octets rest : Octets} {ws : List UInt32}
    (h : readWords? count octets = some (ws, rest)) : ws.length = count := by
  induction count generalizing octets ws with
  | zero =>
      obtain ⟨rfl, -⟩ := Prod.mk.inj (Option.some.inj h)
      rfl
  | succ count ih =>
      obtain ⟨w, octets', tail, -, hread, rfl⟩ := readWords?_succ_eq_some_iff.mp h
      rw [List.length_cons, ih hread]

theorem spends_words (count : Nat) : Spends (readWords? count) (List.flatMap storeWord) := by
  induction count with
  | zero =>
      intro octets ws rest h
      obtain ⟨rfl, rfl⟩ := Prod.mk.inj (Option.some.inj h)
      simp
  | succ count ih =>
      intro octets ws rest h
      obtain ⟨w, octets', tail, hword, hread, rfl⟩ := readWords?_succ_eq_some_iff.mp h
      have hw := spends_word octets w octets' hword
      have htail := ih octets' tail rest hread
      simp only [List.flatMap_cons, List.length_append]
      omega

/-- The stored form of a configuration is no longer than any octets that it was read from. -/
theorem length_toBlob_le_of_decode {octets : Octets} {c : LinkConfig}
    (h : decodeBlob? octets = some c) : c.toBlob.length ≤ octets.length := by
  simp only [decodeBlob?, Option.bind_eq_bind, Option.bind_eq_some_iff, Prod.exists] at h
  obtain ⟨heartbeat, octets₁, hheartbeat, count, octets₂, hcount, h⟩ := h
  split at h
  · cases h
  simp only [Option.bind_eq_some_iff, Prod.exists] at h
  obtain ⟨steps, octets₃, hsteps, connect, octets₄, hconnect, send, octets₅, hsend, poll, octets₆,
    hpoll, grace, rest, hgrace, h⟩ := h
  split at h
  · obtain rfl := Option.some.inj h
    have hlength : steps.length = count := length_readWords hsteps
    have hheartbeat := spends_word _ _ _ hheartbeat
    have hcount := Varint.spends_decode 0x01 10 _ _ _ hcount
    have hsteps := spends_words _ _ _ _ hsteps
    have hconnect := spends_word _ _ _ hconnect
    have hsend := spends_word _ _ _ hsend
    have hpoll := spends_word _ _ _ hpoll
    have hgrace := spends_word _ _ _ hgrace
    simp only [toBlob, List.length_append, hlength]
    omega
  · cases h

/-! ## Validity -/

/-- A configuration that may run a transport. No delay is shorter than an earlier one, wherever the
two stand. -/
structure IsValid (c : LinkConfig) : Prop where
  heartbeat : 0 < c.heartbeatInterval
  connect : 0 < c.connectTimeout
  send : 0 < c.sendTimeout
  grace : 0 < c.shutdownGrace
  poll : 0 < c.pollInterval
  poll_lt : c.pollInterval < c.heartbeatInterval
  schedule : c.backoffSchedule ≠ []
  steps : ∀ step ∈ c.backoffSchedule, 0 < step
  sorted : ∀ i j (_ : i ≤ j) (hj : j < c.backoffSchedule.length),
    c.backoffSchedule[i] ≤ c.backoffSchedule[j]

/-- It is enough to compare each delay with the next one. -/
theorem decreases_eq_false_iff {schedule : List UInt32} :
    decreases schedule = false ↔
      ∀ i j (_ : i ≤ j) (hj : j < schedule.length), schedule[i] ≤ schedule[j] := by
  constructor
  · intro h i j hij hj
    have hsorted := List.isChain_iff_pairwise.mp (isChain_of_decreases h)
    exact delay_le_of_le hsorted hij (List.getElem?_eq_getElem _) (List.getElem?_eq_getElem hj)
  · intro h
    fun_induction decreases schedule with
    | case1 a b rest ih =>
        have hab : a ≤ b := h 0 1 (by omega) (by simp)
        rw [Bool.or_eq_false_iff, decide_eq_false_iff_not]
        refine ⟨UInt32.not_lt.mpr hab, ih fun i j hij hj => ?_⟩
        exact h (i + 1) (j + 1) (Nat.succ_le_succ hij) (Nat.succ_lt_succ hj)
    | case2 => rfl

theorem violation?_eq_none_iff {c : LinkConfig} : c.violation? = none ↔ c.IsValid := by
  constructor
  · intro h
    unfold violation? at h
    split_ifs at h with hheartbeat hempty hzero hdecreases hconnect hsend hgrace hpoll
    all_goals try cases h
    simp only [Bool.or_eq_true, decide_eq_true_eq, not_or] at hpoll
    exact {
      heartbeat := UInt32.pos_iff_ne_zero.mpr hheartbeat
      connect := UInt32.pos_iff_ne_zero.mpr hconnect
      send := UInt32.pos_iff_ne_zero.mpr hsend
      grace := UInt32.pos_iff_ne_zero.mpr hgrace
      poll := UInt32.pos_iff_ne_zero.mpr hpoll.1
      poll_lt := UInt32.not_le.mp hpoll.2
      schedule := by simpa using hempty
      steps := fun step hstep => UInt32.pos_iff_ne_zero.mpr fun heq =>
        hzero (by simpa [← heq] using hstep)
      sorted := decreases_eq_false_iff.mp (by simpa using hdecreases) }
  · intro h
    have hdecreases := decreases_eq_false_iff.mpr h.sorted
    have hzero : 0 ∉ c.backoffSchedule := fun hmem => UInt32.pos_iff_ne_zero.mp (h.steps 0 hmem) rfl
    simp [violation?, UInt32.pos_iff_ne_zero.mp h.heartbeat, h.schedule, hzero, hdecreases,
      UInt32.pos_iff_ne_zero.mp h.connect, UInt32.pos_iff_ne_zero.mp h.send,
      UInt32.pos_iff_ne_zero.mp h.grace, UInt32.pos_iff_ne_zero.mp h.poll,
      UInt32.not_le.mpr h.poll_lt]

theorem validate_eq_ok_iff {c : LinkConfig} : c.validate = .ok () ↔ c.IsValid := by
  rw [← violation?_eq_none_iff, validate]
  cases c.violation? <;> simp

/-- A configuration is accepted exactly when all its values are in range. What is read from any
octets, however its numbers are padded and whatever follows them, is in range, has a stored form no
longer than those octets, and is read back from that. -/
theorem canonical_of_ofBlob :
    (∀ c : LinkConfig, c.validate = .ok () ↔ c.IsValid) ∧
      ∀ octets c, ofBlob octets = .ok c →
        c.IsValid ∧ c.toBlob.length ≤ octets.length ∧ ofBlob c.toBlob = .ok c := by
  refine ⟨fun c => validate_eq_ok_iff, fun octets c h => ?_⟩
  have hvalid : c.validate = .ok () := validate_of_ofBlob h
  have hdecode : decodeBlob? octets = some c := by
    unfold ofBlob at h
    split at h
    · cases h
    · next d hd =>
        split at h
        · rwa [← Except.ok.inj h]
        · cases h
  exact ⟨validate_eq_ok_iff.mp hvalid, length_toBlob_le_of_decode hdecode, ofBlob_toBlob hvalid⟩

/-- The default configuration with a padded interval and a padded count, and octets after it. -/
def padded : Octets :=
  [0x90, 0xCE, 0x80, 0x80, 0x00, 0x86, 0x80, 0x00, 0xE8, 0x07, 0xD0, 0x0F, 0x88, 0x27, 0x90, 0x4E,
    0x98, 0x75, 0xB0, 0xEA, 0x01, 0x88, 0x27, 0xE8, 0x07, 0x14, 0xF4, 0x03, 0xFF, 0xFF]

theorem canonical_of_padded :
    ofBlob padded = .ok default ∧ default.IsValid ∧ default.toBlob.length ≤ padded.length ∧
      ofBlob default.toBlob = .ok default := by
  have hread : ofBlob padded = .ok default := by decide
  exact ⟨hread, canonical_of_ofBlob.2 padded default hread⟩

end LinkConfig

end Uplink
