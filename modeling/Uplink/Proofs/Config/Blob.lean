import Uplink.Config.Blob
import Uplink.Proofs.Config.Varint

/-! # Configurations read back from storage

The stored form is read back as it was written, whatever the storage holds after it. A write that
was cut short is noticed. -/

namespace Uplink.LinkConfig

theorem takesUp_words (ws : List UInt32) :
    TakesUp (readWords? ws.length) (ws.flatMap storeWord) fun rest => (ws, rest) := by
  induction ws with
  | nil => exact .nothing _
  | cons w ws ih =>
      have hrest : TakesUp (fun octets => readWords? ws.length octets >>= fun words =>
          some (w :: words.1, words.2)) (ws.flatMap storeWord ++ []) fun rest => (w :: ws, rest) :=
        ih.bind (.nothing _)
      rw [List.append_nil] at hrest
      exact (Varint.takesUp_word w).bind hrest

theorem takesUp_toBlob (c : LinkConfig) : TakesUp decodeBlob? c.toBlob fun _ => c := by
  have hcount : c.backoffSchedule.length < 2 ^ 64 := Nat.lt_of_le_of_lt c.schedule_le (by decide)
  have hblob : c.toBlob =
      storeWord c.heartbeatInterval ++ (Varint.encode c.backoffSchedule.length ++
        (c.backoffSchedule.flatMap storeWord ++ (storeWord c.connectTimeout ++
          (storeWord c.sendTimeout ++ (storeWord c.pollInterval ++
            (storeWord c.shutdownGrace ++ [])))))) := by
    simp [toBlob]
  rw [hblob]
  apply (Varint.takesUp_word c.heartbeatInterval).bind
  apply (Varint.takesUp_length hcount).bind
  apply TakesUp.guard (Nat.not_lt.mpr c.schedule_le)
  apply (takesUp_words c.backoffSchedule).bind
  apply (Varint.takesUp_word c.connectTimeout).bind
  apply (Varint.takesUp_word c.sendTimeout).bind
  apply (Varint.takesUp_word c.pollInterval).bind
  apply (Varint.takesUp_word c.shutdownGrace).bind
  simp only [c.schedule_le, dite_true]
  exact .nothing _

theorem length_storeWord_le (w : UInt32) : (storeWord w).length ≤ 5 :=
  Varint.length_encode_le (by decide) (Nat.lt_trans w.toNat_lt (by decide))

theorem length_storeWords_le (ws : List UInt32) :
    (ws.flatMap storeWord).length ≤ 5 * ws.length := by
  induction ws with
  | nil => simp
  | cons w ws ih =>
      have hw := length_storeWord_le w
      simp only [List.flatMap_cons, List.length_append, List.length_cons]
      omega

/-- A stored form has little more than the octets of six numbers and eight delays. -/
theorem length_toBlob_le (c : LinkConfig) : c.toBlob.length ≤ 66 := by
  have hsteps : c.backoffSchedule.length ≤ 8 := c.schedule_le
  have hcount : (Varint.encode c.backoffSchedule.length).length ≤ 1 :=
    Varint.length_encode_le (by decide) (by omega)
  have hschedule := length_storeWords_le c.backoffSchedule
  have hheartbeat := length_storeWord_le c.heartbeatInterval
  have hconnect := length_storeWord_le c.connectTimeout
  have hsend := length_storeWord_le c.sendTimeout
  have hpoll := length_storeWord_le c.pollInterval
  have hgrace := length_storeWord_le c.shutdownGrace
  simp only [toBlob, List.length_append]
  omega

/-- A configuration is read back from its stored form, whatever follows it, if it may run a
transport, and refused with the rule that it breaks otherwise. Of a stored form that was cut short
nothing is read. -/
theorem blob_read_back (c : LinkConfig) :
    (∀ s, ofBlob (c.toBlob ++ s) = c.validate.map fun () => c) ∧
      ∀ p, p <+: c.toBlob → p ≠ c.toBlob → ofBlob p = .error .corrupted := by
  constructor
  · intro s
    rw [ofBlob, (takesUp_toBlob c).whole]
    cases hvalid : c.validate <;> simp [hvalid, Except.map]
  · intro p hp hne
    rw [ofBlob, (takesUp_toBlob c).torn p hp hne]

/-- The write of the default configuration was torn within its second number. -/
theorem torn_of_default :
    [0x90, 0x4E, 0x06, 0xE8] <+: default.toBlob ∧ [0x90, 0x4E, 0x06, 0xE8] ≠ default.toBlob ∧
      ofBlob [0x90, 0x4E, 0x06, 0xE8] = .error .corrupted := by
  have hblob : default.toBlob =
      [0x90, 0x4E, 0x06, 0xE8, 0x07, 0xD0, 0x0F, 0x88, 0x27, 0x90, 0x4E, 0x98, 0x75, 0xB0, 0xEA,
        0x01, 0x88, 0x27, 0xE8, 0x07, 0x14, 0xF4, 0x03] := by
    cbv
  have hcut : [0x90, 0x4E, 0x06, 0xE8] <+: default.toBlob := by
    rw [hblob]
    decide
  have hne : [0x90, 0x4E, 0x06, 0xE8] ≠ default.toBlob := by
    rw [hblob]
    decide
  exact ⟨hcut, hne, (blob_read_back default).2 _ hcut hne⟩

end Uplink.LinkConfig
