import Uplink.Proofs.Envelope
import Uplink.Proofs.Json.Cut

/-! # A cut frame is no other envelope

A message keeps as much of a frame as fits. What is left of an envelope is then the envelope
itself, when nothing but blanks was lost, or no envelope at all. -/

namespace Uplink

namespace Envelope

/-! ## What the beginning of a document is read as -/

variable {octets more : Octets}

theorem memberList?_of_append {pairs : List (String × Json)}
    (h : memberList? (octets ++ more) = some pairs) :
    memberList? octets = if more.all Json.isBlank then some pairs else none := by
  split
  · next hblank =>
      rw [← h, memberList?, memberList?,
        Json.parse?_append_blanks octets (List.all_eq_true.mp hblank)]
  · next hblank =>
      cases hmembers : memberList? octets with
      | none => rfl
      | some pairs' =>
          -- Both are objects, so that only blanks come behind the first.
          rw [memberList?] at h hmembers
          split at h
          · next hnode =>
              split at hmembers
              · next hobject =>
                  have hmore := List.all_eq_true.mpr (Json.blank_of_parse? hobject hnode)
                  exact absurd hmore hblank
              · cases hmembers
          · cases h

theorem parseOctets_eq_malformed_iff :
    parseOctets octets = .error .malformed ↔ memberList? octets >>= ofMembers? = none := by
  rw [parseOctets]
  cases memberList? octets >>= ofMembers? with
  | none => simp
  | some e => by_cases hversion : e.version = envelopeVersion <;> simp [hversion]

/-- The beginning of an envelope, of any version, is this envelope or none. -/
theorem parseOctets_of_append (h : parseOctets (octets ++ more) ≠ .error .malformed) :
    parseOctets octets =
      if more.all Json.isBlank then parseOctets (octets ++ more) else .error .malformed := by
  cases hall : memberList? (octets ++ more) with
  | none =>
      refine absurd (parseOctets_eq_malformed_iff.mpr ?_) h
      rw [hall]
      rfl
  | some pairs =>
      have hfront := memberList?_of_append hall
      split at hfront
      · next hblank =>
          rw [if_pos hblank, parseOctets, parseOctets, hfront, hall]
      · next hblank =>
          rw [if_neg hblank, parseOctets_eq_malformed_iff, hfront]
          rfl

/-! ## What a message keeps -/

/-- A frame that is an envelope, of this version or another, is the same one in a message if it
fits there but for blanks at the end. Otherwise the message is none. -/
theorem parse_of_cut
    (h : (∃ e, parseOctets octets = .ok e) ∨
      ∃ version, parseOctets octets = .error (.unsupportedVersion version)) :
    parse (Message.ofOctets octets) =
        (if octets.length ≤ 512 ∨ (octets.drop 512).all Json.isBlank
          then parseOctets octets else .error .malformed) ∧
      ∀ text : String, Utf8.ofString text = octets →
        ∃ kept rest, text.toList = kept ++ rest ∧
          (Message.ofText text).octets = Utf8.encode kept ∧ (Utf8.encode kept).length ≤ 512 ∧
          (∀ c ∈ rest.head?, 512 < (Utf8.encode kept).length + (Utf8.encodeChar c).length) ∧
          parse (Message.ofText text) =
            if octets.length ≤ 512 ∨ (Utf8.encode rest).all Json.isBlank
            then parseOctets octets else .error .malformed := by
  have hwhole : parseOctets octets ≠ .error .malformed := by
    rcases h with ⟨e, h⟩ | ⟨version, h⟩ <;> simp [h]
  constructor
  · have hcut : octets.take 512 ++ octets.drop 512 = octets := List.take_append_drop 512 octets
    have hfront := parseOctets_of_append (hcut.symm ▸ hwhole)
    rw [hcut] at hfront
    by_cases hlength : octets.length ≤ 512
    · rw [if_pos (.inl hlength)]
      exact congrArg parseOctets (List.take_of_length_le hlength)
    · simp only [hlength, false_or]
      exact hfront
  · rintro text rfl
    obtain ⟨rest, hrest, hnext⟩ := Utf8.exists_takeFitting maxMessageLength text.toList
    have hcut : Utf8.ofString text = (Message.ofText text).octets ++ Utf8.encode rest := by
      rw [Message.ofText, ← Utf8.encode_append, ← hrest, Utf8.ofString]
    refine ⟨_, rest, hrest, rfl, (Message.ofText text).length_le, hnext, ?_⟩
    have hfront := parseOctets_of_append (hcut ▸ hwhole)
    rw [← hcut] at hfront
    by_cases hlength : (Utf8.ofString text).length ≤ 512
    · -- What fits whole leaves nothing.
      have hnone : rest = [] := by
        cases rest with
        | nil => rfl
        | cons c rest =>
            have hc : 512 < _ := hnext c rfl
            have hsum := congrArg List.length hcut
            simp only [Utf8.encode_cons, List.length_append, Message.ofText] at hsum
            omega
      rw [if_pos (.inl hlength)]
      exact hfront.trans (if_pos (by simp [hnone]))
    · simp only [hlength, false_or]
      exact hfront

/-- A heartbeat with blanks behind it, more than a message holds. -/
def trailed : Octets :=
  Utf8.ofString heartbeatFrame ++ List.replicate 600 0x20

/-- An envelope of more octets than a message holds. -/
def lengthy : Envelope :=
  build "ping" [("padding", .array (List.replicate 120 .null))]

theorem parse_of_cut_frames :
    (∃ e, parseOctets trailed = .ok e ∧ parse (Message.ofOctets trailed) = .ok e) ∧
      parseOctets lengthy.serialize = .ok lengthy ∧
      parse (Message.ofOctets lengthy.serialize) = .error .malformed := by
  constructor
  · have hblank : ∀ b ∈ List.replicate 600 (0x20 : UInt8), Json.isBlank b = true :=
      fun b hb => List.eq_of_mem_replicate hb ▸ rfl
    have hheartbeat : (parseOctets (Utf8.ofString heartbeatFrame)).isOk = true := by
      decide +kernel
    have hsame : parseOctets trailed = parseOctets (Utf8.ofString heartbeatFrame) := by
      rw [parseOctets, parseOctets, memberList?, memberList?, trailed,
        Json.parse?_append_blanks _ hblank]
    cases he : parseOctets (Utf8.ofString heartbeatFrame) with
    | error _ => simp [he, Except.isOk, Except.toBool] at hheartbeat
    | ok e =>
        have hread := hsame.trans he
        refine ⟨e, hread, ?_⟩
        rw [(parse_of_cut (.inl ⟨e, hread⟩)).1, hread]
        refine if_pos (.inr ?_)
        decide +kernel
  · have hread : parseOctets lengthy.serialize = .ok lengthy := by
      have hsound : Sound lengthy := by
        apply sound_build
        intro field hfield
        obtain rfl := List.mem_singleton.mp hfield
        exact .array fun item hitem => List.eq_of_mem_replicate hitem ▸ .null
      rw [hsound.parseOctets_serialize]
      refine if_pos ?_
      decide +kernel
    refine ⟨hread, ?_⟩
    rw [(parse_of_cut (.inl ⟨lengthy, hread⟩)).1]
    refine if_neg ?_
    decide +kernel

end Envelope

end Uplink
