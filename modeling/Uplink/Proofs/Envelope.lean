import Uplink.Proofs.Envelope.Draft
import Uplink.Proofs.Json.RoundTrip

/-! # Envelopes are read back

An envelope that was put together field by field is written whole or not at all, and what is
written is read as the envelope again, unless a field is too high for the reader. -/

namespace Uplink.Envelope

open Json (Integral)

/-- An envelope of the current version with fields, set from left to right. -/
def build (type : String) (fields : List (String × Json)) : Envelope :=
  fields.foldl (fun e (name, value) => e.withField name value) (ofType type)

/-- The greatest height of a field that is read: the object around the fields takes one place. -/
def maxFieldHeight : Nat := Json.maxDepth - 1

/-! ## What setting fields preserves -/

/-- What holds of an envelope after any number of fields. -/
structure Sound (e : Envelope) : Prop where
  version : e.version = envelopeVersion
  ordered : Json.Members.Ordered e.fields
  unreserved : ∀ field ∈ e.fields, field.1 ≠ versionName ∧ field.1 ≠ typeName
  integral : ∀ field ∈ e.fields, field.2.Integral

theorem sound_ofType (type : String) : Sound (ofType type) where
  version := rfl
  ordered := Json.Members.ordered_nil
  unreserved _ h := nomatch h
  integral _ h := nomatch h

theorem Sound.withField {e : Envelope} (h : Sound e) (name : String) {value : Json}
    (hvalue : value.Integral) : Sound (e.withField name value) := by
  rw [Envelope.withField]
  split
  · exact h
  · next hname =>
      simp only [Bool.or_eq_true, decide_eq_true_eq, not_or] at hname
      constructor
      case version => exact h.version
      case ordered => exact h.ordered.insert
      case unreserved =>
        intro field hfield
        rcases Json.Members.mem_insert hfield with rfl | hfield
        · exact hname
        · exact h.unreserved field hfield
      case integral =>
        intro field hfield
        rcases Json.Members.mem_insert hfield with rfl | hfield
        · exact hvalue
        · exact h.integral field hfield

theorem Sound.foldl_withField {e : Envelope} (h : Sound e) {fields : List (String × Json)}
    (hfields : ∀ field ∈ fields, field.2.Integral) :
    Sound (fields.foldl (fun e (name, value) => e.withField name value) e) := by
  induction fields generalizing e with
  | nil => exact h
  | cons field fields ih =>
      have hfirst := h.withField field.1 (hfields field List.mem_cons_self)
      exact ih hfirst fun field hmem => hfields field (List.mem_cons_of_mem _ hmem)

theorem sound_build (type : String) {fields : List (String × Json)}
    (h : ∀ field ∈ fields, field.2.Integral) : Sound (build type fields) :=
  (sound_ofType type).foldl_withField h

/-! ## From the members -/

theorem valuesOf_eq_nil {name : String} {pairs : List (String × Json)}
    (h : ∀ pair ∈ pairs, pair.1 ≠ name) : valuesOf name pairs = [] := by
  have hnone : (pairs.filter fun pair => pair.1 = name) = [] := by
    apply List.filter_eq_nil_iff.mpr
    intro pair hpair
    simpa using h pair hpair
  rw [valuesOf, hnone, List.map_nil]

theorem unsigned?_versionNumber (version : UInt64) :
    unsigned? (.number (versionNumber version)) = some version := by
  simp [unsigned?, versionNumber]

/-- Its members are enough to have an envelope back. -/
theorem Sound.ofMembers?_members {e : Envelope} (h : Sound e) : ofMembers? e.members = some e := by
  have hne : typeName ≠ versionName := typeName_ne_versionName
  have hversion : valuesOf versionName e.members = [.number (versionNumber e.version)] := by
    have hnone := valuesOf_eq_nil fun field hfield => (h.unreserved field hfield).1
    simpa [valuesOf, members, hne] using hnone
  have htype : valuesOf typeName e.members = [.string e.type] := by
    have hnone := valuesOf_eq_nil fun field hfield => (h.unreserved field hfield).2
    simpa [valuesOf, members, hne.symm] using hnone
  have hothers : others e.members = e.fields := by
    have hall : others e.fields = e.fields := by
      apply List.filter_eq_self.mpr
      intro field hfield
      simpa using h.unreserved field hfield
    simpa [others, members] using hall
  refine ofMembers?_eq_some_iff.mpr ⟨⟨_, hversion, unsigned?_versionNumber _⟩, ⟨_, htype, rfl⟩, ?_⟩
  rw [hothers, h.ordered.ofList_eq]

theorem Sound.memberList?_serialize {e : Envelope} (h : Sound e) :
    memberList? e.serialize =
      if ∀ field ∈ e.fields, field.2.height ≤ maxFieldHeight then some e.members else none := by
  have hmembers : ∀ member ∈ e.members, ∃ tokens node, Json.Spelled member.2 tokens node := by
    intro member hmember
    rcases List.mem_cons.mp hmember with rfl | hmember
    · exact ⟨_, _, Json.spelled_integer _ _⟩
    · rcases List.mem_cons.mp hmember with rfl | hmember
      · exact ⟨_, _, Json.spelled_string _⟩
      · exact (h.integral member hmember).exists_spelled
  have hne : e.members ≠ [] := List.cons_ne_nil _ _
  obtain ⟨tokens, nodes, hspelled⟩ := Json.exists_spelledMembers hne hmembers
  have hparse : Json.Node.parse? e.serialize = some (.object nodes) := by
    rw [Json.Node.parse?, serialize, Json.tokens?_of_scans hspelled.scans_object]
    simp only [Option.bind_eq_bind, Option.bind_some, Json.Node.ofTokens?, hspelled.parses_object,
      Json.Position.finish?]
  have hheight : Json.membersHeight e.members ≤ maxFieldHeight ↔
      ∀ field ∈ e.fields, field.2.height ≤ maxFieldHeight := by
    rw [Json.membersHeight_le_iff]
    simp [members, Json.height]
  rw [memberList?, hparse]
  simp only [hspelled.valued, ← hheight]
  rfl

/-- What is written is read back, but for fields that are too high. -/
theorem Sound.parseOctets_serialize {e : Envelope} (h : Sound e) :
    parseOctets e.serialize =
      if ∀ field ∈ e.fields, field.2.height ≤ maxFieldHeight then .ok e
      else .error .malformed := by
  rw [parseOctets, h.memberList?_serialize]
  by_cases hheight : ∀ field ∈ e.fields, field.2.height ≤ maxFieldHeight
  · rw [if_pos hheight, if_pos hheight, Option.bind_eq_bind, Option.bind_some,
      h.ofMembers?_members]
    exact if_pos h.version
  · rw [if_neg hheight, if_neg hheight]
    rfl

/-! ## Messages -/

theorem octets_of_toMessage {e : Envelope} {m : Message} (h : e.toMessage = .ok m) :
    m.octets = e.serialize := by
  rw [toMessage] at h
  split at h
  · cases h
  · next hlength =>
      obtain rfl := Except.ok.inj h
      exact List.take_of_length_le (Nat.le_of_not_lt hlength)

theorem toMessage_eq_tooLarge_iff {e : Envelope} :
    e.toMessage = .error .tooLarge ↔ maxMessageLength < e.serialize.length := by
  rw [toMessage]
  split
  · next hlength => exact iff_of_true rfl hlength
  · next hlength => exact iff_of_false nofun hlength

theorem exists_toMessage_iff {e : Envelope} :
    (∃ m, e.toMessage = .ok m) ↔ e.serialize.length ≤ maxMessageLength := by
  rw [toMessage]
  split
  · next hlength => exact iff_of_false nofun (Nat.not_le_of_lt hlength)
  · next hlength => exact iff_of_true ⟨_, rfl⟩ (Nat.le_of_not_lt hlength)

/-- Setting fields, writing and reading: a message is the whole envelope, and reads as the envelope
as far as its fields are not too high. There is no message just when the envelope is too long. -/
theorem build_read_back (type : String) (fields : List (String × Json))
    (h : ∀ field ∈ fields, field.2.Integral) :
    (∀ m, (build type fields).toMessage = .ok m →
      m.octets = (build type fields).serialize ∧ m.octets.length ≤ 512 ∧
      parse m =
        if ∀ field ∈ (build type fields).fields, field.2.height ≤ 126 then .ok (build type fields)
        else .error .malformed) ∧
    ((build type fields).toMessage = .error .tooLarge ↔
      512 < (build type fields).serialize.length) ∧
    ((∃ m, (build type fields).toMessage = .ok m) ↔
      (build type fields).serialize.length ≤ 512) := by
  have hsound := sound_build type h
  refine ⟨?_, toMessage_eq_tooLarge_iff, exists_toMessage_iff⟩
  intro m hm
  have hoctets := octets_of_toMessage hm
  refine ⟨hoctets, m.length_le, ?_⟩
  rw [parse, hoctets]
  exact hsound.parseOctets_serialize

/-- Fields of which one is not flat, and one is none. -/
def report : List (String × Json) :=
  [("uptime", .number (.integer 1234 (by decide))),
    ("peers", .array [.string "a\"b", .object []]), ("type", .null)]

theorem integral_report : ∀ field ∈ report, field.2.Integral := by
  intro field hfield
  simp only [report, List.mem_cons, List.not_mem_nil, or_false] at hfield
  rcases hfield with rfl | rfl | rfl
  · exact .integer _ _
  · apply Integral.array
    intro item hitem
    simp only [List.mem_cons, List.not_mem_nil, or_false] at hitem
    rcases hitem with rfl | rfl
    · exact .string _
    · exact .object Json.Members.ordered_nil (by simp)
  · exact .null

theorem read_back_of_report :
    ∃ m, (build "status" report).toMessage = .ok m ∧ parse m = .ok (build "status" report) := by
  obtain ⟨hread, -, hfits⟩ := build_read_back "status" report integral_report
  obtain ⟨m, hm⟩ := hfits.mpr (by decide +kernel)
  obtain ⟨-, -, hparse⟩ := hread m hm
  refine ⟨m, hm, hparse.trans (if_pos ?_)⟩
  decide +kernel

/-- Arrays around one another, the innermost of them empty. -/
def nested : Nat → Json
  | 0 => .array []
  | n + 1 => .array [nested n]

theorem integral_nested (n : Nat) : (nested n).Integral := by
  induction n with
  | zero => exact .array nofun
  | succ n ih =>
      apply Integral.array
      intro item hitem
      exact List.mem_singleton.mp hitem ▸ ih

/-- A field with one array too many is written, in a message that is no envelope. -/
theorem malformed_of_nested :
    (nested 126).Integral ∧
      ∃ m, (build "x" [("a", nested 126)]).toMessage = .ok m ∧ parse m = .error .malformed := by
  have hfields : ∀ field ∈ [("a", nested 126)], field.2.Integral := by
    intro field hfield
    exact List.mem_singleton.mp hfield ▸ integral_nested 126
  have hhigh : ¬∀ field ∈ (build "x" [("a", nested 126)]).fields,
      field.2.height ≤ maxFieldHeight := by
    decide +kernel
  obtain ⟨m, hm⟩ := exists_toMessage_iff.mpr
    (show (build "x" [("a", nested 126)]).serialize.length ≤ maxMessageLength by decide +kernel)
  refine ⟨integral_nested 126, m, hm, ?_⟩
  rw [parse, octets_of_toMessage hm, (sound_build "x" hfields).parseOctets_serialize]
  exact if_neg hhigh

end Uplink.Envelope
