import Uplink.Proofs.Envelope

/-! # Envelopes are written as they were received

However a document is spelled, the envelope that is read from it has fields that writing spells
in one way. Without doubles among them this one spelling is read as the same envelope, so that
what is passed on does not change from one station to the next. -/

namespace Uplink

namespace Json

/-! ## What is known of a value that was read -/

mutual

/-- Whether a double stands anywhere in a value. -/
def hasFloat : Json → Bool
  | .number (.float _) => true
  | .array items => itemsHaveFloat items
  | .object members => membersHaveFloat members
  | _ => false

def itemsHaveFloat : List Json → Bool
  | [] => false
  | item :: rest => hasFloat item || itemsHaveFloat rest

def membersHaveFloat : List (String × Json) → Bool
  | [] => false
  | (_, value) :: rest => hasFloat value || membersHaveFloat rest

end

theorem itemsHaveFloat_eq_false_iff {items : List Json} :
    itemsHaveFloat items = false ↔ ∀ item ∈ items, item.hasFloat = false := by
  induction items with
  | nil => simp [itemsHaveFloat]
  | cons item rest ih => simp only [itemsHaveFloat, Bool.or_eq_false_iff, ih, List.forall_mem_cons]

theorem membersHaveFloat_eq_false_iff {members : List (String × Json)} :
    membersHaveFloat members = false ↔ ∀ member ∈ members, member.2.hasFloat = false := by
  induction members with
  | nil => simp [membersHaveFloat]
  | cons member rest ih =>
      simp only [membersHaveFloat, Bool.or_eq_false_iff, ih, List.forall_mem_cons]

theorem itemsHeight_le_iff {items : List Json} {depth : Nat} :
    itemsHeight items ≤ depth ↔ ∀ item ∈ items, item.height ≤ depth := by
  induction items with
  | nil => simp [itemsHeight]
  | cons item rest ih => simp only [itemsHeight, Nat.max_le, ih, List.forall_mem_cons]

/-- A value as the reader returns it when it has room for `depth` arrays and objects around one
another: no higher than this, and of the kind that is written in one way, but for doubles. -/
structure Fits (depth : Nat) (value : Json) : Prop where
  integral : value.hasFloat = false → value.Integral
  height_le : value.height ≤ depth

namespace Fits

variable {depth : Nat}

theorem null : Fits depth .null :=
  ⟨fun _ => .null, Nat.zero_le _⟩

theorem bool (b : Bool) : Fits depth (.bool b) :=
  ⟨fun _ => .bool b, Nat.zero_le _⟩

theorem string (s : String) : Fits depth (.string s) :=
  ⟨fun _ => .string s, Nat.zero_le _⟩

theorem number (n : Number) : Fits depth (.number n) := by
  refine ⟨?_, Nat.zero_le _⟩
  intro hfloat
  cases n with
  | integer value inRange => exact .integer value inRange
  | float value => cases hfloat

theorem array {items : List Json} (h : ∀ item ∈ items, Fits depth item) :
    Fits (depth + 1) (.array items) where
  integral hfloat := by
    have hitems := itemsHaveFloat_eq_false_iff.mp hfloat
    exact .array fun item hitem => (h item hitem).integral (hitems item hitem)
  height_le := by
    have hheight : itemsHeight items ≤ depth :=
      itemsHeight_le_iff.mpr fun item hitem => (h item hitem).height_le
    exact Nat.succ_le_succ hheight

/-- The members are put in order, and of equal names one stays: every one that stays was there. -/
theorem object {pairs : List (String × Json)} (h : ∀ pair ∈ pairs, Fits depth pair.2) :
    Fits (depth + 1) (.object (Members.ofList pairs)) where
  integral hfloat := by
    have hmembers := membersHaveFloat_eq_false_iff.mp hfloat
    apply Integral.object (Members.ordered_ofList pairs)
    intro member hmember
    exact (h member (Members.mem_of_mem_ofList hmember)).integral (hmembers member hmember)
  height_le := by
    have hheight : membersHeight (Members.ofList pairs) ≤ depth := by
      apply membersHeight_le_iff.mpr
      intro member hmember
      exact (h member (Members.mem_of_mem_ofList hmember)).height_le
    exact Nat.succ_le_succ hheight

end Fits

mutual

/-- Whatever document a value is read from, it fits into the room there was. -/
theorem fits_of_value? {node : Node} {depth : Nat} {value : Json}
    (h : node.value? depth = some value) : Fits depth value := by
  cases node with
  | null =>
      obtain rfl := Option.some.inj h
      exact .null
  | bool b =>
      obtain rfl := Option.some.inj h
      exact .bool b
  | number literal =>
      obtain ⟨n, -, rfl⟩ := Option.map_eq_some_iff.mp h
      exact .number n
  | string pieces =>
      obtain ⟨s, -, rfl⟩ := Option.map_eq_some_iff.mp h
      exact .string s
  | array items =>
      cases depth with
      | zero => cases h
      | succ depth =>
          obtain ⟨values, hvalues, rfl⟩ := Option.map_eq_some_iff.mp h
          exact .array (fits_of_itemValues? hvalues)
  | object members =>
      cases depth with
      | zero => cases h
      | succ depth =>
          obtain ⟨pairs, hpairs, rfl⟩ := Option.map_eq_some_iff.mp h
          exact .object (fits_of_memberValues? hpairs)

theorem fits_of_itemValues? {nodes : List Node} {depth : Nat} {values : List Json}
    (h : itemValues? depth nodes = some values) : ∀ value ∈ values, Fits depth value := by
  cases nodes with
  | nil =>
      obtain rfl := Option.some.inj h
      exact fun _ hvalue => nomatch hvalue
  | cons node rest =>
      rw [itemValues?] at h
      split at h
      · next value values hvalue hvalues =>
          obtain rfl := Option.some.inj h
          exact List.forall_mem_cons.mpr ⟨fits_of_value? hvalue, fits_of_itemValues? hvalues⟩
      · cases h

theorem fits_of_memberValues? {nodes : List (List Piece × Node)} {depth : Nat}
    {pairs : List (String × Json)} (h : memberValues? depth nodes = some pairs) :
    ∀ pair ∈ pairs, Fits depth pair.2 := by
  cases nodes with
  | nil =>
      obtain rfl := Option.some.inj h
      exact fun _ hpair => nomatch hpair
  | cons member rest =>
      obtain ⟨name, node⟩ := member
      rw [memberValues?] at h
      split at h
      · next name value pairs _ hvalue hpairs =>
          obtain rfl := Option.some.inj h
          exact List.forall_mem_cons.mpr ⟨fits_of_value? hvalue, fits_of_memberValues? hpairs⟩
      · cases h

end

end Json

namespace Envelope

/-- Whether a double stands anywhere in the fields. -/
def hasFloat (e : Envelope) : Bool :=
  Json.membersHaveFloat e.fields

/-! ## What is known of an envelope that was read -/

theorem parseOctets_eq_ok_iff {octets : Octets} {e : Envelope} :
    parseOctets octets = .ok e ↔
      ∃ pairs, memberList? octets = some pairs ∧ ofMembers? pairs = some e ∧
        e.version = envelopeVersion := by
  rw [parseOctets, Option.bind_eq_bind]
  cases hpairs : memberList? octets with
  | none => simp
  | some pairs =>
      rw [Option.bind_some]
      cases he : ofMembers? pairs with
      | none => simp [he]
      | some e' =>
          by_cases hversion : e'.version = envelopeVersion
          · simp only [hversion, if_true, Except.ok.injEq, Option.some.injEq]
            constructor
            · rintro rfl
              exact ⟨pairs, rfl, he, hversion⟩
            · rintro ⟨pairs', rfl, he', -⟩
              exact Option.some.inj (he.symm.trans he')
          · simp only [hversion, if_false, reduceCtorEq, Option.some.injEq, false_iff]
            rintro ⟨pairs', rfl, he', hversion'⟩
            obtain rfl := Option.some.inj (he.symm.trans he')
            exact hversion hversion'

theorem fits_of_memberList? {octets : Octets} {pairs : List (String × Json)}
    (h : memberList? octets = some pairs) : ∀ pair ∈ pairs, pair.2.Fits maxFieldHeight := by
  rw [memberList?] at h
  split at h
  · exact Json.fits_of_memberValues? h
  · cases h

/-- The fields are the members that are neither the version nor the type. -/
theorem fields_of_ofMembers? {pairs : List (String × Json)} {e : Envelope}
    (h : ofMembers? pairs = some e) : e.fields = Json.Members.ofList (others pairs) :=
  (ofMembers?_eq_some_iff.mp h).2.2

section Received

variable {octets : Octets} {e : Envelope}

/-- Each field of a received envelope is a member of its document. -/
theorem mem_of_mem_fields (h : parseOctets octets = .ok e) {field : String × Json}
    (hfield : field ∈ e.fields) :
    field.2.Fits maxFieldHeight ∧ field.1 ≠ versionName ∧ field.1 ≠ typeName := by
  obtain ⟨pairs, hpairs, he, -⟩ := parseOctets_eq_ok_iff.mp h
  rw [fields_of_ofMembers? he] at hfield
  have hmember := List.mem_filter.mp (Json.Members.mem_of_mem_ofList hfield)
  exact ⟨fits_of_memberList? hpairs field hmember.1, by simpa using hmember.2⟩

theorem sound_of_parseOctets (h : parseOctets octets = .ok e) (hfloat : e.hasFloat = false) :
    Sound e where
  version := by
    obtain ⟨-, -, -, hversion⟩ := parseOctets_eq_ok_iff.mp h
    exact hversion
  ordered := by
    obtain ⟨pairs, -, he, -⟩ := parseOctets_eq_ok_iff.mp h
    rw [fields_of_ofMembers? he]
    exact Json.Members.ordered_ofList _
  unreserved field hfield := (mem_of_mem_fields h hfield).2
  integral field hfield := by
    have hnone := Json.membersHaveFloat_eq_false_iff.mp hfloat field hfield
    exact (mem_of_mem_fields h hfield).1.integral hnone

/-- The fields of a received envelope are never too high to be read again. -/
theorem parse_of_toMessage (h : parseOctets octets = .ok e) (hfloat : e.hasFloat = false)
    {m : Message} (hm : e.toMessage = .ok m) : parse m = .ok e := by
  have hheight : ∀ field ∈ e.fields, field.2.height ≤ maxFieldHeight :=
    fun field hfield => (mem_of_mem_fields h hfield).1.height_le
  rw [parse, octets_of_toMessage hm, (sound_of_parseOctets h hfloat).parseOctets_serialize]
  exact if_pos hheight

end Received

/-! ## Passing on what was received -/

/-- A received envelope has no field under a reserved name. Written again it is read as itself,
doubles apart, is a heartbeat if it was a ping, and is written the same from then on. -/
theorem received_read_back {octets : Octets} {e : Envelope} (h : parseOctets octets = .ok e) :
    (∀ field ∈ e.fields, field.1 ≠ "v" ∧ field.1 ≠ "type") ∧
      (e.hasFloat = false → ∀ m, e.toMessage = .ok m →
        ∃ e', parse m = .ok e' ∧ e' = e ∧ (m.isHeartbeat = true ↔ e.isPing = true) ∧
          e'.toMessage = .ok m) := by
  refine ⟨fun field hfield => (mem_of_mem_fields h hfield).2, ?_⟩
  intro hfloat m hm
  have hparse := parse_of_toMessage h hfloat hm
  refine ⟨e, hparse, rfl, ?_, hm⟩
  rw [Message.isHeartbeat, hparse]

/-- A ping with blanks, escapes, members out of order, and one name twice. -/
def spelledOut : Octets :=
  Utf8.ofString
    " \x7b \"b\":[1,\x7b\"y\":null,\"x\":\"\\u0041\\ud83d\\ude00\"\x7d],\"t\\u0079pe\":\"ping\",
      \"a\":-7, \"\\u0076\" : 1,\"a\":true \x7d\n"

theorem read_back_of_spelledOut :
    ∃ e m, parseOctets spelledOut = .ok e ∧ e.hasFloat = false ∧ e.toMessage = .ok m ∧
      m.octets ≠ spelledOut ∧ parse m = .ok e ∧ m.isHeartbeat = true := by
  have hread : (parseOctets spelledOut).toOption.any (fun e =>
      !e.hasFloat && e.isPing && e.serialize.length < spelledOut.length) = true := by
    decide +kernel
  cases he : parseOctets spelledOut with
  | error _ => simp [he, Except.toOption] at hread
  | ok e =>
      simp only [he, Except.toOption, Option.any_some, Bool.and_eq_true, Bool.not_eq_true',
        decide_eq_true_eq] at hread
      obtain ⟨⟨hfloat, hping⟩, hshorter⟩ := hread
      have hlength : spelledOut.length ≤ maxMessageLength := by decide +kernel
      obtain ⟨m, hm⟩ := exists_toMessage_iff.mpr (Nat.le_trans (Nat.le_of_lt hshorter) hlength)
      obtain ⟨-, hback⟩ := received_read_back he
      obtain ⟨e', hparse, rfl, hheartbeat, -⟩ := hback hfloat m hm
      refine ⟨e', m, rfl, hfloat, hm, ?_, hparse, hheartbeat.mpr hping⟩
      rw [octets_of_toMessage hm]
      exact fun heq => Nat.ne_of_lt hshorter (congrArg List.length heq)

end Envelope

end Uplink
