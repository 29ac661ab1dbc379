import Mathlib.Data.List.Forall2
import Mathlib.Data.List.Perm.Basic
import Uplink.Proofs.Envelope.Received
import Uplink.Proofs.Json.Lookup
import Uplink.Proofs.Json.Tree

/-! # What reading an envelope comes to

A reference in two steps: whether the octets are one object, and what its members with the two
reserved names are, together with what each other name stands for. Reading agrees with it on all
octets, so that neither blanks nor the order of members that differ in their names matter. -/

namespace Uplink

namespace Json

/-! ## Members and what they stand for -/

/-- A member as it is written stands for a name and a value. -/
def Means (depth : Nat) (member : List Piece × Node) (pair : String × Json) : Prop :=
  pieceString? member.1 = some pair.1 ∧ member.2.value? depth = some pair.2

theorem memberValues?_eq_some_iff {depth : Nat} {members : List (List Piece × Node)}
    {pairs : List (String × Json)} :
    memberValues? depth members = some pairs ↔ List.Forall₂ (Means depth) members pairs := by
  induction members generalizing pairs with
  | nil =>
      rw [memberValues?, List.forall₂_nil_left_iff, Option.some.injEq]
      exact eq_comm
  | cons member members ih =>
      obtain ⟨pieces, node⟩ := member
      rw [memberValues?, List.forall₂_cons_left_iff]
      constructor
      · intro h
        split at h
        · next name value rest hname hvalue hrest =>
            obtain rfl := Option.some.inj h
            exact ⟨(name, value), rest, ⟨hname, hvalue⟩, ih.mp hrest, rfl⟩
        · cases h
      · rintro ⟨⟨name, value⟩, rest, ⟨hname, hvalue⟩, hrest, rfl⟩
        rw [hname, hvalue, ih.mpr hrest]

/-- Members in another order stand for the same in another order. -/
theorem memberValues?_of_perm {depth : Nat} {members members' : List (List Piece × Node)}
    {pairs : List (String × Json)} (h : memberValues? depth members = some pairs)
    (hperm : members'.Perm members) :
    ∃ pairs', memberValues? depth members' = some pairs' ∧ pairs'.Perm pairs := by
  obtain ⟨pairs', hpairs', hperm'⟩ :=
    List.perm_comp_forall₂ hperm (memberValues?_eq_some_iff.mp h)
  exact ⟨pairs', memberValues?_eq_some_iff.mpr hpairs', hperm'⟩

end Json

namespace Envelope

open Json (Means Members Node NumberLiteral Piece Text memberValues? pieceString?)

/-! ## The reference -/

/-- The octets are one object: a text of its tokens, whose members all stand for a name and a value
that are not nested too deep. -/
structure Document (octets : Octets) (members : List (List Piece × Node))
    (pairs : List (String × Json)) : Prop where
  text : Text (Node.object members).tokens octets
  values : memberValues? (Json.maxDepth - 1) members = some pairs

/-- What is written beside a name, at the top of an object. -/
def named (name : String) (members : List (List Piece × Node)) : List Node :=
  (members.filter fun member => pieceString? member.1 = some name).map (·.2)

/-- Exactly one member is named `v`, with an unsigned integer literal, and exactly one is named
`type`, with a string. -/
structure Header (members : List (List Piece × Node)) (version : UInt64) (type : String) :
    Prop where
  version : ∃ literal, named "v" members = [.number literal] ∧
    literal.IsUnsigned version.toNat
  type : ∃ pieces, named "type" members = [.string pieces] ∧ pieceString? pieces = some type

/-- What reading the octets has to come to. -/
inductive Reference (octets : Octets) : Except EnvelopeError Envelope → Prop
  | noDocument (h : ∀ members pairs, ¬ Document octets members pairs) :
      Reference octets (.error .malformed)
  | noHeader {members pairs} (h : Document octets members pairs)
      (hnone : ∀ version type, ¬ Header members version type) :
      Reference octets (.error .malformed)
  | otherVersion {members pairs version type} (h : Document octets members pairs)
      (hheader : Header members version type) (hother : version ≠ 1) :
      Reference octets (.error (.unsupportedVersion version))
  | envelope {members pairs type fields} (h : Document octets members pairs)
      (hheader : Header members 1 type) (hordered : Members.Ordered fields)
      (hfields : ∀ name, fields.get? name =
        if name = "v" ∨ name = "type" then none else pairs.reverse.lookup name) :
      Reference octets (.ok ⟨1, type, fields⟩)

/-! ## Documents -/

section Documents

variable {octets : Octets} {members : List (List Piece × Node)} {pairs : List (String × Json)}

theorem memberList?_eq_some_iff :
    memberList? octets = some pairs ↔ ∃ members, Document octets members pairs := by
  rw [memberList?]
  constructor
  · intro h
    split at h
    · next members hparse => exact ⟨members, Json.parse?_iff_text.mp hparse, h⟩
    · cases h
  · rintro ⟨members, htext, hvalues⟩
    rw [Json.parse?_iff_text.mpr htext]
    exact hvalues

theorem Document.memberList? (h : Document octets members pairs) :
    memberList? octets = some pairs :=
  memberList?_eq_some_iff.mpr ⟨members, h⟩

theorem Document.parseOctets_of_none (h : Document octets members pairs)
    (hnone : ofMembers? pairs = none) : parseOctets octets = .error .malformed := by
  rw [parseOctets, h.memberList?, Option.bind_eq_bind, Option.bind_some, hnone]

theorem Document.parseOctets_of_some (h : Document octets members pairs) {e : Envelope}
    (he : ofMembers? pairs = some e) :
    parseOctets octets =
      if e.version = envelopeVersion then .ok e else .error (.unsupportedVersion e.version) := by
  rw [parseOctets, h.memberList?, Option.bind_eq_bind, Option.bind_some, he]

end Documents

/-! ## The header -/

section Headers

variable {members : List (List Piece × Node)} {pairs : List (String × Json)} {depth : Nat}

/-- What is written beside a name stands for the values under this name. -/
theorem named_means (name : String) (h : List.Forall₂ (Means depth) members pairs) :
    List.Forall₂ (fun node value => node.value? depth = some value) (named name members)
      (valuesOf name pairs) := by
  induction h with
  | nil => exact .nil
  | @cons member pair members pairs hmember _ ih =>
      obtain ⟨hname, hvalue⟩ := hmember
      rw [valuesOf_cons]
      by_cases heq : pair.1 = name
      · have hnamed : named name (member :: members) = member.2 :: named name members := by
          simp [named, hname, heq]
        rw [hnamed, if_pos heq]
        exact .cons hvalue ih
      · have hnamed : named name (member :: members) = named name members := by
          simp [named, hname, heq]
        rwa [hnamed, if_neg heq]

theorem unsigned?_eq_some_iff {value : Json} {version : UInt64} :
    unsigned? value = some version ↔ value = .number (versionNumber version) := by
  constructor
  · intro h
    unfold unsigned? at h
    split at h
    · next n inRange =>
        split at h
        · next hnonneg =>
            obtain rfl := Option.some.inj h
            have hback : ((UInt64.ofNat n.toNat).toNat : Int) = n := by
              rw [UInt64.toNat_ofNat']
              omega
            simp only [versionNumber, hback]
        · cases h
    · cases h
  · rintro rfl
    simp [unsigned?, versionNumber]

theorem string?_eq_some_iff {value : Json} {s : String} :
    string? value = some s ↔ value = .string s := by
  cases value <;> simp [string?]

/-- A value is an unsigned integer just if a literal of this integer is written for it. -/
theorem unsigned?_iff_literal {node : Node} {value : Json} (h : node.value? depth = some value)
    (version : UInt64) :
    unsigned? value = some version ↔
      ∃ literal, node = .number literal ∧ literal.IsUnsigned version.toNat := by
  rw [unsigned?_eq_some_iff]
  constructor
  · rintro rfl
    cases node with
    | number literal =>
        obtain ⟨number, hnumber, heq⟩ := Option.map_eq_some_iff.mp h
        obtain rfl := Json.number.inj heq
        exact ⟨literal, rfl, NumberLiteral.value?_iff_isUnsigned _ |>.mp hnumber⟩
    | null | bool => cases h
    | string =>
        obtain ⟨_, -, heq⟩ := Option.map_eq_some_iff.mp h
        cases heq
    | array | object =>
        cases depth with
        | zero => cases h
        | succ =>
            obtain ⟨_, -, heq⟩ := Option.map_eq_some_iff.mp h
            cases heq
  · rintro ⟨literal, rfl, hunsigned⟩
    obtain ⟨number, hnumber, rfl⟩ := Option.map_eq_some_iff.mp h
    have hvalue := (NumberLiteral.value?_iff_isUnsigned
      (by have := version.toNat_lt; omega)).mpr hunsigned
    obtain rfl := Option.some.inj (hnumber.symm.trans hvalue)
    rfl

/-- A value is a string just if one is written for it. -/
theorem string?_iff_literal {node : Node} {value : Json} (h : node.value? depth = some value)
    (s : String) :
    string? value = some s ↔ ∃ pieces, node = .string pieces ∧ pieceString? pieces = some s := by
  rw [string?_eq_some_iff]
  constructor
  · rintro rfl
    cases node with
    | string pieces =>
        obtain ⟨s', hs, heq⟩ := Option.map_eq_some_iff.mp h
        obtain rfl := Json.string.inj heq
        exact ⟨pieces, rfl, hs⟩
    | null | bool => cases h
    | number =>
        obtain ⟨_, -, heq⟩ := Option.map_eq_some_iff.mp h
        cases heq
    | array | object =>
        cases depth with
        | zero => cases h
        | succ =>
            obtain ⟨_, -, heq⟩ := Option.map_eq_some_iff.mp h
            cases heq
  · rintro ⟨pieces, rfl, hs⟩
    obtain ⟨s', hs', rfl⟩ := Option.map_eq_some_iff.mp h
    obtain rfl := Option.some.inj (hs.symm.trans hs')
    rfl

/-- One value of a kind stands under a name just if one is written of the kind. -/
theorem exists_valuesOf_iff (name : String) (h : List.Forall₂ (Means depth) members pairs)
    {P : Json → Prop} {Q : Node → Prop}
    (hkind : ∀ node value, node.value? depth = some value → (P value ↔ Q node)) :
    (∃ value, valuesOf name pairs = [value] ∧ P value) ↔
      ∃ node, named name members = [node] ∧ Q node := by
  have hmeans := named_means name h
  constructor
  · rintro ⟨value, hvalues, hvalue⟩
    rw [hvalues, List.forall₂_cons_right_iff] at hmeans
    obtain ⟨node, rest, hnode, hrest, hnamed⟩ := hmeans
    obtain rfl := List.forall₂_nil_right_iff.mp hrest
    exact ⟨node, hnamed, (hkind node value hnode).mp hvalue⟩
  · rintro ⟨node, hnamed, hnode⟩
    rw [hnamed, List.forall₂_cons_left_iff] at hmeans
    obtain ⟨value, rest, hvalue, hrest, hvalues⟩ := hmeans
    obtain rfl := List.forall₂_nil_left_iff.mp hrest
    exact ⟨value, hvalues, (hkind node value hvalue).mpr hnode⟩

/-- The header is what the version and the type are taken from. -/
theorem header_iff (h : memberValues? depth members = some pairs) (version : UInt64)
    (type : String) :
    Header members version type ↔
      (∃ value, valuesOf versionName pairs = [value] ∧ unsigned? value = some version) ∧
        ∃ value, valuesOf typeName pairs = [value] ∧ string? value = some type := by
  have hmeans := Json.memberValues?_eq_some_iff.mp h
  rw [exists_valuesOf_iff versionName hmeans fun _ _ hvalue => unsigned?_iff_literal hvalue version,
    exists_valuesOf_iff typeName hmeans fun _ _ hvalue => string?_iff_literal hvalue type]
  constructor
  · rintro ⟨⟨literal, hversion, hunsigned⟩, ⟨pieces, htype, hstring⟩⟩
    exact ⟨⟨_, hversion, literal, rfl, hunsigned⟩, ⟨_, htype, pieces, rfl, hstring⟩⟩
  · rintro ⟨⟨_, hversion, literal, rfl, hunsigned⟩, ⟨_, htype, pieces, rfl, hstring⟩⟩
    exact ⟨⟨literal, hversion, hunsigned⟩, ⟨pieces, htype, hstring⟩⟩

end Headers

/-! ## The fields -/

section Fields

variable {pairs pairs' : List (String × Json)}

theorem lookup_others (pairs : List (String × Json)) (name : String) :
    (others pairs).lookup name =
      if name = versionName ∨ name = typeName then none else pairs.lookup name := by
  induction pairs with
  | nil => simp [others]
  | cons pair pairs ih =>
      have hlookup := Members.get?_cons pair.1 pair.2
      simp only [Members.get?] at hlookup
      rw [others_cons, hlookup]
      by_cases hother : pair.1 ≠ versionName ∧ pair.1 ≠ typeName
      · rw [if_pos hother, hlookup, ih]
        by_cases heq : name = pair.1
        · subst heq
          simp [hother.1, hother.2]
        · simp [heq]
      · rw [if_neg hother, ih]
        by_cases heq : name = pair.1
        · subst heq
          simp [show pair.1 = versionName ∨ pair.1 = typeName by tauto]
        · simp [heq]

/-- The fields are in order, and each of the other names stands for what came last. -/
theorem eq_ofList_others_iff {fields : Members} :
    fields = Members.ofList (others pairs) ↔
      Members.Ordered fields ∧ ∀ name, fields.get? name =
        if name = versionName ∨ name = typeName then none else pairs.reverse.lookup name := by
  have hget (name : String) : (Members.ofList (others pairs)).get? name =
      if name = versionName ∨ name = typeName then none else pairs.reverse.lookup name := by
    have hreverse : (others pairs).reverse = others pairs.reverse := List.filter_reverse.symm
    rw [Members.get?_ofList, hreverse, lookup_others]
  constructor
  · rintro rfl
    exact ⟨Members.ordered_ofList _, hget⟩
  · rintro ⟨hordered, hfields⟩
    refine Members.Ordered.ext hordered (Members.ordered_ofList _) fun name => ?_
    rw [hfields, hget]

/-- The version, the type, and what each other name stands for do not depend on the order. -/
theorem ofMembers?_of_perm (hdistinct : (pairs.map (·.1)).Nodup) (hperm : pairs'.Perm pairs) :
    ofMembers? pairs' = ofMembers? pairs := by
  have hvalues (name : String) (value : Json) :
      valuesOf name pairs' = [value] ↔ valuesOf name pairs = [value] := by
    have hsame : (valuesOf name pairs').Perm (valuesOf name pairs) := (hperm.filter _).map _
    constructor
    · intro h
      exact List.perm_singleton.mp (h ▸ hsame.symm)
    · intro h
      exact List.perm_singleton.mp (h ▸ hsame)
  have hdistinct' : (pairs.reverse.map (·.1)).Nodup := by
    rw [List.map_reverse]
    exact List.pairwise_reverse.mpr (hdistinct.imp Ne.symm)
  have hreverse : pairs'.reverse.Perm pairs.reverse :=
    (List.reverse_perm _).trans (hperm.trans (List.reverse_perm _).symm)
  refine Option.ext fun e => ?_
  simp only [ofMembers?_eq_some_iff, hvalues, eq_ofList_others_iff,
    Members.lookup_of_perm hdistinct' hreverse]

end Fields

/-! ## Reading agrees with the reference -/

section Agreement

variable {octets : Octets} {members : List (List Piece × Node)} {pairs : List (String × Json)}

theorem Document.ofMembers?_eq_some_iff (h : Document octets members pairs) {e : Envelope} :
    ofMembers? pairs = some e ↔
      Header members e.version e.type ∧ Members.Ordered e.fields ∧ ∀ name, e.fields.get? name =
        if name = versionName ∨ name = typeName then none else pairs.reverse.lookup name := by
  rw [Envelope.ofMembers?_eq_some_iff, eq_ofList_others_iff, header_iff h.values, and_assoc]

/-- Whatever the octets are, the reference has a result for them: that of reading them. -/
theorem reference_parseOctets (octets : Octets) : Reference octets (parseOctets octets) := by
  cases hpairs : memberList? octets with
  | none =>
      have hresult : parseOctets octets = .error .malformed := by
        rw [parseOctets, hpairs]
        rfl
      rw [hresult]
      refine .noDocument fun members pairs h => ?_
      cases hpairs.symm.trans h.memberList?
  | some pairs =>
      obtain ⟨members, hdocument⟩ := memberList?_eq_some_iff.mp hpairs
      cases he : ofMembers? pairs with
      | none =>
          rw [hdocument.parseOctets_of_none he]
          refine .noHeader hdocument fun version type hheader => ?_
          have hsome := hdocument.ofMembers?_eq_some_iff
            (e := ⟨version, type, Members.ofList (others pairs)⟩)
          cases he.symm.trans (hsome.mpr ⟨hheader, eq_ofList_others_iff.mp rfl⟩)
      | some e =>
          obtain ⟨hheader, hordered, hfields⟩ := hdocument.ofMembers?_eq_some_iff.mp he
          rw [hdocument.parseOctets_of_some he]
          split
          · next hversion =>
              obtain ⟨version, type, fields⟩ := e
              obtain rfl : version = 1 := hversion
              exact .envelope hdocument hheader hordered hfields
          · next hversion => exact .otherVersion hdocument hheader hversion

/-- The reference leaves no choice. -/
theorem Reference.parseOctets_eq {result : Except EnvelopeError Envelope}
    (h : Reference octets result) : parseOctets octets = result := by
  cases h with
  | noDocument h =>
      have hpairs : Envelope.memberList? octets = none := by
        refine Option.eq_none_iff_forall_ne_some.mpr fun pairs hpairs => ?_
        obtain ⟨members, hdocument⟩ := memberList?_eq_some_iff.mp hpairs
        exact h members pairs hdocument
      rw [parseOctets, hpairs]
      rfl
  | noHeader h hnone =>
      refine h.parseOctets_of_none (Option.eq_none_iff_forall_ne_some.mpr fun e he => ?_)
      exact hnone _ _ (h.ofMembers?_eq_some_iff.mp he).1
  | @otherVersion _ pairs version type h hheader hother =>
      have he : ofMembers? pairs = some ⟨version, type, Members.ofList (others pairs)⟩ :=
        h.ofMembers?_eq_some_iff.mpr ⟨hheader, eq_ofList_others_iff.mp rfl⟩
      rw [h.parseOctets_of_some he]
      exact if_neg hother
  | @envelope _ pairs type fields h hheader hordered hfields =>
      have he : ofMembers? pairs = some ⟨1, type, fields⟩ :=
        h.ofMembers?_eq_some_iff.mpr ⟨hheader, hordered, hfields⟩
      rw [h.parseOctets_of_some he]
      exact if_pos rfl

theorem parseOctets_congr {octets' : Octets} {pairs' : List (String × Json)}
    {members' : List (List Piece × Node)} (h : Document octets members pairs)
    (h' : Document octets' members' pairs') (hsame : ofMembers? pairs' = ofMembers? pairs) :
    parseOctets octets' = parseOctets octets := by
  rw [parseOctets, parseOctets, h.memberList?, h'.memberList?, Option.bind_eq_bind,
    Option.bind_some, Option.bind_some, hsame]

/-- Reading comes to what the reference says, for all octets. So the members of a document whose
names differ may come in any order, in any text, and blanks between two tokens change nothing. -/
theorem parseOctets_iff_reference (octets : Octets) :
    (∀ result, parseOctets octets = result ↔ Reference octets result) ∧
      ∀ members pairs, Document octets members pairs →
        ((pairs.map (·.1)).Nodup → ∀ members' octets', members'.Perm members →
          Text (Node.object members').tokens octets' →
          parseOctets octets' = parseOctets octets) ∧
        ∀ tokens tokens' front back blanks, tokens ++ tokens' = (Node.object members).tokens →
          Text tokens front → Text tokens' back → front ++ back = octets →
          (∀ b ∈ blanks, Json.isBlank b = true) →
          parseOctets (front ++ (blanks ++ back)) = parseOctets octets := by
  refine ⟨fun result => ⟨?_, Reference.parseOctets_eq⟩, fun members pairs h => ⟨?_, ?_⟩⟩
  · rintro rfl
    exact reference_parseOctets octets
  · intro hdistinct members' octets' hperm htext
    obtain ⟨pairs', hpairs', hperm'⟩ := Json.memberValues?_of_perm h.values hperm
    exact parseOctets_congr h ⟨htext, hpairs'⟩ (ofMembers?_of_perm hdistinct hperm')
  · rintro tokens tokens' front back blanks htokens hfront hback rfl hblanks
    obtain ⟨hparse, -⟩ := Json.parse?_of_blanks hfront hback htokens hblanks
    exact parseOctets_congr h ⟨Json.parse?_iff_text.mp hparse, h.values⟩ rfl

/-- The members of a heartbeat as they are written. -/
def heartbeatMembers : List (List Piece × Node) :=
  [(Json.textPieces "v".toList, .number ⟨false, [1], [], none⟩),
    (Json.textPieces "type".toList, .string (Json.textPieces "ping".toList))]

theorem document_heartbeat :
    Document (Utf8.ofString heartbeatFrame) heartbeatMembers
      [("v", .number (versionNumber 1)), ("type", .string "ping")] where
  text := Json.text_of_tokens? (by decide +kernel)
  values := by
    refine Json.memberValues?_eq_some_iff.mpr (.cons ⟨?_, ?_⟩ (.cons ⟨?_, ?_⟩ .nil))
    · exact Json.pieceString?_textPieces "v"
    · have hone : NumberLiteral.IsUnsigned ⟨false, [1], [], none⟩ 1 := ⟨rfl, rfl, rfl, rfl⟩
      exact congrArg (Option.map Json.number)
        ((NumberLiteral.value?_iff_isUnsigned (by decide)).mpr hone)
    · exact Json.pieceString?_textPieces "type"
    · exact congrArg (Option.map Json.string) (Json.pieceString?_textPieces "ping")

theorem header_heartbeat : Header heartbeatMembers 1 "ping" :=
  (header_iff document_heartbeat.values 1 "ping").mpr ⟨⟨_, rfl, rfl⟩, ⟨_, rfl, rfl⟩⟩

/-- A heartbeat is read from its frame, from one with its members in the other order, and with a
blank before a colon. -/
theorem parseOctets_heartbeat_respelled :
    parseOctets (Utf8.ofString heartbeatFrame) = .ok (ofType pingType) ∧
      parseOctets (Utf8.ofString " \x7b\"type\" :\t\"ping\", \"v\":1\x7d\n") =
        .ok (ofType pingType) ∧
      parseOctets (Utf8.ofString "\x7b\"v\" :1,\"type\":\"ping\"\x7d") =
        .ok (ofType pingType) := by
  obtain ⟨hresult, hspelled⟩ := parseOctets_iff_reference (Utf8.ofString heartbeatFrame)
  obtain ⟨hreorder, hblanks⟩ := hspelled _ _ document_heartbeat
  have hread : parseOctets (Utf8.ofString heartbeatFrame) = .ok (ofType pingType) := by
    refine (hresult _).mpr (.envelope document_heartbeat header_heartbeat .nil fun name => ?_)
    split
    · rfl
    · next hname =>
        have habsent : [("type", Json.string "ping"),
            ("v", .number (versionNumber 1))].lookup name = none := by
          rw [List.lookup_eq_none_iff]
          simp only [List.forall_mem_cons, bne_iff_ne, ne_eq]
          exact ⟨fun h => hname (.inr h), fun h => hname (.inl h), nofun⟩
        exact habsent.symm
  refine ⟨hread, ?_, ?_⟩
  · rw [← hread]
    apply hreorder (by decide) heartbeatMembers.reverse _ (List.reverse_perm _)
    exact Json.text_of_tokens? (by decide +kernel)
  · rw [← hread]
    exact hblanks [.beginObject, .string (Json.textPieces "v".toList)] _
      (Utf8.ofString "\x7b\"v\"") (Utf8.ofString ":1,\"type\":\"ping\"\x7d") [0x20] rfl
      (Json.text_of_tokens? (by decide +kernel)) (Json.text_of_tokens? (by decide +kernel))
      (by decide +kernel) (List.forall_mem_singleton.mpr rfl)

end Agreement

end Envelope

end Uplink
