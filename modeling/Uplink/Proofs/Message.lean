import Uplink.Message
import Uplink.Proofs.Utf8

/-! # What a message keeps of a text

The octets of a text can be cut between two characters and nowhere else. A message keeps what is in
front of the last such place that is not beyond its limit. -/

namespace Uplink

/-! ## Boundaries -/

namespace Utf8

/-- Whether no character goes on at an index. -/
def isBoundary (octets : Octets) (i : Nat) : Bool :=
  match octets[i]? with
  | some b => !isTail b
  | none => i = octets.length

/-- Steps down from an index to a boundary. There may be none on the way. -/
def stepDown? (octets : Octets) (i : Nat) : Option Nat :=
  if isBoundary octets i then some i
  else
    match i with
    | 0 => none
    | i + 1 => stepDown? octets i

theorem isTail_toUInt8 {n : Nat} (h : n < 0x100) :
    isTail n.toUInt8 = true ↔ 0x80 ≤ n ∧ n ≤ 0xBF := by
  simp only [isTail, UInt8.le_iff_toNat_le, UInt8.toNat_ofNat_of_lt' h, UInt8.reduceToNat,
    Bool.and_eq_true, decide_eq_true_eq]

/-- The first octet of a character begins it, and the others continue it. -/
theorem exists_encodeChar (c : Char) :
    ∃ a tails, encodeChar c = a :: tails ∧ tails.length ≤ 3 ∧ isTail a = false ∧
      ∀ b ∈ tails, isTail b = true := by
  have hvalid : c.toNat < 0xD800 ∨ 0xDFFF < c.toNat ∧ c.toNat < 0x110000 := c.valid
  have hlead {n : Nat} (h : n < 0x80 ∨ 0xC0 ≤ n) (h' : n < 0x100) : isTail n.toUInt8 = false := by
    rw [Bool.eq_false_iff, ne_eq, isTail_toUInt8 h']
    omega
  simp only [encodeChar]
  split_ifs with hone htwo hthree
  · exact ⟨_, [], rfl, by simp, hlead (.inl hone) (by omega), by simp⟩
  · exact ⟨_, [tail c.toNat], rfl, by simp, hlead (by omega) (by omega), by simp [isTail_tail]⟩
  · exact ⟨_, [tail (c.toNat / 0x40), tail c.toNat], rfl, by simp, hlead (by omega) (by omega),
      by simp [isTail_tail]⟩
  · exact ⟨_, [tail (c.toNat / 0x1000), tail (c.toNat / 0x40), tail c.toNat], rfl, by simp,
      hlead (by omega) (by omega), by simp [isTail_tail]⟩

theorem length_encodeChar_le (c : Char) : (encodeChar c).length ≤ 4 := by
  obtain ⟨a, tails, hc, hlength, -⟩ := exists_encodeChar c
  rw [hc, List.length_cons]
  omega

theorem isBoundary_append {front octets : Octets} {i : Nat} (h : front.length ≤ i) :
    isBoundary (front ++ octets) i = isBoundary octets (i - front.length) := by
  have hend : i = front.length + octets.length ↔ i - front.length = octets.length := by omega
  simp only [isBoundary, List.getElem?_append_right h, List.length_append, hend]

/-- A boundary is the end of some characters from the front. -/
theorem isBoundary_encode_iff {text : List Char} {i : Nat} :
    isBoundary (encode text) i = true ↔ ∃ kept, kept <+: text ∧ (encode kept).length = i := by
  induction text generalizing i with
  | nil =>
      simp only [isBoundary, encode_nil, List.getElem?_nil, List.length_nil, List.prefix_nil,
        exists_eq_left]
      exact decide_eq_true_iff.trans eq_comm
  | cons c text ih =>
      by_cases hwithin : i < (encodeChar c).length
      · obtain ⟨a, tails, hc, -, ha, htails⟩ := exists_encodeChar c
        rw [encode_cons, isBoundary, List.getElem?_append_left hwithin]
        cases i with
        | zero =>
            refine iff_of_true ?_ ⟨[], List.nil_prefix, rfl⟩
            simp [hc, ha]
        | succ i =>
            refine iff_of_false ?_ ?_
            · have hi : i < tails.length := by simpa [hc] using hwithin
              simp [hc, hi, htails]
            · -- One character from the front is more than this, and none is less.
              rintro ⟨kept, hkept, hlength⟩
              cases kept with
              | nil => simp at hlength
              | cons d kept =>
                  obtain ⟨rfl, -⟩ := List.cons_prefix_cons.mp hkept
                  rw [encode_cons, List.length_append] at hlength
                  omega
      · rw [encode_cons, isBoundary_append (by omega), ih]
        constructor
        · rintro ⟨kept, hkept, hlength⟩
          refine ⟨c :: kept, List.cons_prefix_cons.mpr ⟨rfl, hkept⟩, ?_⟩
          rw [encode_cons, List.length_append]
          omega
        · rintro ⟨kept, hkept, hlength⟩
          cases kept with
          | nil =>
              obtain ⟨a, tails, hc, -⟩ := exists_encodeChar c
              simp [hc, ← hlength] at hwithin
          | cons d kept =>
              obtain ⟨rfl, hrest⟩ := List.cons_prefix_cons.mp hkept
              refine ⟨kept, hrest, ?_⟩
              rw [encode_cons, List.length_append] at hlength
              omega

theorem length_encode_le_of_isPrefix {front text : List Char} (h : front <+: text) :
    (encode front).length ≤ (encode text).length := by
  obtain ⟨rest, rfl⟩ := h
  simp

theorem stepDown?_eq {octets : Octets} {i j : Nat} (hle : j ≤ i) (hj : isBoundary octets j = true)
    (hlast : ∀ k ≤ i, isBoundary octets k = true → k ≤ j) : stepDown? octets i = some j := by
  induction i with
  | zero =>
      obtain rfl : j = 0 := by omega
      rw [stepDown?, if_pos hj]
  | succ i ih =>
      rw [stepDown?]
      split_ifs with hi
      · have hij := hlast (i + 1) (Nat.le_refl _) hi
        exact congrArg some (by omega)
      · refine ih ?_ fun k hk => hlast k (by omega)
        rcases Nat.lt_or_eq_of_le hle with hlt | rfl
        · omega
        · exact absurd hj hi

/-- From the limit, or from the end, the first boundary is behind the characters that fit. -/
theorem stepDown?_encode (limit : Nat) (text : List Char) :
    stepDown? (encode text) (min (encode text).length limit) =
      some (encode (takeFitting limit text)).length := by
  have hkept := takeFitting_isPrefix limit text
  refine stepDown?_eq ?_ (isBoundary_encode_iff.mpr ⟨_, hkept, rfl⟩) ?_
  · have hfits := Message.length_encode_takeFitting limit text
    exact Nat.le_min.mpr ⟨length_encode_le_of_isPrefix hkept, hfits⟩
  · intro k hk hboundary
    obtain ⟨front, hfront, rfl⟩ := isBoundary_encode_iff.mp hboundary
    exact length_encode_le_of_isPrefix
      (prefix_takeFitting hfront (Nat.le_trans hk (Nat.min_le_right _ _)))

theorem ofString_append (front back : String) :
    ofString (front ++ back) = ofString front ++ ofString back := by
  rw [ofString, String.toList_append, encode_append]
  rfl

end Utf8

/-! ## Messages -/

namespace Message

theorem ext_octets {m m' : Message} (h : m.octets = m'.octets) : m = m' := by
  cases m
  cases m'
  simpa using h

theorem ofOctets_octets (m : Message) : ofOctets m.octets = m :=
  ext_octets (List.take_of_length_le m.length_le)

/-- The characters that a message keeps of a text. -/
def kept (text : String) : String :=
  String.ofList (Utf8.takeFitting maxMessageLength text.toList)

theorem octets_ofText (text : String) : (ofText text).octets = Utf8.ofString (kept text) := by
  rw [Utf8.ofString, kept, String.toList_ofList]
  rfl

theorem length_ofString_kept (text : String) :
    (Utf8.ofString (kept text)).length ≤ maxMessageLength := by
  rw [← octets_ofText]
  exact (ofText text).length_le

/-- What is kept is the front of the text, and the next character does not fit behind it. -/
theorem exists_kept (text : String) :
    ∃ rest, text = kept text ++ rest ∧ ∀ c ∈ rest.toList.head?,
      maxMessageLength < (Utf8.ofString (kept text)).length + (Utf8.encodeChar c).length := by
  obtain ⟨rest, hrest, hnext⟩ := Utf8.exists_takeFitting maxMessageLength text.toList
  refine ⟨String.ofList rest, ?_, ?_⟩
  · rw [kept, ← String.ofList_append, ← hrest, String.ofList_toList]
  · rw [kept, Utf8.ofString, String.toList_ofList, String.toList_ofList]
    exact hnext

theorem take_length_ofText (text : String) :
    (Utf8.ofString text).take (ofText text).length = (ofText text).octets := by
  obtain ⟨back, hback, -⟩ := exists_kept text
  have hsplit : Utf8.ofString text = (ofText text).octets ++ Utf8.ofString back := by
    rw [octets_ofText, ← Utf8.ofString_append, ← hback]
  rw [hsplit]
  exact List.take_left

theorem exists_append_kept {text front back : String} (h : text = front ++ back)
    (hfits : (Utf8.ofString front).length ≤ maxMessageLength) :
    ∃ more, kept text = front ++ more := by
  have hfront : front.toList <+: text.toList := by
    rw [h, String.toList_append]
    exact List.prefix_append _ _
  obtain ⟨more, hmore⟩ := Utf8.prefix_takeFitting hfront hfits
  refine ⟨String.ofList more, ?_⟩
  rw [kept, ← hmore, String.ofList_append, String.ofList_toList]

theorem kept_eq (text : String) (h : (Utf8.ofString text).length ≤ maxMessageLength) :
    kept text = text := by
  rw [kept, Utf8.takeFitting_of_le h, String.ofList_toList]

/-- What does not fit is cut by three octets at most. -/
theorem le_length_ofText {text : String} (h : maxMessageLength < (Utf8.ofString text).length) :
    maxMessageLength ≤ (ofText text).length + 3 := by
  obtain ⟨rest, hrest, hnext⟩ := exists_kept text
  cases hchars : rest.toList with
  | nil =>
      have hwhole : kept text = text := by
        rw [String.toList_eq_nil_iff.mp hchars, String.append_empty] at hrest
        exact hrest.symm
      have hle := length_ofString_kept text
      rw [hwhole] at hle
      omega
  | cons c chars =>
      have hlimit := hnext c (by rw [hchars]; rfl)
      have hc := Utf8.length_encodeChar_le c
      rw [length, octets_ofText]
      omega

/-- Every text gives a message, and that is a text too: the longest front of it that has at most
512 octets. Among the octets the message ends at the last boundary up to the limit, and one that is
looked for downwards from the limit, or from the end, is always found. So a text that fits is kept
whole, as the octets it has, and of a longer one three octets of the limit are given up at most. To
cut a text once more changes nothing. -/
theorem ofText_longest (text : String) :
    ∃ front back, text = front ++ back ∧ (ofText text).octets = Utf8.ofString front ∧
      (ofText text).length ≤ 512 ∧
      (∀ other more, text = other ++ more → (Utf8.ofString other).length ≤ 512 →
        ∃ between, front = other ++ between) ∧
      Utf8.isBoundary (Utf8.ofString text) (ofText text).length = true ∧
      (∀ i ≤ 512, Utf8.isBoundary (Utf8.ofString text) i = true → i ≤ (ofText text).length) ∧
      Utf8.stepDown? (Utf8.ofString text) (min (Utf8.ofString text).length 512) =
        some (ofText text).length ∧
      ofText text = ofOctets ((Utf8.ofString text).take (ofText text).length) ∧
      ((Utf8.ofString text).length ≤ 512 →
        front = text ∧ ofText text = ofOctets (Utf8.ofString text)) ∧
      (512 < (Utf8.ofString text).length → 509 ≤ (ofText text).length) ∧
      (ofText text).text? = some front ∧ ofText front = ofText text := by
  obtain ⟨back, hback, -⟩ := exists_kept text
  have hkept : (ofText text).octets = Utf8.ofString (kept text) := octets_ofText text
  have hfits : (ofText text).length ≤ 512 := (ofText text).length_le
  refine ⟨kept text, back, hback, hkept, hfits, fun other more hother => exists_append_kept hother,
    ?_, ?_, Utf8.stepDown?_encode 512 text.toList, ?_, ?_, ?_, ?_, ?_⟩
  · exact Utf8.isBoundary_encode_iff.mpr
      ⟨_, Utf8.takeFitting_isPrefix maxMessageLength text.toList, rfl⟩
  · intro i hi hboundary
    obtain ⟨other, hother, rfl⟩ := Utf8.isBoundary_encode_iff.mp hboundary
    exact Utf8.length_encode_le_of_isPrefix (Utf8.prefix_takeFitting hother hi)
  · rw [take_length_ofText, ofOctets_octets]
  · intro hshort
    have htext := kept_eq text hshort
    rw [htext] at hkept
    exact ⟨htext, by rw [← hkept, ofOctets_octets]⟩
  · intro hlong
    have hle : 512 ≤ (ofText text).length + 3 := le_length_ofText hlong
    omega
  · rw [text?, hkept, Utf8.toString?_ofString]
  · refine ext_octets ?_
    rw [octets_ofText, kept_eq _ (length_ofString_kept text), hkept]

end Message

end Uplink
