import Mathlib.Tactic.SplitIfs
import Uplink.Utf8

/-! # UTF-8 reads back what it wrote

Every character is read back from its octets, whatever follows them, so every text is. A character
has no other spelling, so octets that are read as a text are those of that text. -/

namespace Uplink.Utf8

/-! ## First octets -/

section Lead

variable {n : Nat}

theorem lead_one (h : n < 0x80) : lead n.toUInt8 = some ⟨0, 0x80, 0xBF⟩ := by
  have hn : n.toUInt8.toNat = n := UInt8.toNat_ofNat_of_lt' (Nat.lt_trans h (by decide))
  simp only [lead, UInt8.lt_iff_toNat_lt, hn, UInt8.reduceToNat, h, if_true]

theorem lead_two (h : 0xC2 ≤ n) (h' : n < 0xE0) : lead n.toUInt8 = some ⟨1, 0x80, 0xBF⟩ := by
  have hn : n.toUInt8.toNat = n := UInt8.toNat_ofNat_of_lt' (Nat.lt_trans h' (by decide))
  have hone : ¬n < 0x80 := by omega
  have hnone : ¬n < 0xC2 := by omega
  simp only [lead, UInt8.lt_iff_toNat_lt, hn, UInt8.reduceToNat, hone, hnone, h', if_true, if_false]

theorem lead_three (h : 0xE0 ≤ n) (h' : n < 0xF0) :
    lead n.toUInt8 =
      some ⟨2, if n = 0xE0 then 0xA0 else 0x80, if n = 0xED then 0x9F else 0xBF⟩ := by
  have hn : n.toUInt8.toNat = n := UInt8.toNat_ofNat_of_lt' (Nat.lt_trans h' (by decide))
  have hone : ¬n < 0x80 := by omega
  have hnone : ¬n < 0xC2 := by omega
  have htwo : ¬n < 0xE0 := by omega
  simp only [lead, UInt8.lt_iff_toNat_lt, ← UInt8.toNat_inj, hn, UInt8.reduceToNat, hone, hnone,
    htwo, h', if_true, if_false]
  by_cases hlow : n = 0xE0
  · simp [hlow]
  · by_cases hhigh : n = 0xED <;> simp [hlow, hhigh]

theorem lead_four (h : 0xF0 ≤ n) (h' : n < 0xF5) :
    lead n.toUInt8 =
      some ⟨3, if n = 0xF0 then 0x90 else 0x80, if n = 0xF4 then 0x8F else 0xBF⟩ := by
  have hn : n.toUInt8.toNat = n := UInt8.toNat_ofNat_of_lt' (Nat.lt_trans h' (by decide))
  have hone : ¬n < 0x80 := by omega
  have hnone : ¬n < 0xC2 := by omega
  have htwo : ¬n < 0xE0 := by omega
  have hthree : n ≠ 0xE0 ∧ n ≠ 0xED ∧ ¬n < 0xF0 := by omega
  simp only [lead, UInt8.lt_iff_toNat_lt, ← UInt8.toNat_inj, hn, UInt8.reduceToNat, hone, hnone,
    htwo, hthree, if_false]
  by_cases hlow : n = 0xF0
  · simp [hlow]
  · by_cases hhigh : n = 0xF4
    · simp [hhigh]
    · have hmiddle : n < 0xF4 := by omega
      simp [hlow, hhigh, hmiddle]

end Lead

/-! ## Characters -/

/-- A continuing octet with the payload of a number. -/
def tail (n : Nat) : UInt8 :=
  (0x80 + n % 0x40).toUInt8

theorem toNat_tail (n : Nat) : (tail n).toNat = 0x80 + n % 0x40 :=
  UInt8.toNat_ofNat_of_lt' (by change _ < 0x100; omega)

theorem isTail_tail (n : Nat) : isTail (tail n) = true := by
  simp only [isTail, UInt8.le_iff_toNat_le, toNat_tail, UInt8.reduceToNat, Bool.and_eq_true,
    decide_eq_true_eq]
  omega

theorem payload_tail (n : Nat) : payload (tail n) = n % 0x40 := by
  rw [payload, toNat_tail]
  omega

section Front

variable {a b c d : Nat} (rest : Octets)

theorem front_one (ha : a < 0x80) : front (a.toUInt8 :: rest) = .char (Char.ofNat a) rest := by
  have hn : a.toUInt8.toNat = a := UInt8.toNat_ofNat_of_lt' (Nat.lt_trans ha (by decide))
  simp only [front, lead_one ha, hn, if_true]

theorem front_two (ha : 0xC2 ≤ a) (ha' : a < 0xE0) :
    front (a.toUInt8 :: tail b :: rest) =
      .char (Char.ofNat (a % 0x20 * 0x40 + b % 0x40)) rest := by
  have hn : a.toUInt8.toNat = a := UInt8.toNat_ofNat_of_lt' (Nat.lt_trans ha' (by decide))
  have hrange : (0x80 ≤ tail b && tail b ≤ 0xBF) = true := isTail_tail b
  simp [front, lead_two ha ha', hrange, hn, payload_tail]

/-- The second octet may be any but where the character would have a shorter spelling, or be a
surrogate. -/
theorem front_three (ha : 0xE0 ≤ a) (ha' : a < 0xF0) (hlow : a = 0xE0 → 0x20 ≤ b % 0x40)
    (hhigh : a = 0xED → b % 0x40 < 0x20) :
    front (a.toUInt8 :: tail b :: tail c :: rest) =
      .char (Char.ofNat (a % 0x10 * 0x1000 + b % 0x40 * 0x40 + c % 0x40)) rest := by
  have hn : a.toUInt8.toNat = a := UInt8.toNat_ofNat_of_lt' (Nat.lt_trans ha' (by decide))
  have hrange : ((if a = 0xE0 then 0xA0 else 0x80) ≤ tail b &&
      tail b ≤ (if a = 0xED then 0x9F else 0xBF)) = true := by
    split_ifs <;> simp only [UInt8.le_iff_toNat_le, toNat_tail, UInt8.reduceToNat,
      Bool.and_eq_true, decide_eq_true_eq] <;> omega
  simp [front, lead_three ha ha', hrange, hn, payload_tail, isTail_tail]

theorem front_four (ha : 0xF0 ≤ a) (ha' : a < 0xF5) (hlow : a = 0xF0 → 0x10 ≤ b % 0x40)
    (hhigh : a = 0xF4 → b % 0x40 < 0x10) :
    front (a.toUInt8 :: tail b :: tail c :: tail d :: rest) =
      .char (Char.ofNat (a % 0x08 * 0x40000 + b % 0x40 * 0x1000 + c % 0x40 * 0x40 + d % 0x40))
        rest := by
  have hn : a.toUInt8.toNat = a := UInt8.toNat_ofNat_of_lt' (Nat.lt_trans ha' (by decide))
  have hrange : ((if a = 0xF0 then 0x90 else 0x80) ≤ tail b &&
      tail b ≤ (if a = 0xF4 then 0x8F else 0xBF)) = true := by
    split_ifs <;> simp only [UInt8.le_iff_toNat_le, toNat_tail, UInt8.reduceToNat,
      Bool.and_eq_true, decide_eq_true_eq] <;> omega
  simp [front, lead_four ha ha', hrange, hn, payload_tail, isTail_tail]

end Front

/-- A character is read back, whatever follows it. -/
theorem front_encodeChar (c : Char) (rest : Octets) :
    front (encodeChar c ++ rest) = .char c rest := by
  have hvalid : c.toNat < 0xD800 ∨ 0xDFFF < c.toNat ∧ c.toNat < 0x110000 := c.valid
  have hback {v : Nat} (hv : v = c.toNat) : Char.ofNat v = c := by
    rw [hv, Char.ofNat_toNat]
  simp only [encodeChar]
  split_ifs with hone htwo hthree
  · calc front (c.toNat.toUInt8 :: rest)
        = .char (Char.ofNat c.toNat) rest := front_one rest hone
      _ = .char c rest := by rw [hback rfl]
  · calc front ((0xC0 + c.toNat / 0x40).toUInt8 :: tail c.toNat :: rest)
        = .char (Char.ofNat _) rest := front_two rest (by omega) (by omega)
      _ = .char c rest := by rw [hback (by omega)]
  · calc front ((0xE0 + c.toNat / 0x1000).toUInt8 :: tail (c.toNat / 0x40) :: tail c.toNat :: rest)
        = .char (Char.ofNat _) rest :=
          front_three rest (by omega) (by omega) (by omega) (by omega)
      _ = .char c rest := by rw [hback (by omega)]
  · calc front ((0xF0 + c.toNat / 0x40000).toUInt8 :: tail (c.toNat / 0x1000) ::
          tail (c.toNat / 0x40) :: tail c.toNat :: rest)
        = .char (Char.ofNat _) rest :=
          front_four rest (by omega) (by omega) (by omega) (by omega)
      _ = .char c rest := by rw [hback (by omega)]

theorem le_toNat_toUInt8 {n : Nat} (h : 0x80 ≤ n) (h' : n < 0x100) :
    0x80 ≤ n.toUInt8.toNat := by
  rw [UInt8.toNat_ofNat_of_lt' h']
  exact h

/-- The only octet of an ASCII character is its number, and every octet of another character is
beyond them. -/
theorem toNat_of_mem_encodeChar {c : Char} {b : UInt8} (hb : b ∈ encodeChar c) :
    b.toNat = c.toNat ∨ 0x80 ≤ b.toNat := by
  have hvalid : c.toNat < 0xD800 ∨ 0xDFFF < c.toNat ∧ c.toNat < 0x110000 := c.valid
  simp only [encodeChar] at hb
  split_ifs at hb with hone htwo hthree <;>
    simp only [List.mem_cons, List.not_mem_nil, or_false] at hb
  · left
    rw [hb]
    exact UInt8.toNat_ofNat_of_lt' (Nat.lt_trans hone (by decide))
  · right
    rcases hb with rfl | rfl <;> exact le_toNat_toUInt8 (by omega) (by omega)
  · right
    rcases hb with rfl | rfl | rfl <;> exact le_toNat_toUInt8 (by omega) (by omega)
  · right
    rcases hb with rfl | rfl | rfl | rfl <;> exact le_toNat_toUInt8 (by omega) (by omega)

/-! ## Spellings -/

/-- The well-formed first octets, by the number of octets that follow them. -/
theorem lead_cases {a : UInt8} {l : Lead} (h : lead a = some l) :
    a.toNat < 0x80 ∧ l.tails = 0 ∨
      0xC2 ≤ a.toNat ∧ a.toNat < 0xE0 ∧ l.tails = 1 ∧ 0x80 ≤ l.low.toNat ∧ l.high.toNat ≤ 0xBF ∨
      0xE0 ≤ a.toNat ∧ a.toNat < 0xF0 ∧ l.tails = 2 ∧ 0x80 ≤ l.low.toNat ∧ l.high.toNat ≤ 0xBF ∧
        (a.toNat = 0xE0 → l.low.toNat = 0xA0) ∧ (a.toNat = 0xED → l.high.toNat = 0x9F) ∨
      0xF0 ≤ a.toNat ∧ a.toNat < 0xF5 ∧ l.tails = 3 ∧ 0x80 ≤ l.low.toNat ∧ l.high.toNat ≤ 0xBF ∧
        (a.toNat = 0xF0 → l.low.toNat = 0x90) ∧ (a.toNat = 0xF4 → l.high.toNat = 0x8F) := by
  unfold lead at h
  simp only [UInt8.lt_iff_toNat_lt, ← UInt8.toNat_inj, UInt8.reduceToNat] at h
  split_ifs at h <;> cases h <;> simp <;> omega

theorem toUInt8_of_toNat {b : UInt8} {n : Nat} (h : n = b.toNat) : n.toUInt8 = b := by
  rw [h]
  exact UInt8.ofNat_toNat

theorem toNat_ofNat {n : Nat} (h : n < 0xD800 ∨ 0xDFFF < n ∧ n < 0x110000) :
    (Char.ofNat n).toNat = n := by
  have hvalid : n.isValidChar := h
  rw [Char.ofNat, dif_pos hvalid]
  rfl

section Encode

variable {v : Nat} {a b c d : UInt8}

theorem encodeChar_one (h : a.toNat < 0x80) : encodeChar (Char.ofNat a.toNat) = [a] := by
  rw [encodeChar, toNat_ofNat (.inl (by omega)), if_pos h, toUInt8_of_toNat rfl]

theorem encodeChar_two (hv : 0x80 ≤ v) (hv' : v < 0x800) (ha : 0xC0 + v / 0x40 = a.toNat)
    (hb : 0x80 + v % 0x40 = b.toNat) : encodeChar (Char.ofNat v) = [a, b] := by
  rw [encodeChar, toNat_ofNat (.inl (by omega)), if_neg (by omega), if_pos hv',
    toUInt8_of_toNat ha, toUInt8_of_toNat hb]

theorem encodeChar_three (hv : 0x800 ≤ v) (hv' : v < 0x10000) (hscalar : v < 0xD800 ∨ 0xDFFF < v)
    (ha : 0xE0 + v / 0x1000 = a.toNat) (hb : 0x80 + v / 0x40 % 0x40 = b.toNat)
    (hc : 0x80 + v % 0x40 = c.toNat) : encodeChar (Char.ofNat v) = [a, b, c] := by
  rw [encodeChar, toNat_ofNat (by omega), if_neg (by omega), if_neg (by omega), if_pos hv',
    toUInt8_of_toNat ha, toUInt8_of_toNat hb, toUInt8_of_toNat hc]

theorem encodeChar_four (hv : 0x10000 ≤ v) (hv' : v < 0x110000)
    (ha : 0xF0 + v / 0x40000 = a.toNat) (hb : 0x80 + v / 0x1000 % 0x40 = b.toNat)
    (hc : 0x80 + v / 0x40 % 0x40 = c.toNat) (hd : 0x80 + v % 0x40 = d.toNat) :
    encodeChar (Char.ofNat v) = [a, b, c, d] := by
  rw [encodeChar, toNat_ofNat (by omega), if_neg (by omega), if_neg (by omega),
    if_neg (by omega), toUInt8_of_toNat ha, toUInt8_of_toNat hb, toUInt8_of_toNat hc,
    toUInt8_of_toNat hd]

end Encode

theorem toNat_of_isTail {b : UInt8} (h : isTail b = true) : 0x80 ≤ b.toNat ∧ b.toNat ≤ 0xBF := by
  simpa [isTail, UInt8.le_iff_toNat_le] using h

/-- A character that is read is spelled by the octets that are used up. -/
theorem eq_of_front_char {octets rest : Octets} {x : Char} (h : front octets = .char x rest) :
    octets = encodeChar x ++ rest := by
  unfold front at h
  split at h
  · cases h
  next a octets =>
  split at h
  · cases h
  next l hlead =>
  have hcases := lead_cases hlead
  split at h
  · next htails =>
      cases h
      rw [encodeChar_one (by omega)]
      rfl
  next hsome =>
  split at h
  · cases h
  next b octets =>
  split at h
  · cases h
  next hrange =>
  simp only [Bool.not_eq_true', Bool.not_eq_false, Bool.and_eq_true, decide_eq_true_eq,
    UInt8.le_iff_toNat_le] at hrange
  split at h
  · next htails =>
      cases h
      rw [encodeChar_two (a := a) (b := b)]
      · rfl
      all_goals simp only [payload]; omega
  next hmore =>
  split at h
  · cases h
  next c octets =>
  split at h
  · cases h
  next htail =>
  have hc := toNat_of_isTail (by simpa using htail)
  split at h
  · next htails =>
      cases h
      rw [encodeChar_three (a := a) (b := b) (c := c)]
      · rfl
      all_goals simp only [payload]; omega
  next hmost =>
  split at h
  · cases h
  next d octets =>
  split at h
  · cases h
  next htail' =>
  have hd := toNat_of_isTail (by simpa using htail')
  cases h
  rw [encodeChar_four (a := a) (b := b) (c := c) (d := d)]
  · rfl
  all_goals simp only [payload]; omega

/-! ## Texts -/

@[simp] theorem encode_nil : encode [] = [] := rfl

@[simp] theorem encode_cons (c : Char) (text : List Char) :
    encode (c :: text) = encodeChar c ++ encode text := rfl

@[simp] theorem encode_append (text more : List Char) :
    encode (text ++ more) = encode text ++ encode more :=
  List.flatMap_append

theorem split_encode (text : List Char) : split (encode text) = (text, []) := by
  induction text with
  | nil => simp [split, front]
  | cons c text ih =>
      have hfront := front_encodeChar c (encode text)
      rw [encode_cons, split]
      split
      · next c' rest h =>
          rw [hfront] at h
          obtain ⟨rfl, rfl⟩ := Front.char.inj h
          simp [ih]
      · next h => exact absurd hfront (h c (encode text))

/-- A text is read back. -/
theorem decode?_encode (text : List Char) : decode? (encode text) = some text := by
  rw [decode?, split_encode]

theorem toString?_ofString (s : String) : toString? (ofString s) = some s := by
  rw [toString?, ofString, decode?_encode, Option.map_some, String.ofList_toList]

theorem encode_inj {text text' : List Char} (h : encode text = encode text') : text = text' :=
  Option.some.inj (by rw [← decode?_encode text, h, decode?_encode])

/-- The characters that are split off are spelled by the octets in front of the rest. -/
theorem eq_of_split (octets : Octets) :
    octets = encode (split octets).1 ++ (split octets).2 := by
  induction octets using split.induct with
  | case1 octets x rest hfront hlt text left hleft ih =>
      rw [split]
      split
      · next x' rest' h =>
          obtain ⟨rfl, rfl⟩ := Front.char.inj (hfront.symm.trans h)
          rw [encode_cons, List.append_assoc, ← ih]
          exact eq_of_front_char hfront
      · next h => exact absurd hfront (h x rest)
  | case2 octets hfront =>
      rw [split]
      split
      · next x rest h => exact absurd h (hfront x rest)
      · rfl

/-- Octets are read as a text exactly when they spell it. -/
theorem decode?_eq_some_iff {octets : Octets} {text : List Char} :
    decode? octets = some text ↔ encode text = octets := by
  constructor
  · intro h
    have hsplit := eq_of_split octets
    rw [decode?] at h
    split at h
    · next text' heq =>
        rw [heq, List.append_nil] at hsplit
        rw [← Option.some.inj h, ← hsplit]
    · cases h
  · rintro rfl
    exact decode?_encode text

/-! ## Where a text is cut -/

/-- The characters that are kept come first, and the next one does not fit behind them. -/
theorem exists_takeFitting (limit : Nat) (text : List Char) :
    ∃ rest, text = takeFitting limit text ++ rest ∧
      ∀ c ∈ rest.head?,
        limit < (encode (takeFitting limit text)).length + (encodeChar c).length := by
  induction text generalizing limit with
  | nil => exact ⟨[], rfl, nofun⟩
  | cons c text ih =>
      simp only [takeFitting]
      split
      · next hfits =>
          obtain ⟨rest, hrest, hnext⟩ := ih (limit - (encodeChar c).length)
          refine ⟨rest, congrArg (c :: ·) hrest, ?_⟩
          intro d hd
          have hlimit := hnext d hd
          simp only [encode_cons, List.length_append]
          omega
      · next hfits =>
          refine ⟨c :: text, rfl, ?_⟩
          intro d hd
          obtain rfl := Option.some.inj hd
          simpa using hfits

theorem takeFitting_isPrefix (limit : Nat) (text : List Char) :
    takeFitting limit text <+: text := by
  obtain ⟨rest, hrest, -⟩ := exists_takeFitting limit text
  exact ⟨rest, hrest.symm⟩

/-- No more characters from the front would fit. -/
theorem prefix_takeFitting {limit : Nat} {kept text : List Char} (h : kept <+: text)
    (hfits : (encode kept).length ≤ limit) : kept <+: takeFitting limit text := by
  induction text generalizing limit kept with
  | nil => simpa [takeFitting] using h
  | cons c text ih =>
      cases kept with
      | nil => exact List.nil_prefix
      | cons d kept =>
          obtain ⟨rfl, hrest⟩ := List.cons_prefix_cons.mp h
          rw [encode_cons, List.length_append] at hfits
          have hfirst : (encodeChar d).length ≤ limit := by omega
          simp only [takeFitting, hfirst, if_true]
          exact List.cons_prefix_cons.mpr ⟨rfl, ih hrest (by omega)⟩

theorem takeFitting_of_le {limit : Nat} {text : List Char} (h : (encode text).length ≤ limit) :
    takeFitting limit text = text :=
  (takeFitting_isPrefix limit text).eq_of_length_le (prefix_takeFitting List.prefix_rfl h).length_le

end Uplink.Utf8
