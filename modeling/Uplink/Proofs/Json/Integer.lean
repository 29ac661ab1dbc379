import Uplink.Json.Printer
import Uplink.Proofs.Utf8

/-! # Integers are read back

What the printer writes for an integer is one number literal, as far as something follows that
cannot belong to a number, and the value of this literal is the integer again. -/

namespace Uplink.Json

/-- Whether a number ends before these octets: nothing follows, or an octet that is no part of a
number. -/
def Stops (rest : Octets) : Prop :=
  ∀ b ∈ rest.head?, digit? b = none ∧ b ≠ 0x2E ∧ b ≠ 0x65 ∧ b ≠ 0x45

/-- Whether nothing follows, or a structural character. -/
def Ends (rest : Octets) : Prop :=
  ∀ b ∈ rest.head?, (structural? b).isSome = true

theorem ends_cons {b : UInt8} (hb : (structural? b).isSome = true) (rest : Octets) :
    Ends (b :: rest) := by
  intro b' hb'
  obtain rfl : b = b' := by simpa using hb'
  exact hb

/-! ## Digits -/

theorem structural_cases {b : UInt8} (hb : (structural? b).isSome = true) :
    b = 0x5B ∨ b = 0x5D ∨ b = 0x7B ∨ b = 0x7D ∨ b = 0x2C ∨ b = 0x3A := by
  apply Decidable.byContradiction
  intro hnone
  simp only [not_or] at hnone
  simp [structural?, hnone] at hb

theorem digit?_of_structural {b : UInt8} (hb : (structural? b).isSome = true) :
    digit? b = none ∧ b ≠ 0x2E ∧ b ≠ 0x65 ∧ b ≠ 0x45 := by
  rcases structural_cases hb with rfl | rfl | rfl | rfl | rfl | rfl <;> decide

theorem Ends.stops {rest : Octets} (h : Ends rest) : Stops rest :=
  fun b hb => digit?_of_structural (h b hb)

theorem isBlank_of_structural {b : UInt8} (hb : (structural? b).isSome = true) :
    isBlank b = false := by
  rcases structural_cases hb with rfl | rfl | rfl | rfl | rfl | rfl <;> decide

/-- The octet of a decimal digit. -/
def digitOctet (d : Nat) : UInt8 :=
  (0x30 + d).toUInt8

theorem digit?_digitOctet : ∀ d < 10, digit? (digitOctet d) = some d := by
  decide

theorem encodeChar_digitChar_ten : ∀ d < 10, Utf8.encodeChar (digitChar d) = [digitOctet d] := by
  decide

theorem encode_digitChars {digits : List Nat} (h : ∀ d ∈ digits, d < 10) :
    Utf8.encode (digits.map digitChar) = digits.map digitOctet := by
  induction digits with
  | nil => rfl
  | cons d digits ih =>
      rw [List.map_cons, Utf8.encode_cons, encodeChar_digitChar_ten d (h d List.mem_cons_self),
        ih fun e he => h e (List.mem_cons_of_mem _ he)]
      rfl

theorem spanDigits_digitOctets {digits : List Nat} (h : ∀ d ∈ digits, d < 10) {rest : Octets}
    (hrest : ∀ b ∈ rest.head?, digit? b = none) :
    spanDigits (digits.map digitOctet ++ rest) = (digits, rest) := by
  induction digits with
  | nil =>
      cases rest with
      | nil => rfl
      | cons b rest =>
          have hb := hrest b (by simp)
          simp [spanDigits, hb]
  | cons d digits ih =>
      have hd := digit?_digitOctet d (h d List.mem_cons_self)
      simp [spanDigits, hd, ih fun e he => h e (List.mem_cons_of_mem _ he)]

theorem lt_ten_of_mem_decimalDigits {n d : Nat} (h : d ∈ decimalDigits n) : d < 10 := by
  induction n using Nat.strongRecOn with
  | ind n ih =>
      rw [decimalDigits] at h
      split at h
      · rw [List.mem_singleton.mp h]
        assumption
      · rcases List.mem_append.mp h with h | h
        · exact ih (n / 10) (by omega) h
        · rw [List.mem_singleton.mp h]
          omega

/-- The first digit is no zero, but for the number zero itself. -/
theorem decimalDigits_cases (n : Nat) :
    n = 0 ∧ decimalDigits n = [0] ∨ ∃ d digits, d ≠ 0 ∧ decimalDigits n = d :: digits := by
  induction n using Nat.strongRecOn with
  | ind n ih =>
      rw [decimalDigits]
      by_cases hsmall : n < 10
      · by_cases hzero : n = 0
        · exact .inl ⟨hzero, by simp [hzero]⟩
        · exact .inr ⟨n, [], hzero, by simp [hsmall]⟩
      · right
        rcases ih (n / 10) (by omega) with ⟨hzero, -⟩ | ⟨d, digits, hd, heq⟩
        · omega
        · exact ⟨d, digits ++ [n % 10], hd, by simp [hsmall, heq]⟩

/-! ## The literal -/

/-- The literal of an integer. -/
def integerLiteral (n : Int) : NumberLiteral :=
  ⟨n < 0, decimalDigits n.natAbs, [], none⟩

theorem scanWhole_renderNat (n : Nat) {rest : Octets} (hrest : Ends rest) :
    scanWhole (Utf8.encode (renderNat n) ++ rest) = some (decimalDigits n, rest) := by
  rw [renderNat, encode_digitChars fun d hd => lt_ten_of_mem_decimalDigits hd]
  rcases decimalDigits_cases n with ⟨-, heq⟩ | ⟨d, digits, hd, heq⟩
  · rw [heq]
    rfl
  · have hlt (e : Nat) (he : e ∈ d :: digits) : e < 10 := lt_ten_of_mem_decimalDigits (heq ▸ he)
    have hfirst := digit?_digitOctet d (hlt d List.mem_cons_self)
    have hspan := spanDigits_digitOctets (fun e he => hlt e (List.mem_cons_of_mem _ he))
      fun b hb => (hrest.stops b hb).1
    obtain ⟨d, rfl⟩ := Nat.exists_eq_succ_of_ne_zero hd
    rw [heq]
    simp [scanWhole, hfirst, hspan]

theorem scanFraction_of_stops {rest : Octets} (hrest : Stops rest) :
    scanFraction rest = some ([], rest) := by
  unfold scanFraction
  split
  · next more => exact absurd rfl (hrest 0x2E (by simp)).2.1
  · rfl

theorem scanExponent_of_stops {rest : Octets} (hrest : Stops rest) :
    scanExponent rest = some (none, rest) := by
  cases rest with
  | nil => rfl
  | cons b rest =>
      obtain ⟨-, -, he, hE⟩ := hrest b (by simp)
      simp [scanExponent, he, hE]

theorem scanMagnitude_renderNat (negative : Bool) (n : Nat) {rest : Octets}
    (hrest : Ends rest) :
    scanMagnitude negative (Utf8.encode (renderNat n) ++ rest) =
      some (⟨negative, decimalDigits n, [], none⟩, rest) := by
  simp [scanMagnitude, scanWhole_renderNat n hrest, scanFraction_of_stops hrest.stops,
    scanExponent_of_stops hrest.stops]

/-! ## Its value -/

theorem appendDigits_concat {s m : Nat} {digits : List Nat} (d : Nat)
    (h : appendDigits s digits = (m, [])) (hfits : m * 10 + d ≤ maxSignificand) :
    appendDigits s (digits ++ [d]) = (m * 10 + d, []) := by
  induction digits generalizing s with
  | nil =>
      obtain rfl : s = m := by simpa [appendDigits] using h
      simp [appendDigits, hfits]
  | cons e digits ih =>
      rw [appendDigits] at h
      split at h
      · next he => simpa [appendDigits, he] using ih h
      · simp at h

theorem appendDigits_decimalDigits (n : Nat) (h : n ≤ maxSignificand) :
    appendDigits 0 (decimalDigits n) = (n, []) := by
  induction n using Nat.strongRecOn with
  | ind n ih =>
      rw [decimalDigits]
      split
      · simp [appendDigits, h]
      · have hfront := ih (n / 10) (by omega) (by omega)
        have hfits : n / 10 * 10 + n % 10 ≤ maxSignificand := by omega
        rw [appendDigits_concat _ hfront hfits, Nat.div_add_mod']

/-- The literal of an integer has it as its value. -/
theorem value?_integerLiteral {n : Int}
    (h : -0x8000000000000000 ≤ n ∧ n < 0x10000000000000000) :
    (integerLiteral n).value? = some (.integer n h) := by
  have hfits : n.natAbs ≤ maxSignificand := by
    rw [maxSignificand]
    omega
  simp only [NumberLiteral.value?, integerLiteral, appendDigits_decimalDigits _ hfits,
    List.isEmpty_nil, Option.isNone_none, Bool.and_self, if_true]
  by_cases hneg : n < 0
  · have hrange : 0 < n.natAbs ∧ n.natAbs ≤ 0x8000000000000000 := by omega
    have hback : -(n.natAbs : Int) = n := by omega
    simp only [hneg, decide_true, ofMagnitude?, if_true, hrange, and_self, dite_true, hback]
  · have hrange : n.natAbs < 0x10000000000000000 := by omega
    have hback : (n.natAbs : Int) = n := by omega
    simp only [hneg, decide_false, ofMagnitude?, Bool.false_eq_true, if_false, hrange, dite_true,
      hback]

/-! ## Unsigned literals -/

/-- Whether a literal is the unsigned integer `n`: digits alone, which make `n`. -/
structure NumberLiteral.IsUnsigned (l : NumberLiteral) (n : Nat) : Prop where
  negative : l.negative = false
  fraction : l.fraction = []
  exponent : l.exponent = none
  whole : digitsValue l.whole = n

theorem le_foldl_digits (s : Nat) (digits : List Nat) :
    s ≤ digits.foldl (fun n d => n * 10 + d) s := by
  induction digits generalizing s with
  | nil => exact Nat.le_refl s
  | cons d digits ih => exact Nat.le_trans (by omega) (ih (s * 10 + d))

/-- All digits are appended just if what they make fits. -/
theorem appendDigits_eq_nil_iff {s m : Nat} {digits : List Nat} (hs : s ≤ maxSignificand) :
    appendDigits s digits = (m, []) ↔
      digits.foldl (fun n d => n * 10 + d) s = m ∧ m ≤ maxSignificand := by
  induction digits generalizing s with
  | nil =>
      simp only [appendDigits, List.foldl_nil, Prod.mk.injEq, and_true]
      constructor
      · rintro rfl
        exact ⟨rfl, hs⟩
      · exact And.left
  | cons d digits ih =>
      rw [appendDigits, List.foldl_cons]
      split
      · next hfits => exact ih hfits
      · next hlarge =>
          have hle := le_foldl_digits (s * 10 + d) digits
          simp only [Prod.mk.injEq, reduceCtorEq, and_false, false_iff]
          rintro ⟨rfl, hfits⟩
          exact hlarge (Nat.le_trans hle hfits)

/-- The literals that stand for integers which are not negative are the unsigned ones. -/
theorem NumberLiteral.value?_iff_isUnsigned {l : NumberLiteral} {n : Nat}
    (inRange : -0x8000000000000000 ≤ (n : Int) ∧ (n : Int) < 0x10000000000000000) :
    l.value? = some (.integer n inRange) ↔ l.IsUnsigned n := by
  have hzero : 0 ≤ maxSignificand := Nat.zero_le _
  constructor
  · intro h
    rw [NumberLiteral.value?] at h
    rcases hwhole : appendDigits 0 l.whole with ⟨m, spilled⟩
    rw [hwhole] at h
    dsimp only at h
    split at h
    · next hplain =>
        simp only [Bool.and_eq_true, List.isEmpty_iff, Option.isNone_iff_eq_none] at hplain
        obtain ⟨⟨hfraction, hexponent⟩, rfl⟩ := hplain
        obtain ⟨hvalue, -⟩ := (appendDigits_eq_nil_iff hzero).mp hwhole
        rw [ofMagnitude?] at h
        split at h
        · -- Under a minus sign only what is below zero is an integer.
          split at h
          · next hsmall =>
              have heq := Number.integer.inj (Option.some.inj h)
              omega
          · obtain ⟨x, -, hx⟩ := Option.map_eq_some_iff.mp h
            cases hx
        · next hsign =>
            split at h
            · have heq := Number.integer.inj (Option.some.inj h)
              exact ⟨by simpa using hsign, hfraction, hexponent, by rw [digitsValue]; omega⟩
            · obtain ⟨x, -, hx⟩ := Option.map_eq_some_iff.mp h
              cases hx
    · obtain ⟨x, -, hx⟩ := Option.map_eq_some_iff.mp h
      cases hx
  · rintro ⟨hsign, hfraction, hexponent, hvalue⟩
    have hfits : n ≤ maxSignificand := by
      rw [maxSignificand]
      omega
    have hwhole := (appendDigits_eq_nil_iff hzero).mpr ⟨hvalue, hfits⟩
    have hsmall : n < 0x10000000000000000 := by omega
    simp [NumberLiteral.value?, hwhole, hfraction, hexponent, hsign, ofMagnitude?, hsmall]

end Uplink.Json
