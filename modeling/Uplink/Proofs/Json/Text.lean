import Uplink.Json.Printer
import Uplink.Proofs.Utf8

/-! # Strings are read back

What the printer writes between quotes is one string literal, and this literal stands for the
string again. -/

namespace Uplink.Json

/-- The characters that have a short escape and need it. -/
def shortEscapes : List Char :=
  ['"', '\\', '\x08', '\x0C', '\n', '\r', '\t']

/-- The pieces of a literal as which a character is written. -/
def charPieces (c : Char) : List Piece :=
  if c ∈ shortEscapes then [.char c]
  else if c.toNat < 0x20 then [.unit c.toNat]
  else (Utf8.encodeChar c).map .octet

/-- The pieces of the literal of a string. -/
def textPieces (text : List Char) : List Piece :=
  text.flatMap charPieces

/-! ## One character -/

/-- The ways of writing a character inside quotes. -/
inductive Spelling (c : Char) : Octets → List Piece → Prop
  | short {b} (hb : shortEscape? b = some c) (hne : b ≠ 0x75) : Spelling c [0x5C, b] [.char c]
  | control {d e} (hc : c.toNat < 0x20) (hdigits : codeUnit? 0x30 0x30 d e = some c.toNat) :
      Spelling c [0x5C, 0x75, 0x30, 0x30, d, e] [.unit c.toNat]
  | plain (hquote : c ≠ '"') (hbackslash : c ≠ '\\') (hc : 0x20 ≤ c.toNat) :
      Spelling c (Utf8.encodeChar c) ((Utf8.encodeChar c).map .octet)

theorem codeUnit?_digitChars : ∀ n < 0x20,
    codeUnit? 0x30 0x30 (digitChar (n / 0x10)).toNat.toUInt8 (digitChar (n % 0x10)).toNat.toUInt8 =
      some n := by
  decide

theorem encodeChar_digitChar : ∀ d < 0x10,
    Utf8.encodeChar (digitChar d) = [(digitChar d).toNat.toUInt8] := by
  decide

theorem spelling_renderChar (c : Char) :
    Spelling c (Utf8.encode (renderChar c)) (charPieces c) := by
  by_cases hshort : c ∈ shortEscapes
  · have hpieces : charPieces c = [.char c] := if_pos hshort
    rw [hpieces]
    simp only [shortEscapes, List.mem_cons, List.not_mem_nil, or_false] at hshort
    rcases hshort with rfl | rfl | rfl | rfl | rfl | rfl | rfl <;>
      exact .short (by decide) (by decide)
  · simp only [charPieces, hshort, if_false]
    simp only [shortEscapes, List.mem_cons, List.not_mem_nil, or_false, not_or] at hshort
    obtain ⟨hquote, hbackslash, hb, hf, hn, hr, ht⟩ := hshort
    simp only [renderChar, hquote, hbackslash, hb, hf, hn, hr, ht, if_false]
    by_cases hc : c.toNat < 0x20
    · simp only [hc, if_true]
      have hhigh := encodeChar_digitChar (c.toNat / 0x10) (by omega)
      have hlow := encodeChar_digitChar (c.toNat % 0x10) (by omega)
      have hwritten : Utf8.encode
          ['\\', 'u', '0', '0', digitChar (c.toNat / 0x10), digitChar (c.toNat % 0x10)] =
          [0x5C, 0x75, 0x30, 0x30, (digitChar (c.toNat / 0x10)).toNat.toUInt8,
            (digitChar (c.toNat % 0x10)).toNat.toUInt8] := by
        simp only [Utf8.encode_cons, Utf8.encode_nil, hhigh, hlow]
        rfl
      rw [hwritten]
      exact .control hc (codeUnit?_digitChars c.toNat hc)
    · simp only [hc, if_false]
      simpa using Spelling.plain hquote hbackslash (Nat.le_of_not_lt hc)

/-! ## Reading the literal -/

/-- An octet that stands for itself inside quotes. -/
def IsPlain (b : UInt8) : Prop :=
  b ≠ 0x22 ∧ b ≠ 0x5C ∧ ¬b < 0x20

theorem isPlain_of_mem_encodeChar {c : Char} (hquote : c ≠ '"') (hbackslash : c ≠ '\\')
    (hc : 0x20 ≤ c.toNat) {b : UInt8} (hb : b ∈ Utf8.encodeChar c) : IsPlain b := by
  have hquote : c.toNat ≠ 0x22 := fun h => hquote (Char.toNat_inj.mp h)
  have hbackslash : c.toNat ≠ 0x5C := fun h => hbackslash (Char.toNat_inj.mp h)
  have hoctet := Utf8.toNat_of_mem_encodeChar hb
  simp only [IsPlain, ne_eq, ← UInt8.toNat_inj, UInt8.lt_iff_toNat_lt, UInt8.reduceToNat]
  omega

theorem scanString_quote (rest : Octets) : scanString (0x22 :: rest) = some ([], rest) := by
  rw [scanString.eq_def]
  rfl

theorem scanString_octet {b : UInt8} (hb : IsPlain b) (rest : Octets) :
    scanString (b :: rest) = (scanString rest).map fun s => (.octet b :: s.1, s.2) := by
  obtain ⟨hquote, hbackslash, hspace⟩ := hb
  rw [scanString.eq_def]
  cases h : scanString rest <;> simp [hquote, hbackslash, hspace, h]

theorem scanString_short {b : UInt8} {c : Char} (hb : shortEscape? b = some c) (hne : b ≠ 0x75)
    (rest : Octets) :
    scanString (0x5C :: b :: rest) = (scanString rest).map fun s => (.char c :: s.1, s.2) := by
  rw [scanString.eq_def]
  cases h : scanString rest <;> simp [hne, hb, h]

theorem scanString_unit {a b d e : UInt8} {n : Nat} (hdigits : codeUnit? a b d e = some n)
    (rest : Octets) :
    scanString (0x5C :: 0x75 :: a :: b :: d :: e :: rest) =
      (scanString rest).map fun s => (.unit n :: s.1, s.2) := by
  rw [scanString.eq_def]
  cases h : scanString rest <;> simp [hdigits, h]

theorem scanString_plain {octets : Octets} (hplain : ∀ b ∈ octets, IsPlain b) (rest : Octets) :
    scanString (octets ++ rest) =
      (scanString rest).map fun s => (octets.map .octet ++ s.1, s.2) := by
  induction octets with
  | nil => simp
  | cons b octets ih =>
      rw [List.cons_append, scanString_octet (hplain b List.mem_cons_self),
        ih fun b hb => hplain b (List.mem_cons_of_mem _ hb), Option.map_map]
      rfl

/-- However a character is written, its pieces are read. -/
theorem Spelling.scan {c : Char} {octets : Octets} {pieces : List Piece}
    (h : Spelling c octets pieces) (rest : Octets) :
    scanString (octets ++ rest) = (scanString rest).map fun s => (pieces ++ s.1, s.2) := by
  cases h with
  | short hb hne => exact scanString_short hb hne rest
  | control hc hdigits => exact scanString_unit hdigits rest
  | plain hquote hbackslash hc =>
      exact scanString_plain (fun b hb => isPlain_of_mem_encodeChar hquote hbackslash hc hb) rest

/-- The literal of a string is read up to its closing quote. -/
theorem scanString_encode (text : List Char) (rest : Octets) :
    scanString (Utf8.encode (text.flatMap renderChar) ++ 0x22 :: rest) =
      some (textPieces text, rest) := by
  induction text with
  | nil => exact scanString_quote rest
  | cons c text ih =>
      rw [List.flatMap_cons, Utf8.encode_append, List.append_assoc,
        (spelling_renderChar c).scan, ih]
      rfl

/-! ## What the literal stands for -/

theorem pieceOctets?_octets (octets : Octets) (more : List Piece) :
    pieceOctets? (octets.map .octet ++ more) = (pieceOctets? more).map (octets ++ ·) := by
  induction octets with
  | nil => cases h : pieceOctets? more <;> simp [h]
  | cons b octets ih =>
      rw [List.map_cons, List.cons_append, pieceOctets?, ih]
      cases pieceOctets? more <;> rfl

/-- A unit that is no half of a pair stands for its character, whatever comes next. -/
theorem pieceOctets?_unit {n : Nat} (hn : n < 0xD800) (more : List Piece) :
    pieceOctets? (.unit n :: more) =
      (pieceOctets? more).map (Utf8.encodeChar (Char.ofNat n) ++ ·) := by
  have hlow : ¬(0xDC00 ≤ n && n ≤ 0xDFFF) = true := by simp; omega
  have hhigh : ¬(0xD800 ≤ n && n ≤ 0xDBFF) = true := by simp; omega
  rw [pieceOctets?.eq_def]
  dsimp only
  rw [if_neg hlow, if_neg hhigh]

theorem Spelling.pieceOctets? {c : Char} {octets : Octets} {pieces : List Piece}
    (h : Spelling c octets pieces) (more : List Piece) :
    Json.pieceOctets? (pieces ++ more) =
      (Json.pieceOctets? more).map (Utf8.encodeChar c ++ ·) := by
  cases h with
  | short => rfl
  | control hc =>
      have hunit := pieceOctets?_unit (Nat.lt_trans hc (by decide)) more
      rw [Char.ofNat_toNat] at hunit
      exact hunit
  | plain => exact pieceOctets?_octets _ more

theorem pieceOctets?_textPieces (text : List Char) :
    pieceOctets? (textPieces text) = some (Utf8.encode text) := by
  induction text with
  | nil => rfl
  | cons c text ih =>
      have hc := (spelling_renderChar c).pieceOctets? (textPieces text)
      rw [ih] at hc
      exact hc

/-- The literal of a string stands for it. -/
theorem pieceString?_textPieces (s : String) : pieceString? (textPieces s.toList) = some s := by
  rw [pieceString?, pieceOctets?_textPieces]
  exact Utf8.toString?_ofString s

end Uplink.Json
