import Mathlib.Data.List.Chain
import Uplink.Proofs.Json.Cut

/-! # The grammar of tokens

Which octets spell a token, and which texts spell a list of tokens, with blanks anywhere between
them. The lexer reads just these texts, as long as no number stands directly before another atom:
nothing but its end tells where a number ends. -/

namespace Uplink.Json

/-! ## Spellings -/

/-- How a part of a string literal is spelled. -/
inductive Piece.Spells : Piece → Octets → Prop
  | octet {b} (hb : IsPlain b) : Spells (.octet b) [b]
  | char {b c} (hb : shortEscape? b = some c) : Spells (.char c) [0x5C, b]
  | unit {a b d e n} (hdigits : codeUnit? a b d e = some n) :
      Spells (.unit n) [0x5C, 0x75, a, b, d, e]

/-- How the inside of a string literal is spelled. -/
inductive PiecesSpell : List Piece → Octets → Prop
  | nil : PiecesSpell [] []
  | cons {piece pieces octets more} (h : piece.Spells octets) (hmore : PiecesSpell pieces more) :
      PiecesSpell (piece :: pieces) (octets ++ more)

/-- How the digits before the point are spelled: a zero stands alone. -/
inductive WholeSpells : List Nat → Octets → Prop
  | zero : WholeSpells [0] [0x30]
  | digits {d digits} (hd : d ≠ 0) (h : ∀ e ∈ d :: digits, e < 10) :
      WholeSpells (d :: digits) ((d :: digits).map digitOctet)

/-- How the digits behind the point are spelled, with the point, or nothing. -/
inductive FractionSpells : List Nat → Octets → Prop
  | absent : FractionSpells [] []
  | point {digits} (hne : digits ≠ []) (h : ∀ d ∈ digits, d < 10) :
      FractionSpells digits (0x2E :: digits.map digitOctet)

/-- How the sign of an exponent is spelled. -/
inductive SignSpells : Bool → Octets → Prop
  | absent : SignSpells false []
  | plus : SignSpells false [0x2B]
  | minus : SignSpells true [0x2D]

/-- How an exponent is spelled, with its letter in either case, or nothing. -/
inductive ExponentSpells : Option (Bool × List Nat) → Octets → Prop
  | absent : ExponentSpells none []
  | letter {b negative sign digits} (hb : b = 0x65 ∨ b = 0x45) (hsign : SignSpells negative sign)
      (hne : digits ≠ []) (h : ∀ d ∈ digits, d < 10) :
      ExponentSpells (some (negative, digits)) (b :: (sign ++ digits.map digitOctet))

/-- How a number is spelled but for its minus sign. -/
inductive MagnitudeSpells : NumberLiteral → Octets → Prop
  | mk {negative whole fraction exponent octets₁ octets₂ octets₃}
      (hwhole : WholeSpells whole octets₁) (hfraction : FractionSpells fraction octets₂)
      (hexponent : ExponentSpells exponent octets₃) :
      MagnitudeSpells ⟨negative, whole, fraction, exponent⟩ (octets₁ ++ (octets₂ ++ octets₃))

/-- How a token is spelled. -/
inductive Token.Spells : Token → Octets → Prop
  | beginArray : Spells .beginArray [0x5B]
  | endArray : Spells .endArray [0x5D]
  | beginObject : Spells .beginObject [0x7B]
  | endObject : Spells .endObject [0x7D]
  | comma : Spells .comma [0x2C]
  | colon : Spells .colon [0x3A]
  | null : Spells .null [0x6E, 0x75, 0x6C, 0x6C]
  | true : Spells (.bool true) [0x74, 0x72, 0x75, 0x65]
  | false : Spells (.bool false) [0x66, 0x61, 0x6C, 0x73, 0x65]
  | positive {literal octets} (hsign : literal.negative = Bool.false)
      (h : MagnitudeSpells literal octets) : Spells (.number literal) octets
  | negative {literal octets} (hsign : literal.negative = Bool.true)
      (h : MagnitudeSpells literal octets) : Spells (.number literal) (0x2D :: octets)
  | string {pieces octets} (h : PiecesSpell pieces octets) :
      Spells (.string pieces) (0x22 :: (octets ++ [0x22]))

/-- The texts of some tokens: their spellings in order, with blanks before and behind each. -/
inductive Text : List Token → Octets → Prop
  | nil {blanks} (hblanks : ∀ b ∈ blanks, isBlank b = true) : Text [] blanks
  | cons {blanks octets rest token tokens} (hblanks : ∀ b ∈ blanks, isBlank b = true)
      (h : token.Spells octets) (hrest : Text tokens rest) :
      Text (token :: tokens) (blanks ++ (octets ++ rest))

/-! ## What the scanners take is a spelling -/

section Sound

variable {octets rest : Octets}

theorem digitOctet_of_digit? {b : UInt8} {d : Nat} (h : digit? b = some d) :
    d < 10 ∧ digitOctet d = b := by
  unfold digit? at h
  split at h
  · next hrange =>
      obtain rfl := Option.some.inj h
      simp only [Bool.and_eq_true, decide_eq_true_eq, UInt8.le_iff_toNat_le,
        UInt8.reduceToNat] at hrange
      refine ⟨by omega, UInt8.toNat_inj.mp ?_⟩
      simp only [digitOctet, Nat.toUInt8_eq, UInt8.toNat_ofNat']
      omega
  · cases h

theorem eq_of_spanDigits {digits : List Nat} (h : spanDigits octets = (digits, rest)) :
    octets = digits.map digitOctet ++ rest ∧ ∀ d ∈ digits, d < 10 := by
  induction octets generalizing digits with
  | nil =>
      obtain ⟨rfl, rfl⟩ := Prod.mk.inj h
      exact ⟨rfl, nofun⟩
  | cons b octets ih =>
      rw [spanDigits] at h
      split at h
      · next d hd =>
          obtain ⟨rfl, hrest⟩ := Prod.mk.inj h
          obtain ⟨heq, hdigits⟩ := ih (Prod.ext rfl hrest)
          obtain ⟨hlt, rfl⟩ := digitOctet_of_digit? hd
          exact ⟨congrArg (digitOctet d :: ·) heq, List.forall_mem_cons.mpr ⟨hlt, hdigits⟩⟩
      · obtain ⟨rfl, rfl⟩ := Prod.mk.inj h
        exact ⟨rfl, nofun⟩

theorem spells_of_scanString {pieces : List Piece} (h : scanString octets = some (pieces, rest)) :
    ∃ front, octets = front ++ 0x22 :: rest ∧ PiecesSpell pieces front := by
  fun_induction scanString octets generalizing pieces with
  | case2 rest₀ =>
      obtain ⟨rfl, rfl⟩ := Prod.mk.inj (Option.some.inj h)
      exact ⟨[], rfl, .nil⟩
  | case4 a b d e octets n more rest₀ hmore hunit _ ih =>
      obtain ⟨rfl, rfl⟩ := Prod.mk.inj (Option.some.inj h)
      obtain ⟨front, rfl, hfront⟩ := ih hmore
      exact ⟨_, rfl, .cons (.unit hunit) hfront⟩
  | case7 e octets hne c more rest₀ hmore hshort _ ih =>
      obtain ⟨rfl, rfl⟩ := Prod.mk.inj (Option.some.inj h)
      obtain ⟨front, rfl, hfront⟩ := ih hmore
      exact ⟨_, rfl, .cons (.char hshort) hfront⟩
  | case10 b octets hquote hbackslash hspace more rest₀ hmore ih =>
      obtain ⟨rfl, rfl⟩ := Prod.mk.inj (Option.some.inj h)
      obtain ⟨front, rfl, hfront⟩ := ih hmore
      exact ⟨_, rfl, .cons (.octet ⟨hquote, hbackslash, hspace⟩) hfront⟩
  | _ => cases h

theorem spells_of_scanWhole {digits : List Nat} (h : scanWhole octets = some (digits, rest)) :
    ∃ front, octets = front ++ rest ∧ WholeSpells digits front := by
  cases octets with
  | nil => cases h
  | cons b octets =>
      rw [scanWhole] at h
      split at h
      · cases h
      · next hzero =>
          obtain ⟨rfl, rfl⟩ := Prod.mk.inj (Option.some.inj h)
          obtain ⟨-, rfl⟩ := digitOctet_of_digit? hzero
          exact ⟨_, rfl, .zero⟩
      · next d hne hd =>
          obtain ⟨rfl, rfl⟩ := Prod.mk.inj (Option.some.inj h)
          have hspan : spanDigits octets = ((spanDigits octets).1, (spanDigits octets).2) := rfl
          obtain ⟨heq, hdigits⟩ := eq_of_spanDigits hspan
          obtain ⟨hlt, rfl⟩ := digitOctet_of_digit? hd
          exact ⟨_, congrArg (digitOctet d :: ·) heq,
            .digits hne (List.forall_mem_cons.mpr ⟨hlt, hdigits⟩)⟩

theorem spells_of_scanFraction {digits : List Nat}
    (h : scanFraction octets = some (digits, rest)) :
    ∃ front, octets = front ++ rest ∧ FractionSpells digits front := by
  rcases scanFraction_eq_some_iff.mp h with ⟨more, rfl, hspan, hne⟩ | ⟨-, rfl, rfl⟩
  · obtain ⟨rfl, hdigits⟩ := eq_of_spanDigits hspan
    exact ⟨_, rfl, .point hne hdigits⟩
  · exact ⟨[], rfl, .absent⟩

theorem spells_scanSign (octets : Octets) :
    ∃ sign, octets = sign ++ (scanSign octets).2 ∧ SignSpells (scanSign octets).1 sign := by
  unfold scanSign
  split
  · exact ⟨[0x2B], rfl, .plus⟩
  · exact ⟨[0x2D], rfl, .minus⟩
  · exact ⟨[], rfl, .absent⟩

theorem spells_of_scanExponent {exponent : Option (Bool × List Nat)}
    (h : scanExponent octets = some (exponent, rest)) :
    ∃ front, octets = front ++ rest ∧ ExponentSpells exponent front := by
  rcases scanExponent_eq_some_iff.mp h with
    ⟨b, more, digits, rfl, hb, hspan, hne, rfl⟩ | ⟨-, rfl, rfl⟩
  · obtain ⟨sign, hmore, hsign⟩ := spells_scanSign more
    obtain ⟨hrest, hdigits⟩ := eq_of_spanDigits hspan
    refine ⟨_, ?_, .letter hb hsign hne hdigits⟩
    rw [List.cons_append, List.append_assoc, ← hrest, ← hmore]
  · exact ⟨[], rfl, .absent⟩

theorem spells_of_scanMagnitude {negative : Bool} {literal : NumberLiteral}
    (h : scanMagnitude negative octets = some (literal, rest)) :
    ∃ front, octets = front ++ rest ∧ literal.negative = negative ∧
      MagnitudeSpells literal front := by
  simp only [scanMagnitude, Option.bind_eq_bind, Option.bind_eq_some_iff, Prod.exists] at h
  obtain ⟨whole, _, hwhole, fraction, _, hfraction, exponent, _, hexponent, h⟩ := h
  obtain ⟨rfl, rfl⟩ := Prod.mk.inj (Option.some.inj h)
  obtain ⟨front₁, rfl, hspells₁⟩ := spells_of_scanWhole hwhole
  obtain ⟨front₂, rfl, hspells₂⟩ := spells_of_scanFraction hfraction
  obtain ⟨front₃, rfl, hspells₃⟩ := spells_of_scanExponent hexponent
  exact ⟨_, by simp, rfl, .mk hspells₁ hspells₂ hspells₃⟩

theorem spells_of_structural? {b : UInt8} {token : Token} (h : structural? b = some token) :
    token.Spells [b] := by
  rcases structural_cases (Option.isSome_of_eq_some h) with rfl | rfl | rfl | rfl | rfl | rfl <;>
    obtain rfl := Option.some.inj h
  · exact .beginArray
  · exact .endArray
  · exact .beginObject
  · exact .endObject
  · exact .comma
  · exact .colon

theorem spells_of_word? {b : UInt8} {word : Octets} {token : Token}
    (h : word? b = some (word, token)) : token.Spells (b :: word) := by
  unfold word? at h
  split_ifs at h with hn ht hf <;> obtain ⟨rfl, rfl⟩ := Prod.mk.inj (Option.some.inj h)
  · exact hn ▸ .null
  · exact ht ▸ .true
  · exact hf ▸ .false

theorem spells_of_scanToken {b : UInt8} {token : Token}
    (h : scanToken b octets = some (token, rest)) :
    ∃ front, octets = front ++ rest ∧ token.Spells (b :: front) := by
  rw [scanToken] at h
  split at h
  · next hstructural =>
      obtain ⟨rfl, rfl⟩ := Prod.mk.inj (Option.some.inj h)
      exact ⟨[], rfl, spells_of_structural? hstructural⟩
  · split at h
    · next word token' hword =>
        obtain ⟨rest₀, hdrop, h⟩ := Option.map_eq_some_iff.mp h
        obtain ⟨rfl, rfl⟩ := Prod.mk.inj h
        exact ⟨word, dropWord?_eq_some_iff.mp hdrop, spells_of_word? hword⟩
    · split_ifs at h with hquote hminus
      all_goals
        obtain ⟨⟨atom, rest₀⟩, hscan, h⟩ := Option.map_eq_some_iff.mp h
        obtain ⟨rfl, rfl⟩ := Prod.mk.inj h
      · obtain ⟨front, rfl, hspells⟩ := spells_of_scanString hscan
        exact ⟨front ++ [0x22], by simp, hquote ▸ .string hspells⟩
      · obtain ⟨front, rfl, hsign, hspells⟩ := spells_of_scanMagnitude hscan
        exact ⟨front, rfl, hminus ▸ .negative hsign hspells⟩
      · obtain ⟨front, hfront, hsign, hspells⟩ := spells_of_scanMagnitude hscan
        cases front with
        | nil =>
            have hlt := length_lt_of_scanMagnitude hscan
            rw [← List.nil_append rest₀, ← hfront] at hlt
            exact absurd hlt (Nat.lt_irrefl _)
        | cons b' front =>
            obtain ⟨rfl, rfl⟩ := List.cons.inj hfront
            exact ⟨front, rfl, .positive hsign hspells⟩

end Sound

/-! ## Every spelling is taken -/

section Complete

variable {octets rest : Octets}

theorem scanString_of_spells {pieces : List Piece} (h : PiecesSpell pieces octets)
    (rest : Octets) : scanString (octets ++ 0x22 :: rest) = some (pieces, rest) := by
  induction h with
  | nil => exact scanString_quote rest
  | cons hpiece _ ih =>
      rw [List.append_assoc]
      cases hpiece with
      | octet hb => simp only [List.singleton_append, scanString_octet hb, ih, Option.map_some]
      | char hb =>
          have hne : ∀ {b : UInt8} {c}, shortEscape? b = some c → b ≠ 0x75 := by
            rintro _ c hb rfl
            cases hb
          simp only [List.cons_append, List.nil_append, scanString_short hb (hne hb), ih,
            Option.map_some]
      | unit hdigits =>
          simp only [List.cons_append, List.nil_append, scanString_unit hdigits, ih,
            Option.map_some]

theorem scanWhole_of_spells {digits : List Nat} (h : WholeSpells digits octets)
    (hrest : ∀ b ∈ rest.head?, digit? b = none) :
    scanWhole (octets ++ rest) = some (digits, rest) := by
  cases h with
  | zero => rfl
  | digits hd h =>
      obtain ⟨hlt, hdigits⟩ := List.forall_mem_cons.mp h
      have hfirst := digit?_digitOctet _ hlt
      have hspan := spanDigits_digitOctets hdigits hrest
      obtain ⟨d, rfl⟩ := Nat.exists_eq_succ_of_ne_zero hd
      simp [scanWhole, hfirst, hspan]

theorem scanFraction_of_spells {digits : List Nat} (h : FractionSpells digits octets)
    (hrest : ∀ b ∈ rest.head?, digit? b = none ∧ b ≠ 0x2E) :
    scanFraction (octets ++ rest) = some (digits, rest) := by
  rw [scanFraction_eq_some_iff]
  cases h with
  | absent => exact .inr ⟨fun b hb => (hrest b hb).2, rfl, rfl⟩
  | point hne h =>
      exact .inl ⟨_, rfl, spanDigits_digitOctets h fun b hb => (hrest b hb).1, hne⟩

theorem scanSign_of_spells {negative : Bool} {sign : Octets} (h : SignSpells negative sign)
    {digits : List Nat} (hne : digits ≠ []) (hdigits : ∀ d ∈ digits, d < 10) (rest : Octets) :
    scanSign (sign ++ (digits.map digitOctet ++ rest)) =
      (negative, digits.map digitOctet ++ rest) := by
  cases h with
  | absent =>
      obtain ⟨d, digits, rfl⟩ := List.exists_cons_of_ne_nil hne
      have hplain : ∀ d < 10, digitOctet d ≠ 0x2B ∧ digitOctet d ≠ 0x2D := by decide
      obtain ⟨hplus, hminus⟩ := hplain d (hdigits d List.mem_cons_self)
      simp [scanSign, hplus, hminus]
  | plus | minus => rfl

theorem scanExponent_of_spells {exponent : Option (Bool × List Nat)}
    (h : ExponentSpells exponent octets) (hrest : Stops rest) :
    scanExponent (octets ++ rest) = some (exponent, rest) := by
  rw [scanExponent_eq_some_iff]
  cases h with
  | absent => exact .inr ⟨fun b hb => (hrest b hb).2.2, rfl, rfl⟩
  | @letter b _ sign digits hb hsign hne h =>
      have hspan := spanDigits_digitOctets h fun b hb => (hrest b hb).1
      refine .inl ⟨b, sign ++ (digits.map digitOctet ++ rest), digits, ?_, hb, ?_⟩
      · rw [List.cons_append, List.append_assoc]
      · rw [scanSign_of_spells hsign hne h]
        exact ⟨hspan, hne, rfl⟩

/-- An exponent, or what comes where none is, ends the digits before it. -/
theorem ExponentSpells.stops {exponent : Option (Bool × List Nat)}
    (h : ExponentSpells exponent octets) (hrest : Stops rest) :
    ∀ b ∈ (octets ++ rest).head?, digit? b = none ∧ b ≠ 0x2E := by
  intro b hb
  cases h with
  | absent => exact ⟨(hrest b hb).1, (hrest b hb).2.1⟩
  | letter hletter =>
      obtain rfl := Option.some.inj hb
      rcases hletter with rfl | rfl <;> decide

theorem FractionSpells.stops {digits : List Nat} (h : FractionSpells digits octets)
    (hrest : ∀ b ∈ rest.head?, digit? b = none ∧ b ≠ 0x2E) :
    ∀ b ∈ (octets ++ rest).head?, digit? b = none := by
  intro b hb
  cases h with
  | absent => exact (hrest b hb).1
  | point =>
      obtain rfl := Option.some.inj hb
      rfl

theorem scanMagnitude_of_spells {literal : NumberLiteral} (h : MagnitudeSpells literal octets)
    (hrest : Stops rest) :
    scanMagnitude literal.negative (octets ++ rest) = some (literal, rest) := by
  cases h with
  | mk hwhole hfraction hexponent =>
      have hstops₃ := hexponent.stops hrest
      have hstops₂ := hfraction.stops hstops₃
      simp only [scanMagnitude, List.append_assoc, Option.bind_eq_bind, Option.bind_some,
        scanWhole_of_spells hwhole hstops₂, scanFraction_of_spells hfraction hstops₃,
        scanExponent_of_spells hexponent hrest]

theorem WholeSpells.exists_head {digits : List Nat} (h : WholeSpells digits octets) :
    ∃ d tail, d < 10 ∧ octets = digitOctet d :: tail := by
  cases h with
  | zero => exact ⟨0, [], by decide, rfl⟩
  | digits _ h => exact ⟨_, _, h _ List.mem_cons_self, rfl⟩

theorem MagnitudeSpells.exists_head {literal : NumberLiteral} (h : MagnitudeSpells literal octets) :
    ∃ d tail, d < 10 ∧ octets = digitOctet d :: tail := by
  cases h with
  | mk hwhole =>
      obtain ⟨d, tail, hd, rfl⟩ := hwhole.exists_head
      exact ⟨d, _, hd, rfl⟩

/-- The lexer takes up a token, whatever follows, but for a number that goes on. -/
theorem scanToken_of_spells {token : Token} (h : token.Spells octets)
    (hrest : (∃ literal, token = .number literal) → Stops rest) :
    ∃ b tail, octets = b :: tail ∧ isBlank b = false ∧
      scanToken b (tail ++ rest) = some (token, rest) := by
  cases h with
  | beginArray | endArray | beginObject | endObject | comma | colon =>
      exact ⟨_, [], rfl, rfl, rfl⟩
  | null | true | false =>
      refine ⟨_, _, rfl, rfl, ?_⟩
      simp [scanToken, structural?, word?, dropWord?, nullTail, trueTail, falseTail,
        List.isPrefixOf]
  | string h =>
      refine ⟨0x22, _, rfl, rfl, ?_⟩
      rw [List.append_assoc, List.singleton_append]
      simp [scanToken, structural?, word?, scanString_of_spells h]
  | negative hsign h =>
      refine ⟨0x2D, _, rfl, rfl, ?_⟩
      have hscan := scanMagnitude_of_spells h (hrest ⟨_, rfl⟩)
      rw [hsign] at hscan
      simp [scanToken, structural?, word?, hscan]
  | positive hsign h =>
      have hscan := scanMagnitude_of_spells h (hrest ⟨_, rfl⟩)
      obtain ⟨d, tail, hd, rfl⟩ := h.exists_head
      obtain ⟨hblank, hstructural, hword, hquote, hminus⟩ := digitOctet_starts d hd
      rw [hsign, List.cons_append] at hscan
      refine ⟨_, tail, rfl, hblank, ?_⟩
      simp [scanToken, hstructural, hword, hquote, hminus, hscan]

end Complete

/-! ## Texts -/

/-- Whether a token is one of the six structural characters. -/
def Token.isMark : Token → Bool
  | .beginArray | .endArray | .beginObject | .endObject | .comma | .colon => true
  | .null | .bool _ | .number _ | .string _ => false

/-- Behind every number there is a structural character, or nothing. -/
def Parted : List Token → Prop :=
  List.IsChain fun token next => (∃ literal, token = .number literal) → next.isMark = true

variable {octets more : Octets} {tokens tokens' : List Token}

theorem Text.blanks {blanks : Octets} (hblanks : ∀ b ∈ blanks, isBlank b = true)
    (h : Text tokens octets) : Text tokens (blanks ++ octets) := by
  cases h with
  | nil h =>
      refine .nil fun b hb => ?_
      rcases List.mem_append.mp hb with hb | hb
      · exact hblanks b hb
      · exact h b hb
  | cons h hspells hrest =>
      rw [← List.append_assoc]
      refine .cons (fun b hb => ?_) hspells hrest
      rcases List.mem_append.mp hb with hb | hb
      · exact hblanks b hb
      · exact h b hb

/-- Texts behind one another are a text. -/
theorem Text.append (h : Text tokens octets) (h' : Text tokens' more) :
    Text (tokens ++ tokens') (octets ++ more) := by
  induction h with
  | nil hblanks => exact h'.blanks hblanks
  | cons hblanks hspells _ ih =>
      rw [List.append_assoc, List.append_assoc]
      exact .cons hblanks hspells ih

theorem text_of_tokens? (h : tokens? octets = some tokens) : Text tokens octets := by
  fun_induction tokens? octets generalizing tokens with
  | case1 =>
      obtain rfl := Option.some.inj h
      exact .nil (List.forall_mem_nil _)
  | case2 b rest hblank ih =>
      have hfirst : ∀ c ∈ [b], isBlank c = true := List.forall_mem_singleton.mpr hblank
      exact (ih h).blanks hfirst
  | case3 b rest hblank token rest' hscan hlt ih =>
      obtain ⟨others, hothers, rfl⟩ := Option.map_eq_some_iff.mp h
      obtain ⟨front, rfl, hspells⟩ := spells_of_scanToken hscan
      have hnone : ∀ c ∈ ([] : Octets), isBlank c = true := List.forall_mem_nil _
      exact .cons hnone hspells (ih hothers)
  | case4 => cases h

/-- A number ends where a structural character comes next, or nothing, be it behind blanks. -/
theorem Text.stops (h : Text tokens octets) (hnext : ∀ token ∈ tokens.head?, token.isMark = true) :
    Stops octets := by
  have hblank {blanks rest : Octets} (hblanks : ∀ b ∈ blanks, isBlank b = true)
      (hrest : Stops rest) : Stops (blanks ++ rest) := by
    cases blanks with
    | nil => exact hrest
    | cons b blanks =>
        intro c hc
        obtain rfl := Option.some.inj hc
        exact digit?_of_isBlank (hblanks b List.mem_cons_self)
  cases h with
  | nil hblanks =>
      have hnone : Stops [] := nofun
      exact List.append_nil octets ▸ hblank hblanks hnone
  | cons hblanks hspells hrest =>
      refine hblank hblanks fun c hc => ?_
      have hmark := hnext _ rfl
      cases hspells <;> first
        | (obtain rfl := Option.some.inj hc; decide)
        | cases hmark

theorem tokens?_blanks {blanks : Octets} (hblanks : ∀ b ∈ blanks, isBlank b = true)
    (octets : Octets) : tokens? (blanks ++ octets) = tokens? octets := by
  induction blanks with
  | nil => rfl
  | cons b blanks ih =>
      obtain ⟨hb, hblanks⟩ := List.forall_mem_cons.mp hblanks
      rw [List.cons_append, tokens?_blank hb, ih hblanks]

theorem tokens?_of_text (h : Text tokens octets) (hparted : Parted tokens) :
    tokens? octets = some tokens := by
  induction h with
  | nil hblanks => exact tokens?_eq_nil_iff.mpr hblanks
  | cons hblanks hspells hrest ih =>
      have hstops (hnumber : ∃ literal, _ = Token.number literal) : Stops _ :=
        hrest.stops fun next hnext => (List.isChain_cons.mp hparted).1 next hnext hnumber
      obtain ⟨b, tail, rfl, hblank, hscan⟩ := scanToken_of_spells hspells hstops
      rw [tokens?_blanks hblanks, List.cons_append, tokens?_cons hblank hscan, ih hparted.tail]
      rfl

/-- The lexer reads just the texts of the tokens. -/
theorem tokens?_eq_some_iff (hparted : Parted tokens) :
    tokens? octets = some tokens ↔ Text tokens octets :=
  ⟨text_of_tokens?, fun h => tokens?_of_text h hparted⟩

end Uplink.Json
