import Uplink.Utf8

/-! # Tokens of a JSON text

The lexer fixes the grammar of the atoms and nothing more: whether a number is in range or a
string spells a text is asked later, and only of the atoms that matter. -/

namespace Uplink.Json

/-- A part of a string literal. -/
inductive Piece
  /-- An octet that stands for itself. -/
  | octet (b : UInt8)
  /-- A short escape. -/
  | char (c : Char)
  /-- A four-digit escape, a UTF-16 code unit. -/
  | unit (n : Nat)
deriving DecidableEq

/-- A number as written: digits before the point, after it, and in the exponent under its sign. -/
structure NumberLiteral where
  negative : Bool
  whole : List Nat
  fraction : List Nat
  exponent : Option (Bool × List Nat)
deriving DecidableEq

/-- The atoms and the six structural characters. -/
inductive Token
  | beginArray
  | endArray
  | beginObject
  | endObject
  | comma
  | colon
  | null
  | bool (b : Bool)
  | number (literal : NumberLiteral)
  | string (pieces : List Piece)
deriving DecidableEq

/-- Space, tab, line feed and carriage return separate tokens. -/
def isBlank (b : UInt8) : Bool :=
  b = 0x20 || b = 0x09 || b = 0x0A || b = 0x0D

def digit? (b : UInt8) : Option Nat :=
  if 0x30 ≤ b && b ≤ 0x39 then some (b.toNat - 0x30) else none

def hexDigit? (b : UInt8) : Option Nat :=
  if 0x30 ≤ b && b ≤ 0x39 then some (b.toNat - 0x30)
  else if 0x61 ≤ b && b ≤ 0x66 then some (b.toNat - 0x57)
  else if 0x41 ≤ b && b ≤ 0x46 then some (b.toNat - 0x37)
  else none

def shortEscape? (b : UInt8) : Option Char :=
  if b = 0x22 then some '"'
  else if b = 0x5C then some '\\'
  else if b = 0x2F then some '/'
  else if b = 0x62 then some '\x08'
  else if b = 0x66 then some '\x0C'
  else if b = 0x6E then some '\n'
  else if b = 0x72 then some '\r'
  else if b = 0x74 then some '\t'
  else none

def codeUnit? (a b c d : UInt8) : Option Nat := do
  let a ← hexDigit? a
  let b ← hexDigit? b
  let c ← hexDigit? c
  let d ← hexDigit? d
  some (a * 0x1000 + b * 0x100 + c * 0x10 + d)

/-- A string literal after its opening quote, up to and with the closing one. Controls below the
space have to be escaped. -/
def scanString : Octets → Option (List Piece × Octets)
  | [] => none
  | b :: rest =>
    if b = 0x22 then some ([], rest)
    else if b = 0x5C then
      match rest with
      | [] => none
      | e :: rest =>
        if e = 0x75 then
          match rest with
          | h1 :: h2 :: h3 :: h4 :: rest =>
            match codeUnit? h1 h2 h3 h4, scanString rest with
            | some n, some (pieces, rest) => some (.unit n :: pieces, rest)
            | _, _ => none
          | _ => none
        else
          match shortEscape? e, scanString rest with
          | some c, some (pieces, rest) => some (.char c :: pieces, rest)
          | _, _ => none
    else if b < 0x20 then none
    else
      match scanString rest with
      | some (pieces, rest) => some (.octet b :: pieces, rest)
      | none => none

def spanDigits : Octets → List Nat × Octets
  | [] => ([], [])
  | b :: rest =>
    match digit? b with
    | some d =>
      let (digits, rest) := spanDigits rest
      (d :: digits, rest)
    | none => ([], b :: rest)

/-- The digits before the point: a zero stands alone. -/
def scanWhole : Octets → Option (List Nat × Octets)
  | [] => none
  | b :: rest =>
    match digit? b with
    | none => none
    | some 0 => some ([0], rest)
    | some d =>
      let (digits, rest) := spanDigits rest
      some (d :: digits, rest)

/-- A point and at least one digit, or nothing. -/
def scanFraction : Octets → Option (List Nat × Octets)
  | 0x2E :: rest =>
    match spanDigits rest with
    | ([], _) => none
    | (digits, rest) => some (digits, rest)
  | octets => some ([], octets)

/-- The sign of an exponent, if one is written. -/
def scanSign : Octets → Bool × Octets
  | 0x2B :: rest => (false, rest)
  | 0x2D :: rest => (true, rest)
  | octets => (false, octets)

/-- A letter `e` of either case, a sign or none, and at least one digit; or nothing. -/
def scanExponent : Octets → Option (Option (Bool × List Nat) × Octets)
  | [] => some (none, [])
  | b :: rest =>
    if b = 0x65 || b = 0x45 then
      let (negative, rest) := scanSign rest
      match spanDigits rest with
      | ([], _) => none
      | (digits, rest) => some (some (negative, digits), rest)
    else some (none, b :: rest)

/-- A number after its minus sign, if it had one. -/
def scanMagnitude (negative : Bool) (octets : Octets) : Option (NumberLiteral × Octets) := do
  let (whole, octets) ← scanWhole octets
  let (fraction, octets) ← scanFraction octets
  let (exponent, octets) ← scanExponent octets
  some (⟨negative, whole, fraction, exponent⟩, octets)

/-- The octets after a word, if they start with it. -/
def dropWord? (word octets : Octets) : Option Octets :=
  if word.isPrefixOf octets then some (octets.drop word.length) else none

/-- The rest of `null` after its first letter. -/
def nullTail : Octets := [0x75, 0x6C, 0x6C]

/-- The rest of `true` after its first letter. -/
def trueTail : Octets := [0x72, 0x75, 0x65]

/-- The rest of `false` after its first letter. -/
def falseTail : Octets := [0x61, 0x6C, 0x73, 0x65]

def structural? (b : UInt8) : Option Token :=
  if b = 0x5B then some .beginArray
  else if b = 0x5D then some .endArray
  else if b = 0x7B then some .beginObject
  else if b = 0x7D then some .endObject
  else if b = 0x2C then some .comma
  else if b = 0x3A then some .colon
  else none

/-- The word that starts with octet `b`: its remaining letters and the token it is. -/
def word? (b : UInt8) : Option (Octets × Token) :=
  if b = 0x6E then some (nullTail, .null)
  else if b = 0x74 then some (trueTail, .bool true)
  else if b = 0x66 then some (falseTail, .bool false)
  else none

/-- The token that starts with octet `b`, and what follows it. -/
def scanToken (b : UInt8) (rest : Octets) : Option (Token × Octets) :=
  match structural? b with
  | some token => some (token, rest)
  | none =>
    match word? b with
    | some (tail, token) => (dropWord? tail rest).map (token, ·)
    | none =>
      if b = 0x22 then (scanString rest).map fun s => (.string s.1, s.2)
      else if b = 0x2D then (scanMagnitude true rest).map fun n => (.number n.1, n.2)
      else (scanMagnitude false (b :: rest)).map fun n => (.number n.1, n.2)

/-! ## Every token takes up octets -/

theorem length_le_of_scanString {octets rest : Octets} {pieces : List Piece}
    (h : scanString octets = some (pieces, rest)) : rest.length ≤ octets.length := by
  fun_induction scanString octets generalizing pieces rest <;>
    simp only [List.length_cons, List.length_nil] <;> grind

theorem length_spanDigits_le (octets : Octets) :
    (spanDigits octets).2.length ≤ octets.length := by
  fun_induction spanDigits octets <;> grind

theorem length_lt_of_scanWhole {octets rest : Octets} {digits : List Nat}
    (h : scanWhole octets = some (digits, rest)) : rest.length < octets.length := by
  unfold scanWhole at h
  grind [length_spanDigits_le]

theorem length_le_of_scanFraction {octets rest : Octets} {digits : List Nat}
    (h : scanFraction octets = some (digits, rest)) : rest.length ≤ octets.length := by
  unfold scanFraction at h
  grind [length_spanDigits_le]

theorem length_scanSign_le (octets : Octets) : (scanSign octets).2.length ≤ octets.length := by
  unfold scanSign
  grind

theorem length_le_of_scanExponent {octets rest : Octets} {exponent : Option (Bool × List Nat)}
    (h : scanExponent octets = some (exponent, rest)) : rest.length ≤ octets.length := by
  unfold scanExponent at h
  grind [length_spanDigits_le, length_scanSign_le]

theorem length_lt_of_scanMagnitude {negative : Bool} {octets rest : Octets}
    {literal : NumberLiteral} (h : scanMagnitude negative octets = some (literal, rest)) :
    rest.length < octets.length := by
  unfold scanMagnitude at h
  simp only [Option.bind_eq_bind, Option.bind_eq_some_iff, Prod.exists] at h
  obtain ⟨whole, r1, h1, fraction, r2, h2, exponent, r3, h3, h⟩ := h
  have := length_lt_of_scanWhole h1
  have := length_le_of_scanFraction h2
  have := length_le_of_scanExponent h3
  simp only [Option.some.injEq, Prod.mk.injEq] at h
  obtain ⟨-, rfl⟩ := h
  omega

theorem length_le_of_dropWord {word octets rest : Octets} (h : dropWord? word octets = some rest) :
    rest.length ≤ octets.length := by
  unfold dropWord? at h
  grind

theorem length_lt_of_scanToken {b : UInt8} {octets rest : Octets} {token : Token}
    (h : scanToken b octets = some (token, rest)) : rest.length < octets.length + 1 := by
  unfold scanToken at h
  split at h
  · grind
  · split at h
    · obtain ⟨r, hr, h⟩ := Option.map_eq_some_iff.mp h
      obtain ⟨-, rfl⟩ := Prod.mk.inj h
      exact Nat.lt_succ_of_le (length_le_of_dropWord hr)
    · split at h
      · obtain ⟨r, hr, h⟩ := Option.map_eq_some_iff.mp h
        obtain ⟨-, rfl⟩ := Prod.mk.inj h
        exact Nat.lt_succ_of_le (length_le_of_scanString hr)
      · split at h
        · obtain ⟨r, hr, h⟩ := Option.map_eq_some_iff.mp h
          obtain ⟨-, rfl⟩ := Prod.mk.inj h
          exact Nat.lt_succ_of_lt (length_lt_of_scanMagnitude hr)
        · obtain ⟨r, hr, h⟩ := Option.map_eq_some_iff.mp h
          obtain ⟨-, rfl⟩ := Prod.mk.inj h
          simpa using length_lt_of_scanMagnitude hr

/-- The tokens of a text, or nothing when some part of it is no token. -/
def tokens? (octets : Octets) : Option (List Token) :=
  match octets with
  | [] => some []
  | b :: rest =>
    if isBlank b then tokens? rest
    else
      match h : scanToken b rest with
      | some (token, rest') =>
        have : rest'.length < rest.length + 1 := length_lt_of_scanToken h
        (tokens? rest').map (token :: ·)
      | none => none
termination_by octets.length

end Uplink.Json
