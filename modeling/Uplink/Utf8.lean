/-! # UTF-8

Characters as octets and back. `encode` writes text, `front` reads the first character of a
run of octets and says why it cannot, and the readers below are all folds of `front`. -/

namespace Uplink

/-- A run of octets, as it travels over a link or lies in storage. -/
abbrev Octets := List UInt8

namespace Utf8

/-- The octets of one character, one to four of them. -/
def encodeChar (c : Char) : Octets :=
  let v := c.toNat
  if v < 0x80 then [v.toUInt8]
  else if v < 0x800 then [(0xC0 + v / 0x40).toUInt8, (0x80 + v % 0x40).toUInt8]
  else if v < 0x10000 then
    [(0xE0 + v / 0x1000).toUInt8, (0x80 + v / 0x40 % 0x40).toUInt8, (0x80 + v % 0x40).toUInt8]
  else
    [(0xF0 + v / 0x40000).toUInt8, (0x80 + v / 0x1000 % 0x40).toUInt8,
      (0x80 + v / 0x40 % 0x40).toUInt8, (0x80 + v % 0x40).toUInt8]

/-- The octets of a text, character by character. -/
def encode (text : List Char) : Octets :=
  text.flatMap encodeChar

def ofString (s : String) : Octets :=
  encode s.toList

/-- What stands at the front of a run of octets. -/
inductive Front
  /-- Nothing is left. -/
  | empty
  /-- A whole character, and what follows it. -/
  | char (c : Char) (rest : Octets)
  /-- The octets begin a character and end before it does. -/
  | truncated
  /-- The first `skip` octets begin no character, whatever follows. -/
  | invalid (skip : Nat)

/-- How a character continues after its first octet: how many octets follow, and the least and
the greatest value of the next one. Every later one lies in `0x80 … 0xBF`. -/
structure Lead where
  tails : Nat
  low : UInt8
  high : UInt8

/-- The well-formed first octets. Two of them are cut short so that no character has two
spellings, one so that surrogates have none, one so that nothing exceeds `U+10FFFF`. -/
def lead (a : UInt8) : Option Lead :=
  if a < 0x80 then some ⟨0, 0x80, 0xBF⟩
  else if a < 0xC2 then none
  else if a < 0xE0 then some ⟨1, 0x80, 0xBF⟩
  else if a = 0xE0 then some ⟨2, 0xA0, 0xBF⟩
  else if a = 0xED then some ⟨2, 0x80, 0x9F⟩
  else if a < 0xF0 then some ⟨2, 0x80, 0xBF⟩
  else if a = 0xF0 then some ⟨3, 0x90, 0xBF⟩
  else if a < 0xF4 then some ⟨3, 0x80, 0xBF⟩
  else if a = 0xF4 then some ⟨3, 0x80, 0x8F⟩
  else none

/-- An octet that continues a character. -/
def isTail (b : UInt8) : Bool :=
  0x80 ≤ b && b ≤ 0xBF

/-- The six payload bits of a continuing octet. -/
def payload (b : UInt8) : Nat :=
  b.toNat % 0x40

/-- Reads one character, or says what is wrong at the front. -/
def front : Octets → Front
  | [] => .empty
  | a :: rest =>
    match lead a with
    | none => .invalid 1
    | some l =>
      if l.tails = 0 then .char (Char.ofNat a.toNat) rest
      else
        match rest with
        | [] => .truncated
        | b :: rest =>
          if !(l.low ≤ b && b ≤ l.high) then .invalid 1
          else if l.tails = 1 then .char (Char.ofNat (a.toNat % 0x20 * 0x40 + payload b)) rest
          else
            match rest with
            | [] => .truncated
            | c :: rest =>
              if !isTail c then .invalid 2
              else if l.tails = 2 then
                .char (Char.ofNat (a.toNat % 0x10 * 0x1000 + payload b * 0x40 + payload c)) rest
              else
                match rest with
                | [] => .truncated
                | d :: rest =>
                  if !isTail d then .invalid 3
                  else
                    .char (Char.ofNat (a.toNat % 0x08 * 0x40000 + payload b * 0x1000
                      + payload c * 0x40 + payload d)) rest

/-- A character read is octets used up. -/
theorem length_lt_of_front_char {octets rest : Octets} {c : Char}
    (h : front octets = .char c rest) : rest.length < octets.length := by
  unfold front at h
  repeat' split at h
  all_goals first
    | (cases h; done)
    | (cases h; simp only [List.length_cons]; omega)

/-- An invalid front always gives up at least one octet. -/
theorem pos_of_front_invalid {octets : Octets} {skip : Nat}
    (h : front octets = .invalid skip) : 0 < skip ∧ octets ≠ [] := by
  unfold front at h
  repeat' split at h
  all_goals first
    | (cases h; done)
    | (cases h; simp)

/-- The longest run of whole characters at the front, and the octets after it. -/
def split (octets : Octets) : List Char × Octets :=
  match h : front octets with
  | .char c rest =>
    have := length_lt_of_front_char h
    let (text, rest) := split rest
    (c :: text, rest)
  | _ => ([], octets)
termination_by octets.length

/-- The text that the octets spell, if they spell one. -/
def decode? (octets : Octets) : Option (List Char) :=
  match split octets with
  | (text, []) => some text
  | _ => none

def isText (octets : Octets) : Bool :=
  (decode? octets).isSome

/-- The string that the octets spell, if they spell one. -/
def toString? (octets : Octets) : Option String :=
  (decode? octets).map String.ofList

/-- The replacement character stands for each stretch of octets that spells nothing. -/
def replacement : Char := '\uFFFD'

/-- Reads everything: each maximal stretch of octets that begins a character without finishing
it, and each octet that begins none, becomes one replacement character. -/
def decodeLossy (octets : Octets) : List Char :=
  match h : front octets with
  | .empty => []
  | .char c rest =>
    have := length_lt_of_front_char h
    c :: decodeLossy rest
  | .truncated => [replacement]
  | .invalid skip =>
    have : octets.length - skip < octets.length := by
      have hpos := pos_of_front_invalid h
      have := List.length_pos_iff.mpr hpos.2
      omega
    replacement :: decodeLossy (octets.drop skip)
termination_by octets.length

/-- The longest prefix of a text whose octets number at most `limit`: whole characters are kept
while they fit. -/
def takeFitting (limit : Nat) : List Char → List Char
  | [] => []
  | c :: text =>
    let size := (encodeChar c).length
    if size ≤ limit then c :: takeFitting (limit - size) text else []

end Utf8

end Uplink
