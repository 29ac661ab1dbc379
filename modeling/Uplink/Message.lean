import Uplink.Utf8
import Uplink.Unicode.Unprinted

/-! # Messages

A message is a frame's worth of octets, at most 512. Octets are cut at the limit; text is cut at
the last character that still fits, so that a text message is always text. -/

namespace Uplink

def maxMessageLength : Nat := 512

/-- A payload short enough for one frame. -/
structure Message where
  octets : Octets
  length_le : octets.length ≤ maxMessageLength
deriving DecidableEq

namespace Message

def empty : Message :=
  ⟨[], Nat.zero_le _⟩

instance : Inhabited Message := ⟨empty⟩

/-- As many octets from the front as fit. -/
def ofOctets (octets : Octets) : Message :=
  ⟨octets.take maxMessageLength, by simp only [List.length_take]; omega⟩

theorem length_encode_takeFitting (limit : Nat) (text : List Char) :
    (Utf8.encode (Utf8.takeFitting limit text)).length ≤ limit := by
  induction text generalizing limit with
  | nil => simp [Utf8.takeFitting, Utf8.encode]
  | cons c text ih =>
      simp only [Utf8.takeFitting]
      split
      · next h =>
          have := ih (limit - (Utf8.encodeChar c).length)
          simp only [Utf8.encode, List.flatMap_cons, List.length_append] at this ⊢
          omega
      · simp [Utf8.encode]

/-- As many characters from the front as fit whole. -/
def ofText (text : String) : Message :=
  ⟨Utf8.encode (Utf8.takeFitting maxMessageLength text.toList), length_encode_takeFitting _ _⟩

def length (m : Message) : Nat :=
  m.octets.length

def isEmpty (m : Message) : Bool :=
  m.octets.isEmpty

/-- The text that the payload spells, if it spells one. -/
def text? (m : Message) : Option String :=
  Utf8.toString? m.octets

/-- The digits of a number in base sixteen, small letters, no leading zero. -/
def hexDigits (n : Nat) : List Char :=
  Nat.toDigits 16 n

/-- One character inside the quoted form: the usual short escapes for the quote, the backslash
and four controls, the code point in braces for whatever prints no glyph, itself otherwise. -/
def quotedChar (c : Char) : List Char :=
  if c = '\x00' then ['\\', '0']
  else if c = '\t' then ['\\', 't']
  else if c = '\n' then ['\\', 'n']
  else if c = '\r' then ['\\', 'r']
  else if c = '"' then ['\\', '"']
  else if c = '\\' then ['\\', '\\']
  else if Unicode.isUnprinted c then ['\\', 'u', '{'] ++ hexDigits c.toNat ++ ['}']
  else [c]

/-- The form of a message in a log: its text in quotes, or how many octets it has when it is
no text. -/
def logForm (m : Message) : String :=
  match m.text? with
  | some text =>
    String.ofList ("Message(\"".toList ++ text.toList.flatMap quotedChar ++ "\")".toList)
  | none => String.ofList ("Message(".toList ++ (Nat.repr m.length).toList ++ " bytes)".toList)

end Message

end Uplink
