import Uplink.Json.Token

/-! # The shape of a JSON text

A document is the tree that the tokens spell, its atoms still as written. The parser is a machine
with one state per position in the grammar; a text is a document when the machine reads all its
tokens and stops after one whole value. -/

namespace Uplink.Json

/-- A document, with string and number literals as written and members in their order. -/
inductive Node
  | null
  | bool (b : Bool)
  | number (literal : NumberLiteral)
  | string (pieces : List Piece)
  | array (items : List Node)
  | object (members : List (List Piece × Node))

/-- An array or object that has been opened and not closed: what it holds so far, latest first.
An open object also has the name of the member whose value comes next. -/
inductive Frame
  | array (items : List Node)
  | object (members : List (List Piece × Node)) (name : List Piece)

/-- Where the parser stands between two tokens, inside the frames that are open, innermost
first. -/
inductive Position
  /-- A value has to come. -/
  | value (frames : List Frame)
  /-- An array was opened: its first value has to come, or its end. -/
  | firstItem (frames : List Frame)
  /-- An object was opened: its first name has to come, or its end. -/
  | firstName (frames : List Frame)
  /-- A comma in an object: a name has to come. -/
  | name (members : List (List Piece × Node)) (frames : List Frame)
  /-- A name: a colon has to come. -/
  | colon (members : List (List Piece × Node)) (name : List Piece) (frames : List Frame)
  /-- A value is complete. -/
  | after (node : Node) (frames : List Frame)

/-- A token where a value has to come: an atom completes one, a bracket opens a frame. -/
def startValue (frames : List Frame) : Token → Option Position
  | .null => some (.after .null frames)
  | .bool b => some (.after (.bool b) frames)
  | .number literal => some (.after (.number literal) frames)
  | .string pieces => some (.after (.string pieces) frames)
  | .beginArray => some (.firstItem frames)
  | .beginObject => some (.firstName frames)
  | _ => none

/-- A token after a complete value: the frame around it goes on or ends. -/
def continueFrame (node : Node) : List Frame → Token → Option Position
  | .array items :: frames, .comma => some (.value (.array (node :: items) :: frames))
  | .array items :: frames, .endArray => some (.after (.array (node :: items).reverse) frames)
  | .object members name :: frames, .comma => some (.name ((name, node) :: members) frames)
  | .object members name :: frames, .endObject =>
    some (.after (.object ((name, node) :: members).reverse) frames)
  | _, _ => none

def Position.step : Position → Token → Option Position
  | .value frames, token => startValue frames token
  | .firstItem frames, .endArray => some (.after (.array []) frames)
  | .firstItem frames, token => startValue (.array [] :: frames) token
  | .firstName frames, .endObject => some (.after (.object []) frames)
  | .firstName frames, .string key => some (.colon [] key frames)
  | .firstName _, _ => none
  | .name members frames, .string key => some (.colon members key frames)
  | .name _ _, _ => none
  | .colon members key frames, .colon => some (.value (.object members key :: frames))
  | .colon _ _ _, _ => none
  | .after node frames, token => continueFrame node frames token

/-- The document of a whole text, if the text is one. -/
def Position.finish? : Position → Option Node
  | .after node [] => some node
  | _ => none

def Node.ofTokens? (tokens : List Token) : Option Node :=
  tokens.foldlM Position.step (.value []) >>= Position.finish?

/-- The document that the octets spell, if they spell one. -/
def Node.parse? (octets : Octets) : Option Node :=
  tokens? octets >>= Node.ofTokens?

/-! ## The text of a string literal -/

def pairedCodePoint (high low : Nat) : Nat :=
  0x10000 + (high - 0xD800) * 0x400 + (low - 0xDC00)

/-- The octets that a string literal stands for. A code unit that is half of a pair has to meet
its other half at once. -/
def pieceOctets? : List Piece → Option Octets
  | [] => some []
  | .octet b :: rest => (pieceOctets? rest).map (b :: ·)
  | .char c :: rest => (pieceOctets? rest).map (Utf8.encodeChar c ++ ·)
  | .unit n :: rest =>
    if 0xDC00 ≤ n && n ≤ 0xDFFF then none
    else if 0xD800 ≤ n && n ≤ 0xDBFF then
      match rest with
      | .unit low :: rest =>
        if 0xDC00 ≤ low && low ≤ 0xDFFF then
          (pieceOctets? rest).map (Utf8.encodeChar (Char.ofNat (pairedCodePoint n low)) ++ ·)
        else none
      | _ => none
    else (pieceOctets? rest).map (Utf8.encodeChar (Char.ofNat n) ++ ·)

/-- The string that a literal stands for: its octets have to spell a text. -/
def pieceString? (pieces : List Piece) : Option String :=
  pieceOctets? pieces >>= Utf8.toString?

end Uplink.Json
