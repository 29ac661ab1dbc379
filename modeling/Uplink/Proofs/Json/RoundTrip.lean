import Uplink.Json.Document
import Uplink.Proofs.Json.Integer
import Uplink.Proofs.Json.Members
import Uplink.Proofs.Json.Text

/-! # Values are read back

A value whose numbers are integers is written as tokens that spell one document. The document has
the value as its meaning, as far as there is room for the arrays and objects around one another:
writing knows no bound on them, reading does. -/

namespace Uplink.Json

/-! ## Octets and their tokens -/

/-- These octets are these tokens, wherever a number may end after them. -/
def Scans (octets : Octets) (tokens : List Token) : Prop :=
  ∀ rest, Ends rest → tokens? (octets ++ rest) = (tokens? rest).map (tokens ++ ·)

theorem tokens?_cons {b : UInt8} {rest rest' : Octets} {token : Token}
    (hblank : isBlank b = false) (h : scanToken b rest = some (token, rest')) :
    tokens? (b :: rest) = (tokens? rest').map (token :: ·) := by
  rw [tokens?, if_neg (by simp [hblank])]
  split
  · next token' rest'' h' =>
      obtain ⟨rfl, rfl⟩ := Prod.mk.inj (Option.some.inj (h.symm.trans h'))
      rfl
  · next h' =>
      rw [h] at h'
      cases h'

theorem scans_nil : Scans [] [] := by
  intro rest _
  cases h : tokens? rest <;> simp [h]

/-- One token, whose octets are known whatever follows. -/
theorem scans_token {b : UInt8} {octets : Octets} {token : Token} (hblank : isBlank b = false)
    (h : ∀ rest, Ends rest → scanToken b (octets ++ rest) = some (token, rest)) :
    Scans (b :: octets) [token] := by
  intro rest hrest
  exact tokens?_cons hblank (h rest hrest)

theorem scans_word {b : UInt8} {word : Octets} {token : Token} (hb : structural? b = none)
    (hblank : isBlank b = false) (hword : word? b = some (word, token)) :
    Scans (b :: word) [token] := by
  apply scans_token hblank
  intro rest _
  have hstarts : word.isPrefixOf (word ++ rest) = true := by simp
  simp [scanToken, hb, hword, dropWord?, hstarts]

/-- A structural character starts what comes after. -/
theorem Scans.append {octets octets' : Octets} {tokens tokens' : List Token} {b : UInt8}
    (h : Scans octets tokens) (hb : (structural? b).isSome = true)
    (h' : Scans (b :: octets') tokens') :
    Scans (octets ++ b :: octets') (tokens ++ tokens') := by
  intro rest hrest
  have hends : Ends (b :: octets' ++ rest) := ends_cons hb (octets' ++ rest)
  rw [List.append_assoc, h _ hends, h' rest hrest, Option.map_map]
  congr 1
  funext more
  exact (List.append_assoc tokens tokens' more).symm

theorem Scans.cons {octets : Octets} {tokens : List Token} {b : UInt8} {token : Token}
    (hb : structural? b = some token) (h : Scans octets tokens) :
    Scans (b :: octets) (token :: tokens) := by
  intro rest hrest
  have hblank : isBlank b = false := isBlank_of_structural (by rw [hb]; rfl)
  have hscan : scanToken b (octets ++ rest) = some (token, octets ++ rest) := by
    simp [scanToken, hb]
  rw [List.cons_append, tokens?_cons hblank hscan, h rest hrest, Option.map_map]
  rfl

theorem scans_structural {b : UInt8} {token : Token} (hb : structural? b = some token) :
    Scans [b] [token] :=
  scans_nil.cons hb

theorem scans_string (s : String) :
    Scans (Utf8.encode (renderString s)) [.string (textPieces s.toList)] := by
  have hencode : Utf8.encode (renderString s) =
      0x22 :: (Utf8.encode (s.toList.flatMap renderChar) ++ [0x22]) := by
    rw [renderString, Utf8.encode_append]
    rfl
  rw [hencode]
  apply scans_token (by decide)
  intro rest _
  have hscan := scanString_encode s.toList rest
  simp [scanToken, structural?, word?, hscan]

theorem digitOctet_starts : ∀ d < 10, isBlank (digitOctet d) = false ∧
    structural? (digitOctet d) = none ∧ word? (digitOctet d) = none ∧
    digitOctet d ≠ 0x22 ∧ digitOctet d ≠ 0x2D := by
  decide

theorem scans_integer (n : Int) :
    Scans (Utf8.encode (renderInt n)) [.number (integerLiteral n)] := by
  by_cases hneg : n < 0
  · have hencode : Utf8.encode (renderInt n) = 0x2D :: Utf8.encode (renderNat n.natAbs) := by
      rw [renderInt, if_pos hneg]
      rfl
    rw [hencode]
    apply scans_token (by decide)
    intro rest hrest
    simp [scanToken, structural?, word?, scanMagnitude_renderNat true _ hrest, integerLiteral, hneg]
  · have hencode : Utf8.encode (renderInt n) =
        (decimalDigits n.natAbs).map digitOctet := by
      rw [renderInt, if_neg hneg, renderNat,
        encode_digitChars fun d hd => lt_ten_of_mem_decimalDigits hd]
    obtain ⟨d, digits, heq⟩ : ∃ d digits, decimalDigits n.natAbs = d :: digits := by
      rcases decimalDigits_cases n.natAbs with ⟨-, heq⟩ | ⟨d, digits, -, heq⟩
      · exact ⟨0, [], heq⟩
      · exact ⟨d, digits, heq⟩
    have hd : d < 10 := lt_ten_of_mem_decimalDigits (heq ▸ List.mem_cons_self)
    obtain ⟨hblank, hstructural, hword, hquote, hminus⟩ := digitOctet_starts d hd
    rw [hencode, heq, List.map_cons]
    apply scans_token hblank
    intro rest hrest
    have hscan := scanMagnitude_renderNat false n.natAbs hrest
    rw [renderNat, encode_digitChars fun d hd => lt_ten_of_mem_decimalDigits hd, heq,
      List.map_cons, List.cons_append] at hscan
    simp [scanToken, hstructural, hword, hquote, hminus, hscan, integerLiteral, hneg, heq]

/-! ## Values, their tokens and their documents -/

mutual

/-- How many arrays and objects stand around one another in a value. -/
def height : Json → Nat
  | .array items => itemsHeight items + 1
  | .object members => membersHeight members + 1
  | _ => 0

/-- The greatest height among items. -/
def itemsHeight : List Json → Nat
  | [] => 0
  | item :: rest => max (height item) (itemsHeight rest)

/-- The greatest height among the values of members. -/
def membersHeight : List (String × Json) → Nat
  | [] => 0
  | (_, value) :: rest => max (height value) (membersHeight rest)

end

theorem membersHeight_le_iff {members : Members} {depth : Nat} :
    membersHeight members ≤ depth ↔ ∀ member ∈ members, member.2.height ≤ depth := by
  induction members with
  | nil => simp [membersHeight]
  | cons member rest ih => simp only [membersHeight, Nat.max_le, ih, List.forall_mem_cons]

/-- The values whose numbers are integers. The names of an object are in order, as in whatever is
read or inserted. -/
inductive Integral : Json → Prop
  | null : Integral .null
  | bool (b : Bool) : Integral (.bool b)
  | integer (n : Int) (inRange : -0x8000000000000000 ≤ n ∧ n < 0x10000000000000000) :
      Integral (.number (.integer n inRange))
  | string (s : String) : Integral (.string s)
  | array {items : List Json} (h : ∀ item ∈ items, Integral item) : Integral (.array items)
  | object {members : List (String × Json)} (hordered : Members.Ordered members)
      (h : ∀ member ∈ members, Integral member.2) : Integral (.object members)

/-- A value is written as these tokens, which spell this document, whose value it is if there is
room for its height. -/
structure Spelled (value : Json) (tokens : List Token) (node : Node) : Prop where
  scanned : Scans (Utf8.encode (render value)) tokens
  starts : ∃ token more, tokens = token :: more ∧ token ≠ .endArray
  parsed (frames : List Frame) :
    tokens.foldlM Position.step (.value frames) = some (.after node frames)
  valued (depth : Nat) : node.value? depth = if value.height ≤ depth then some value else none

/-- The same for the items of an array that is not empty, up to its end. -/
structure SpelledItems (items : List Json) (tokens : List Token) (nodes : List Node) : Prop where
  scanned : Scans (Utf8.encode (renderItems items)) tokens
  starts : ∃ token more, tokens = token :: more ∧ token ≠ .endArray
  parsed (front : List Node) (frames : List Frame) :
    (tokens ++ [Token.endArray]).foldlM Position.step (.value (.array front :: frames)) =
      some (.after (.array (front.reverse ++ nodes)) frames)
  valued (depth : Nat) :
    itemValues? depth nodes = if itemsHeight items ≤ depth then some items else none

/-- The same for the members of an object that is not empty, up to its end. -/
structure SpelledMembers (members : List (String × Json)) (tokens : List Token)
    (nodes : List (List Piece × Node)) : Prop where
  scanned : Scans (Utf8.encode (renderMembers members)) tokens
  starts : ∃ name more, tokens = .string name :: more
  parsed (front : List (List Piece × Node)) (frames : List Frame) :
    (tokens ++ [Token.endObject]).foldlM Position.step (.name front frames) =
      some (.after (.object (front.reverse ++ nodes)) frames)
  valued (depth : Nat) :
    memberValues? depth nodes = if membersHeight members ≤ depth then some members else none

/-! ### Atoms -/

theorem spelled_null : Spelled .null [.null] .null where
  scanned := scans_word (by decide) (by decide) rfl
  starts := ⟨_, _, rfl, by decide⟩
  parsed frames := rfl
  valued depth := rfl

theorem spelled_bool (b : Bool) : Spelled (.bool b) [.bool b] (.bool b) where
  scanned := by
    cases b with
    | false => exact scans_word (by decide) (by decide) rfl
    | true => exact scans_word (by decide) (by decide) rfl
  starts := ⟨_, _, rfl, by simp⟩
  parsed frames := rfl
  valued depth := rfl

theorem spelled_integer (n : Int)
    (inRange : -0x8000000000000000 ≤ n ∧ n < 0x10000000000000000) :
    Spelled (.number (.integer n inRange)) [.number (integerLiteral n)]
      (.number (integerLiteral n)) where
  scanned := scans_integer n
  starts := ⟨_, _, rfl, by simp⟩
  parsed frames := rfl
  valued depth := by simp [Node.value?, value?_integerLiteral inRange, height]

theorem spelled_string (s : String) :
    Spelled (.string s) [.string (textPieces s.toList)] (.string (textPieces s.toList)) where
  scanned := scans_string s
  starts := ⟨_, _, rfl, by simp⟩
  parsed frames := rfl
  valued depth := by simp [Node.value?, pieceString?_textPieces, height]

/-! ### Arrays -/

/-- In an array that was just opened, a value comes as it would after a comma. -/
theorem step_firstItem {token : Token} (h : token ≠ .endArray) (frames : List Frame) :
    Position.step (.firstItem frames) token =
      Position.step (.value (.array [] :: frames)) token := by
  cases token with
  | endArray => exact absurd rfl h
  | _ => rfl

theorem itemValues?_cons {item : Json} {rest : List Json} {node : Node} {nodes : List Node}
    {depth : Nat} (h : node.value? depth = if item.height ≤ depth then some item else none)
    (hrest : itemValues? depth nodes = if itemsHeight rest ≤ depth then some rest else none) :
    itemValues? depth (node :: nodes) =
      if itemsHeight (item :: rest) ≤ depth then some (item :: rest) else none := by
  simp only [itemValues?, h, hrest, itemsHeight, Nat.max_le]
  by_cases hitem : item.height ≤ depth
  · by_cases hitems : itemsHeight rest ≤ depth <;> simp [hitem, hitems]
  · simp [hitem]

theorem Spelled.items {item : Json} {tokens : List Token} {node : Node}
    (h : Spelled item tokens node) : SpelledItems [item] tokens [node] where
  scanned := h.scanned
  starts := h.starts
  parsed front frames := by
    rw [List.foldlM_append, h.parsed]
    simp [Position.step, continueFrame]
  valued depth := itemValues?_cons (h.valued depth) (by simp [itemValues?, itemsHeight])

theorem SpelledItems.cons {item next : Json} {rest : List Json} {tokens more : List Token}
    {node : Node} {nodes : List Node} (h : Spelled item tokens node)
    (hrest : SpelledItems (next :: rest) more nodes) :
    SpelledItems (item :: next :: rest) (tokens ++ .comma :: more) (node :: nodes) where
  scanned := by
    have hencode : Utf8.encode (renderItems (item :: next :: rest)) =
        Utf8.encode (render item) ++ 0x2C :: Utf8.encode (renderItems (next :: rest)) :=
      Utf8.encode_append (render item) (',' :: renderItems (next :: rest))
    rw [hencode]
    exact h.scanned.append (by decide) (hrest.scanned.cons rfl)
  starts := by
    obtain ⟨token, others, rfl, hne⟩ := h.starts
    exact ⟨token, others ++ .comma :: more, rfl, hne⟩
  parsed front frames := by
    -- At the comma the item joins those in front, latest first.
    have hparsed := hrest.parsed (node :: front) frames
    rw [List.append_assoc, List.foldlM_append, h.parsed]
    simpa [Position.step, continueFrame] using hparsed
  valued depth := itemValues?_cons (h.valued depth) (hrest.valued depth)

theorem spelled_emptyArray : Spelled (.array []) [.beginArray, .endArray] (.array []) where
  scanned := (scans_structural rfl).cons rfl
  starts := ⟨_, _, rfl, by decide⟩
  parsed frames := rfl
  valued depth := by cases depth <;> simp [Node.value?, itemValues?, height, itemsHeight]

theorem SpelledItems.array {items : List Json} {tokens : List Token} {nodes : List Node}
    (h : SpelledItems items tokens nodes) :
    Spelled (.array items) (.beginArray :: (tokens ++ [.endArray])) (.array nodes) where
  scanned := by
    have hencode : Utf8.encode (render (.array items)) =
        0x5B :: (Utf8.encode (renderItems items) ++ [0x5D]) := by
      rw [render, Utf8.encode_append]
      rfl
    rw [hencode]
    exact (h.scanned.append (by decide) (scans_structural rfl)).cons rfl
  starts := ⟨_, _, rfl, by decide⟩
  parsed frames := by
    have hparsed := h.parsed [] frames
    -- After the bracket the array may end at once. It does not, with an item to come.
    obtain ⟨token, more, rfl, hne⟩ := h.starts
    simp only [List.cons_append, List.foldlM_cons] at hparsed ⊢
    rw [← step_firstItem hne] at hparsed
    exact hparsed
  valued depth := by
    cases depth with
    | zero => simp [Node.value?, height]
    | succ depth =>
        simp only [Node.value?, h.valued, height, Nat.add_le_add_iff_right]
        split <;> rfl

theorem exists_spelledItems {items : List Json} (hne : items ≠ [])
    (h : ∀ item ∈ items, ∃ tokens node, Spelled item tokens node) :
    ∃ tokens nodes, SpelledItems items tokens nodes := by
  induction items with
  | nil => exact absurd rfl hne
  | cons item rest ih =>
      obtain ⟨tokens, node, hitem⟩ := h item List.mem_cons_self
      cases rest with
      | nil => exact ⟨tokens, [node], hitem.items⟩
      | cons next rest =>
          obtain ⟨more, nodes, hrest⟩ := ih (List.cons_ne_nil _ _)
            fun item hmem => h item (List.mem_cons_of_mem _ hmem)
          exact ⟨_, _, hrest.cons hitem⟩

/-! ### Objects -/

/-- In an object that was just opened, a name comes as it would after a comma. -/
theorem step_firstName (name : List Piece) (frames : List Frame) :
    Position.step (.firstName frames) (.string name) =
      Position.step (.name [] frames) (.string name) := rfl

theorem memberValues?_cons {name : String} {value : Json} {rest : List (String × Json)}
    {node : Node} {nodes : List (List Piece × Node)} {depth : Nat}
    (h : node.value? depth = if value.height ≤ depth then some value else none)
    (hrest : memberValues? depth nodes =
      if membersHeight rest ≤ depth then some rest else none) :
    memberValues? depth ((textPieces name.toList, node) :: nodes) =
      if membersHeight ((name, value) :: rest) ≤ depth then some ((name, value) :: rest)
      else none := by
  simp only [memberValues?, pieceString?_textPieces, h, hrest, membersHeight, Nat.max_le]
  by_cases hvalue : value.height ≤ depth
  · by_cases hvalues : membersHeight rest ≤ depth <;> simp [hvalue, hvalues]
  · simp [hvalue]

/-- One member: its name, a colon and its value. -/
theorem Spelled.scans_member {value : Json} {tokens : List Token} {node : Node}
    (h : Spelled value tokens node) (name : String) :
    Scans (Utf8.encode (renderString name) ++ 0x3A :: Utf8.encode (render value))
      (.string (textPieces name.toList) :: .colon :: tokens) :=
  (scans_string name).append (by decide) (h.scanned.cons rfl)

theorem Spelled.parses_member {value : Json} {tokens : List Token} {node : Node}
    (h : Spelled value tokens node) (name : List Piece) (front : List (List Piece × Node))
    (frames : List Frame) :
    (Token.string name :: .colon :: tokens).foldlM Position.step (.name front frames) =
      some (.after node (.object front name :: frames)) := by
  simp [Position.step, h.parsed]

theorem Spelled.members {value : Json} {tokens : List Token} {node : Node}
    (h : Spelled value tokens node) (name : String) :
    SpelledMembers [(name, value)] (.string (textPieces name.toList) :: .colon :: tokens)
      [(textPieces name.toList, node)] where
  scanned := by
    have hencode : Utf8.encode (renderMembers [(name, value)]) =
        Utf8.encode (renderString name) ++ 0x3A :: Utf8.encode (render value) :=
      Utf8.encode_append (renderString name) (':' :: render value)
    rw [hencode]
    exact h.scans_member name
  starts := ⟨_, _, rfl⟩
  parsed front frames := by
    rw [List.foldlM_append, h.parses_member]
    simp [Position.step, continueFrame]
  valued depth := memberValues?_cons (h.valued depth) (by simp [memberValues?, membersHeight])

theorem SpelledMembers.cons {value : Json} {next : String × Json} {rest : List (String × Json)}
    {tokens more : List Token} {node : Node} {nodes : List (List Piece × Node)} {name : String}
    (h : Spelled value tokens node) (hrest : SpelledMembers (next :: rest) more nodes) :
    SpelledMembers ((name, value) :: next :: rest)
      (.string (textPieces name.toList) :: .colon :: tokens ++ .comma :: more)
      ((textPieces name.toList, node) :: nodes) where
  scanned := by
    have hencode : Utf8.encode (renderMembers ((name, value) :: next :: rest)) =
        (Utf8.encode (renderString name) ++ 0x3A :: Utf8.encode (render value)) ++
          0x2C :: Utf8.encode (renderMembers (next :: rest)) := by
      change Utf8.encode ((renderString name ++ ':' :: render value) ++
        ',' :: renderMembers (next :: rest)) = _
      rw [Utf8.encode_append, Utf8.encode_append]
      rfl
    rw [hencode]
    exact (h.scans_member name).append (by decide) (hrest.scanned.cons rfl)
  starts := ⟨_, _, rfl⟩
  parsed front frames := by
    have hparsed := hrest.parsed ((textPieces name.toList, node) :: front) frames
    rw [List.append_assoc, List.foldlM_append, h.parses_member]
    simpa [Position.step, continueFrame] using hparsed
  valued depth := memberValues?_cons (h.valued depth) (hrest.valued depth)

theorem exists_spelledMembers {members : List (String × Json)} (hne : members ≠ [])
    (h : ∀ member ∈ members, ∃ tokens node, Spelled member.2 tokens node) :
    ∃ tokens nodes, SpelledMembers members tokens nodes := by
  induction members with
  | nil => exact absurd rfl hne
  | cons member rest ih =>
      obtain ⟨name, value⟩ := member
      obtain ⟨tokens, node, hvalue⟩ := h (name, value) List.mem_cons_self
      cases rest with
      | nil => exact ⟨_, _, hvalue.members name⟩
      | cons next rest =>
          obtain ⟨more, nodes, hrest⟩ := ih (List.cons_ne_nil _ _)
            fun member hmem => h member (List.mem_cons_of_mem _ hmem)
          exact ⟨_, _, hrest.cons hvalue⟩

/-- The braces of an object around what is written for its members. -/
theorem SpelledMembers.scans_object {members : List (String × Json)} {tokens : List Token}
    {nodes : List (List Piece × Node)} (h : SpelledMembers members tokens nodes) :
    Scans (Utf8.encode (render (.object members)))
      (.beginObject :: (tokens ++ [.endObject])) := by
  have hencode : Utf8.encode (render (.object members)) =
      0x7B :: (Utf8.encode (renderMembers members) ++ [0x7D]) := by
    rw [render, Utf8.encode_append]
    rfl
  rw [hencode]
  exact (h.scanned.append (by decide) (scans_structural rfl)).cons rfl

theorem SpelledMembers.parses_object {members : List (String × Json)} {tokens : List Token}
    {nodes : List (List Piece × Node)} (h : SpelledMembers members tokens nodes)
    (frames : List Frame) :
    (Token.beginObject :: (tokens ++ [.endObject])).foldlM Position.step (.value frames) =
      some (.after (.object nodes) frames) := by
  have hparsed := h.parsed [] frames
  obtain ⟨name, more, rfl⟩ := h.starts
  simp only [List.cons_append, List.foldlM_cons] at hparsed ⊢
  rw [← step_firstName] at hparsed
  exact hparsed

theorem spelled_emptyObject :
    Spelled (.object []) [.beginObject, .endObject] (.object []) where
  scanned := (scans_structural rfl).cons rfl
  starts := ⟨_, _, rfl, by decide⟩
  parsed frames := rfl
  valued depth := by
    cases depth <;> simp [Node.value?, memberValues?, Members.ofList, height, membersHeight]

theorem SpelledMembers.object {members : List (String × Json)} {tokens : List Token}
    {nodes : List (List Piece × Node)} (h : SpelledMembers members tokens nodes)
    (hordered : Members.Ordered members) :
    Spelled (.object members) (.beginObject :: (tokens ++ [.endObject])) (.object nodes) where
  scanned := h.scans_object
  starts := ⟨_, _, rfl, by decide⟩
  parsed := h.parses_object
  valued depth := by
    cases depth with
    | zero => simp [Node.value?, height]
    | succ depth =>
        simp only [Node.value?, h.valued, height, Nat.add_le_add_iff_right]
        split
        · rw [Option.map_some, hordered.ofList_eq]
        · rfl

/-! ### All values -/

theorem Integral.exists_spelled {value : Json} (h : Integral value) :
    ∃ tokens node, Spelled value tokens node := by
  induction h with
  | null => exact ⟨_, _, spelled_null⟩
  | bool b => exact ⟨_, _, spelled_bool b⟩
  | integer n inRange => exact ⟨_, _, spelled_integer n inRange⟩
  | string s => exact ⟨_, _, spelled_string s⟩
  | @array items _ ih =>
      by_cases hne : items = []
      · exact ⟨_, _, hne ▸ spelled_emptyArray⟩
      · obtain ⟨tokens, nodes, hitems⟩ := exists_spelledItems hne ih
        exact ⟨_, _, hitems.array⟩
  | @object members hordered _ ih =>
      by_cases hne : members = []
      · exact ⟨_, _, hne ▸ spelled_emptyObject⟩
      · obtain ⟨tokens, nodes, hmembers⟩ := exists_spelledMembers hne ih
        exact ⟨_, _, hmembers.object hordered⟩

/-! ## Whole documents -/

theorem tokens?_of_scans {octets : Octets} {tokens : List Token} (h : Scans octets tokens) :
    tokens? octets = some tokens := by
  have hends : Ends [] := by
    intro b hb
    cases hb
  have hall := h [] hends
  rwa [List.append_nil, tokens?, Option.map_some, List.append_nil] at hall

/-- What is written for a value is read as the value, if it is not too high. -/
theorem parse?_render {value : Json} (h : Integral value) :
    parse? (Utf8.encode (render value)) =
      if value.height ≤ maxDepth then some value else none := by
  obtain ⟨tokens, node, hspelled⟩ := h.exists_spelled
  rw [parse?, Node.parse?, tokens?_of_scans hspelled.scanned]
  simp [Node.ofTokens?, hspelled.parsed, Position.finish?, hspelled.valued]

end Uplink.Json
