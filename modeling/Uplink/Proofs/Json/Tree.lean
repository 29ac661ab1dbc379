import Uplink.Proofs.Json.Grammar

/-! # The grammar of documents

Every document has one list of tokens, and the parser reads a list of tokens as a document just
if it is this list. With the grammar of the tokens this says which octets spell a document. -/

namespace Uplink.Json

mutual

/-- The tokens of a document. -/
def Node.tokens : Node → List Token
  | .null => [.null]
  | .bool b => [.bool b]
  | .number literal => [.number literal]
  | .string pieces => [.string pieces]
  | .array items => .beginArray :: (itemTokens items ++ [.endArray])
  | .object members => .beginObject :: (memberTokens members ++ [.endObject])

/-- The tokens of items with commas between them. -/
def itemTokens : List Node → List Token
  | [] => []
  | [item] => item.tokens
  | item :: rest => item.tokens ++ .comma :: itemTokens rest

/-- The tokens of members with commas between them. -/
def memberTokens : List (List Piece × Node) → List Token
  | [] => []
  | [(name, value)] => .string name :: .colon :: value.tokens
  | (name, value) :: rest =>
    .string name :: .colon :: (value.tokens ++ .comma :: memberTokens rest)

end

theorem itemTokens_cons (item : Node) {rest : List Node} (h : rest ≠ []) :
    itemTokens (item :: rest) = item.tokens ++ .comma :: itemTokens rest := by
  cases rest with
  | nil => exact absurd rfl h
  | cons => rfl

theorem memberTokens_cons (name : List Piece) (value : Node)
    {rest : List (List Piece × Node)} (h : rest ≠ []) :
    memberTokens ((name, value) :: rest) =
      .string name :: .colon :: (value.tokens ++ .comma :: memberTokens rest) := by
  cases rest with
  | nil => exact absurd rfl h
  | cons => rfl

/-! ## The parser takes the tokens of a document -/

theorem exists_head_tokens (node : Node) :
    ∃ token more, node.tokens = token :: more ∧ token ≠ .endArray := by
  cases node <;> exact ⟨_, _, rfl, by simp⟩

theorem foldlM_step_append (tokens more : List Token) (position : Position) :
    (tokens ++ more).foldlM Position.step position =
      tokens.foldlM Position.step position >>= fun next => more.foldlM Position.step next :=
  List.foldlM_append

/-- Where an array was just opened, items come as they do after a comma. -/
theorem foldlM_step_firstItem {item : Node} (more : List Token) (frames : List Frame) :
    (item.tokens ++ more).foldlM Position.step (.firstItem frames) =
      (item.tokens ++ more).foldlM Position.step (.value (.array [] :: frames)) := by
  obtain ⟨token, tail, heq, hne⟩ := exists_head_tokens item
  rw [heq, List.cons_append, List.foldlM_cons, List.foldlM_cons, step_firstItem hne]

mutual

/-- Where a value has to come, the tokens of a document complete it. -/
theorem foldlM_step_tokens (node : Node) (frames : List Frame) :
    node.tokens.foldlM Position.step (.value frames) = some (.after node frames) := by
  cases node with
  | null | bool | number | string => rfl
  | array items =>
      cases items with
      | nil => rfl
      | cons item rest =>
          have hitems := foldlM_step_items (item :: rest) (List.cons_ne_nil _ _) [] frames
          have hfirst : ∃ more, itemTokens (item :: rest) ++ [.endArray] = item.tokens ++ more := by
            cases rest with
            | nil => exact ⟨_, rfl⟩
            | cons => exact ⟨_, List.append_assoc _ _ _⟩
          obtain ⟨more, hmore⟩ := hfirst
          rw [hmore, ← foldlM_step_firstItem, ← hmore] at hitems
          exact hitems
  | object members =>
      cases members with
      | nil => rfl
      | cons member rest =>
          have hmembers := foldlM_step_members (member :: rest) (List.cons_ne_nil _ _) [] frames
          cases rest <;> exact hmembers

theorem foldlM_step_items (items : List Node) (hne : items ≠ []) (front : List Node)
    (frames : List Frame) :
    (itemTokens items ++ [Token.endArray]).foldlM Position.step
        (.value (.array front :: frames)) =
      some (.after (.array (front.reverse ++ items)) frames) := by
  cases items with
  | nil => exact absurd rfl hne
  | cons item rest =>
      have hitem := foldlM_step_tokens item (.array front :: frames)
      by_cases hrest : rest = []
      · subst hrest
        rw [itemTokens, foldlM_step_append, hitem]
        simp [Position.step, continueFrame]
      · have hmore := foldlM_step_items rest hrest (item :: front) frames
        rw [itemTokens_cons item hrest, List.append_assoc, foldlM_step_append, hitem]
        simpa [Position.step, continueFrame] using hmore

theorem foldlM_step_members (members : List (List Piece × Node)) (hne : members ≠ [])
    (front : List (List Piece × Node)) (frames : List Frame) :
    (memberTokens members ++ [Token.endObject]).foldlM Position.step (.name front frames) =
      some (.after (.object (front.reverse ++ members)) frames) := by
  cases members with
  | nil => exact absurd rfl hne
  | cons member rest =>
      obtain ⟨key, value⟩ := member
      have hvalue := foldlM_step_tokens value (.object front key :: frames)
      have hstart (more : List Token) :
          (Token.string key :: .colon :: (value.tokens ++ more)).foldlM Position.step
              (.name front frames) =
            more.foldlM Position.step (.after value (.object front key :: frames)) := by
        have hbegin : (Token.string key :: .colon :: (value.tokens ++ more)).foldlM Position.step
            (.name front frames) =
              (value.tokens ++ more).foldlM Position.step
                (.value (.object front key :: frames)) := rfl
        rw [hbegin, foldlM_step_append, hvalue]
        rfl
      by_cases hrest : rest = []
      · subst hrest
        rw [memberTokens, List.cons_append, List.cons_append, hstart]
        simp [Position.step, continueFrame]
      · have hmore := foldlM_step_members rest hrest ((key, value) :: front) frames
        rw [memberTokens_cons key value hrest, List.cons_append, List.cons_append,
          List.append_assoc, hstart]
        simpa [Position.step, continueFrame] using hmore

end

/-! ## The parser takes nothing else -/

/-- The tokens from the opening of an array or object to where it goes on. -/
def Frame.tokens : Frame → List Token
  | .array items => .beginArray :: items.reverse.flatMap fun item => item.tokens ++ [.comma]
  | .object members name =>
    .beginObject :: (members.reverse.flatMap (fun member =>
      .string member.1 :: .colon :: (member.2.tokens ++ [.comma])) ++ [.string name, .colon])

/-- The tokens that have been read where the parser stands. -/
def Position.tokens : Position → List Token
  | .value frames => frames.reverse.flatMap Frame.tokens
  | .firstItem frames => frames.reverse.flatMap Frame.tokens ++ [.beginArray]
  | .firstName frames => frames.reverse.flatMap Frame.tokens ++ [.beginObject]
  | .name members frames =>
    frames.reverse.flatMap Frame.tokens ++ .beginObject :: members.reverse.flatMap fun member =>
      .string member.1 :: .colon :: (member.2.tokens ++ [.comma])
  | .colon members key frames =>
    frames.reverse.flatMap Frame.tokens ++ .beginObject :: (members.reverse.flatMap (fun member =>
      .string member.1 :: .colon :: (member.2.tokens ++ [.comma])) ++ [.string key])
  | .after node frames => frames.reverse.flatMap Frame.tokens ++ node.tokens

theorem itemTokens_concat (items : List Node) (node : Node) :
    itemTokens (items ++ [node]) =
      items.flatMap (fun item => item.tokens ++ [.comma]) ++ node.tokens := by
  induction items with
  | nil => rfl
  | cons item items ih =>
      rw [List.cons_append, itemTokens_cons item (by simp), ih]
      simp

theorem memberTokens_concat (members : List (List Piece × Node)) (name : List Piece)
    (value : Node) :
    memberTokens (members ++ [(name, value)]) =
      members.flatMap (fun member =>
        .string member.1 :: .colon :: (member.2.tokens ++ [.comma])) ++
          .string name :: .colon :: value.tokens := by
  induction members with
  | nil => rfl
  | cons member members ih =>
      rw [List.cons_append, memberTokens_cons member.1 member.2 (by simp), ih]
      simp

theorem tokens_startValue {frames : List Frame} {token : Token} {position : Position}
    (h : startValue frames token = some position) :
    position.tokens = frames.reverse.flatMap Frame.tokens ++ [token] := by
  cases token <;> cases h <;> simp [Position.tokens, Node.tokens]

theorem tokens_continueFrame {node : Node} {frames : List Frame} {token : Token}
    {position : Position} (h : continueFrame node frames token = some position) :
    position.tokens = frames.reverse.flatMap Frame.tokens ++ node.tokens ++ [token] := by
  cases frames with
  | nil => cases h
  | cons frame frames =>
      cases frame with
      | array items =>
          cases token <;> cases h <;>
            simp [Position.tokens, Frame.tokens, Node.tokens, itemTokens_concat]
      | object members name =>
          cases token <;> cases h <;>
            simp [Position.tokens, Frame.tokens, Node.tokens, memberTokens_concat]

theorem tokens_step {position position' : Position} {token : Token}
    (h : position.step token = some position') :
    position'.tokens = position.tokens ++ [token] := by
  cases position with
  | value frames => exact tokens_startValue h
  | firstItem frames =>
      by_cases hend : token = .endArray
      · subst hend
        obtain rfl := Option.some.inj h
        simp [Position.tokens, Node.tokens, itemTokens]
      · rw [step_firstItem hend] at h
        simpa [Position.tokens, Frame.tokens] using tokens_startValue h
  | firstName frames =>
      cases token <;> cases h <;> simp [Position.tokens, Node.tokens, memberTokens]
  | name members frames | colon members key frames =>
      cases token <;> cases h
      simp [Position.tokens, Frame.tokens]
  | after node frames => exact tokens_continueFrame h

/-- The tokens that were read are those of the position that was reached. -/
theorem tokens_foldlM {tokens : List Token} {position position' : Position}
    (h : tokens.foldlM Position.step position = some position') :
    position'.tokens = position.tokens ++ tokens := by
  induction tokens generalizing position with
  | nil =>
      obtain rfl := Option.some.inj h
      exact (List.append_nil _).symm
  | cons token tokens ih =>
      rw [List.foldlM_cons, Option.bind_eq_bind, Option.bind_eq_some_iff] at h
      obtain ⟨next, hstep, hrest⟩ := h
      rw [ih hrest, tokens_step hstep, List.append_assoc, List.singleton_append]

theorem ofTokens?_iff_tokens {tokens : List Token} {node : Node} :
    Node.ofTokens? tokens = some node ↔ tokens = node.tokens := by
  rw [ofTokens?_eq_some_iff]
  constructor
  · intro h
    exact (tokens_foldlM h).symm
  · rintro rfl
    exact foldlM_step_tokens node []

/-! ## Documents -/

theorem isMark_of_continueFrame {node : Node} {frames : List Frame} {token : Token}
    {position : Position} (h : continueFrame node frames token = some position) :
    token.isMark = true := by
  rcases frames with _ | ⟨items | members, frames⟩ <;> cases token <;> cases h <;> rfl

theorem after_of_step_number {position position' : Position} {literal : NumberLiteral}
    (h : position.step (.number literal) = some position') :
    ∃ node frames, position' = .after node frames := by
  cases position with
  | value frames | firstItem frames => exact ⟨_, _, (Option.some.inj h).symm⟩
  | firstName | name | colon => cases h
  | after node frames => cases isMark_of_continueFrame h

/-- What the parser takes behind a number is a structural character. -/
theorem parted_of_foldlM {tokens : List Token} {position position' : Position}
    (h : tokens.foldlM Position.step position = some position') : Parted tokens := by
  induction tokens generalizing position with
  | nil => exact List.isChain_nil
  | cons token tokens ih =>
      rw [List.foldlM_cons, Option.bind_eq_bind, Option.bind_eq_some_iff] at h
      obtain ⟨middle, hstep, hrest⟩ := h
      refine List.isChain_cons.mpr ⟨?_, ih hrest⟩
      rintro next hnext ⟨literal, rfl⟩
      obtain ⟨node, frames, rfl⟩ := after_of_step_number hstep
      obtain ⟨more, rfl⟩ := List.head?_eq_some_iff.mp hnext
      rw [List.foldlM_cons, Option.bind_eq_bind, Option.bind_eq_some_iff] at hrest
      obtain ⟨_, hcontinue, -⟩ := hrest
      exact isMark_of_continueFrame hcontinue

/-- The parser reads a document just from its texts. -/
theorem parse?_iff_text {octets : Octets} {node : Node} :
    Node.parse? octets = some node ↔ Text node.tokens octets := by
  rw [parse?_eq_some_iff]
  constructor
  · rintro ⟨tokens, hoctets, htokens⟩
    exact ofTokens?_iff_tokens.mp htokens ▸ text_of_tokens? hoctets
  · intro h
    exact ⟨node.tokens, tokens?_of_text h (parted_of_foldlM (foldlM_step_tokens node [])),
      ofTokens?_iff_tokens.mpr rfl⟩

/-- No text spells two documents. -/
theorem Text.unique {octets : Octets} {node node' : Node} (h : Text node.tokens octets)
    (h' : Text node'.tokens octets) : node = node' :=
  Option.some.inj ((parse?_iff_text.mpr h).symm.trans (parse?_iff_text.mpr h'))

/-- Wherever blanks are put between the tokens of a document, it stays what it is. -/
theorem parse?_of_blanks {front back blanks : Octets} {tokens tokens' : List Token} {node : Node}
    (hfront : Text tokens front) (hback : Text tokens' back)
    (hnode : tokens ++ tokens' = node.tokens)
    (hblanks : ∀ b ∈ blanks, isBlank b = true) :
    Node.parse? (front ++ (blanks ++ back)) = some node ∧
      Node.parse? (front ++ back) = some node := by
  constructor
  · exact parse?_iff_text.mpr (hnode ▸ hfront.append (hback.blanks hblanks))
  · exact parse?_iff_text.mpr (hnode ▸ hfront.append hback)

end Uplink.Json
