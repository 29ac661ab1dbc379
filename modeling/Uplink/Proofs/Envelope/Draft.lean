import Uplink.Envelope

/-! # Member by member

The members of a document are taken up one after the other. In the end only this counts: the
version and the type came once each, in the right form, wherever they stood. -/

namespace Uplink.Envelope

/-- The values that stand under a name. -/
def valuesOf (name : String) (pairs : List (String × Json)) : List Json :=
  (pairs.filter fun pair => pair.1 = name).map (·.2)

/-- The members other than version and type. -/
def others (pairs : List (String × Json)) : List (String × Json) :=
  pairs.filter fun pair => pair.1 ≠ versionName && pair.1 ≠ typeName

/-- What may come to stand where a value is awaited once: it stays as it is where none comes, and
becomes what the one means that comes. -/
inductive Once {α : Type} (meaning? : Json → Option α) : Option α → List Json → Option α → Prop
  | kept (old) : Once meaning? old [] old
  | come {value a} (h : meaning? value = some a) : Once meaning? none [value] (some a)

section
variable {α : Type} {meaning? : Json → Option α}

theorem once_cons_iff {old new : Option α} {value : Json} {values : List Json} :
    Once meaning? old (value :: values) new ↔
      old = none ∧ ∃ a, meaning? value = some a ∧ Once meaning? (some a) values new := by
  constructor
  · rintro ⟨⟩
    exact ⟨rfl, _, by assumption, .kept _⟩
  · rintro ⟨rfl, a, ha, hrest⟩
    cases hrest with
    | kept => exact .come ha

theorem once_none_iff {values : List Json} {a : α} :
    Once meaning? none values (some a) ↔ ∃ value, values = [value] ∧ meaning? value = some a := by
  constructor
  · rintro ⟨⟩
    exact ⟨_, rfl, by assumption⟩
  · rintro ⟨value, rfl, ha⟩
    exact .come ha

end

theorem typeName_ne_versionName : typeName ≠ versionName := by decide

namespace Draft

variable {d : Draft} {member : String × Json}

theorem take?_of_version (h : member.1 = versionName) :
    d.take? member =
      if d.version?.isSome then none
      else (unsigned? member.2).map fun version => { d with version? := some version } :=
  if_pos h

theorem take?_of_type (h : member.1 = typeName) :
    d.take? member =
      if d.type?.isSome then none
      else (string? member.2).map fun type => { d with type? := some type } := by
  rw [take?, if_neg (h ▸ typeName_ne_versionName), if_pos h]

theorem take?_of_other (hversion : member.1 ≠ versionName) (htype : member.1 ≠ typeName) :
    d.take? member = some { d with others := d.others ++ [member] } := by
  rw [take?, if_neg hversion, if_neg htype]

end Draft

theorem valuesOf_cons (name : String) (pair : String × Json) (pairs : List (String × Json)) :
    valuesOf name (pair :: pairs) =
      if pair.1 = name then pair.2 :: valuesOf name pairs else valuesOf name pairs := by
  by_cases h : pair.1 = name <;> simp [valuesOf, h]

theorem others_cons (pair : String × Json) (pairs : List (String × Json)) :
    others (pair :: pairs) =
      if pair.1 ≠ versionName ∧ pair.1 ≠ typeName then pair :: others pairs else others pairs := by
  by_cases h : pair.1 ≠ versionName ∧ pair.1 ≠ typeName <;> simp [others, h]

/-- What a draft has become after some members. -/
theorem foldlM_take?_eq_some_iff {d d' : Draft} {pairs : List (String × Json)} :
    pairs.foldlM Draft.take? d = some d' ↔
      Once unsigned? d.version? (valuesOf versionName pairs) d'.version? ∧
        Once string? d.type? (valuesOf typeName pairs) d'.type? ∧
        d'.others = d.others ++ others pairs := by
  induction pairs generalizing d with
  | nil =>
      rw [List.foldlM_nil, others, List.filter_nil, List.append_nil]
      constructor
      · intro h
        obtain rfl := Option.some.inj h
        exact ⟨.kept _, .kept _, rfl⟩
      · rintro ⟨hversion, htype, hothers⟩
        cases d
        cases d'
        cases hversion
        cases htype
        cases hothers
        rfl
  | cons pair pairs ih =>
      rw [List.foldlM_cons, valuesOf_cons, valuesOf_cons, others_cons, Option.bind_eq_bind]
      by_cases hversion : pair.1 = versionName
      · have htype : pair.1 ≠ typeName := fun h => typeName_ne_versionName (h.symm.trans hversion)
        rw [Draft.take?_of_version hversion, if_pos hversion, if_neg htype, once_cons_iff]
        cases hold : d.version? with
        | some version => simp
        | none =>
            simp only [Option.isSome_none, Bool.false_eq_true, if_false, Option.bind_map,
              Option.bind_eq_some_iff, Function.comp_apply, ih, hversion, ne_eq, not_true_eq_false,
              false_and, true_and, ← exists_and_right, and_assoc]
      · by_cases htype : pair.1 = typeName
        · rw [Draft.take?_of_type htype, if_neg hversion, if_pos htype, once_cons_iff]
          cases hold : d.type? with
          | some type => simp
          | none =>
              simp only [Option.isSome_none, Bool.false_eq_true, if_false, Option.bind_map,
                Option.bind_eq_some_iff, Function.comp_apply, ih, htype, ne_eq, not_true_eq_false,
                and_false, true_and, ← exists_and_right, ← exists_and_left, and_left_comm,
                and_assoc]
        · rw [Draft.take?_of_other hversion htype, Option.bind_some, ih, if_neg hversion,
            if_neg htype, if_pos ⟨hversion, htype⟩, List.append_assoc, List.singleton_append]

/-- Exactly one member is the version, an unsigned integer, and exactly one is the type, a string;
the others make the fields. -/
theorem ofMembers?_eq_some_iff {pairs : List (String × Json)} {e : Envelope} :
    ofMembers? pairs = some e ↔
      (∃ value, valuesOf versionName pairs = [value] ∧ unsigned? value = some e.version) ∧
        (∃ value, valuesOf typeName pairs = [value] ∧ string? value = some e.type) ∧
        e.fields = Json.Members.ofList (others pairs) := by
  rw [ofMembers?, Option.bind_eq_bind, Option.bind_eq_some_iff, ← once_none_iff, ← once_none_iff]
  constructor
  · rintro ⟨⟨version?, type?, rest⟩, htaken, hfinish⟩
    simp only [Draft.finish?, Option.bind_eq_bind, Option.bind_eq_some_iff] at hfinish
    obtain ⟨version, rfl, type, rfl, hfinish⟩ := hfinish
    obtain rfl := Option.some.inj hfinish
    obtain ⟨hversion, htype, hothers⟩ := foldlM_take?_eq_some_iff.mp htaken
    exact ⟨hversion, htype, congrArg _ hothers⟩
  · rintro ⟨hversion, htype, hfields⟩
    refine ⟨⟨some e.version, some e.type, others pairs⟩, ?_, ?_⟩
    · exact foldlM_take?_eq_some_iff.mpr ⟨hversion, htype, rfl⟩
    · cases e
      cases hfields
      rfl

end Uplink.Envelope
