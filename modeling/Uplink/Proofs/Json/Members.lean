import Uplink.Json.Value

/-! # The names of an object are in order

Inserting keeps the names in order, and pairs that are in order already make an object of just
these pairs. Whatever the pairs, none of the members is new. -/

namespace Uplink.Json.Members

variable {name : String} {value : Json}

/-- The names grow, so that each stands once. -/
def Ordered (members : Members) : Prop :=
  members.Pairwise fun m n => m.1 < n.1

theorem ordered_nil : Ordered [] :=
  List.Pairwise.nil

theorem mem_insert {member : String × Json} {members : Members}
    (h : member ∈ members.insert name value) : member = (name, value) ∨ member ∈ members := by
  induction members with
  | nil => exact .inl (List.mem_singleton.mp h)
  | cons first rest ih =>
      obtain ⟨other, old⟩ := first
      rw [insert] at h
      split at h
      · exact List.mem_cons.mp h
      · split at h
        · exact (List.mem_cons.mp h).imp_right (List.mem_cons_of_mem _)
        · rcases List.mem_cons.mp h with rfl | h
          · exact .inr List.mem_cons_self
          · exact (ih h).imp_right (List.mem_cons_of_mem _)

theorem Ordered.insert {members : Members} (h : Ordered members) :
    Ordered (members.insert name value) := by
  induction members with
  | nil => exact List.pairwise_singleton _ _
  | cons first rest ih =>
      obtain ⟨other, old⟩ := first
      obtain ⟨hfirst, hrest⟩ := List.pairwise_cons.mp h
      rw [Members.insert]
      split
      · next hless =>
          apply List.Pairwise.cons _ h
          intro member hmember
          rcases List.mem_cons.mp hmember with rfl | hmember
          · exact hless
          · exact String.lt_trans hless (hfirst member hmember)
      · next hless =>
          split
          · next heq =>
              apply List.Pairwise.cons _ hrest
              intro member hmember
              exact heq ▸ hfirst member hmember
          · next hne =>
              have hgreater : other < name := by
                rcases Std.lt_trichotomy name other with h | h | h
                · exact absurd h hless
                · exact absurd h hne
                · exact h
              apply List.Pairwise.cons _ (ih hrest)
              intro member hmember
              rcases mem_insert hmember with rfl | hmember
              · exact hgreater
              · exact hfirst member hmember

/-- A name beyond all others is put at the end. -/
theorem insert_eq_concat {members : Members} (h : ∀ member ∈ members, member.1 < name) :
    members.insert name value = members ++ [(name, value)] := by
  induction members with
  | nil => rfl
  | cons first rest ih =>
      obtain ⟨other, old⟩ := first
      have hother : other < name := h _ List.mem_cons_self
      have hne : name ≠ other := fun heq => String.lt_irrefl _ (heq ▸ hother)
      rw [insert, if_neg (String.lt_asymm hother), if_neg hne,
        ih fun member hmember => h member (List.mem_cons_of_mem _ hmember)]
      rfl

/-- Pairs in order go behind those that are inserted already. -/
theorem foldl_insert {front pairs : List (String × Json)} (h : Ordered (front ++ pairs)) :
    pairs.foldl (fun members (name, value) => Members.insert name value members) front =
      front ++ pairs := by
  induction pairs generalizing front with
  | nil => simp
  | cons pair pairs ih =>
      obtain ⟨name, value⟩ := pair
      have hfront (member) (hmember : member ∈ front) : member.1 < name :=
        (List.pairwise_append.mp h).2.2 member hmember (name, value) List.mem_cons_self
      rw [List.append_cons] at h ⊢
      rw [List.foldl_cons, ← ih h, ← insert_eq_concat hfront]

theorem Ordered.ofList_eq {pairs : List (String × Json)} (h : Ordered pairs) :
    ofList pairs = pairs := by
  rw [ofList, foldl_insert (show Ordered ([] ++ pairs) from h), List.nil_append]

/-! ## Any pairs -/

theorem Ordered.foldl_insert {front : Members} (h : Ordered front)
    (pairs : List (String × Json)) :
    Ordered (pairs.foldl (fun members (name, value) => Members.insert name value members)
      front) := by
  induction pairs generalizing front with
  | nil => exact h
  | cons pair pairs ih => exact ih h.insert

theorem ordered_ofList (pairs : List (String × Json)) : Ordered (ofList pairs) :=
  ordered_nil.foldl_insert pairs

theorem mem_foldl_insert {front : Members} {pairs : List (String × Json)}
    {member : String × Json}
    (h : member ∈ pairs.foldl (fun members (name, value) => Members.insert name value members)
      front) : member ∈ front ∨ member ∈ pairs := by
  induction pairs generalizing front with
  | nil => exact .inl h
  | cons pair pairs ih =>
      rcases ih h with hfront | hpairs
      · rcases mem_insert hfront with rfl | hfront
        · exact .inr List.mem_cons_self
        · exact .inl hfront
      · exact .inr (List.mem_cons_of_mem _ hpairs)

theorem mem_of_mem_ofList {pairs : List (String × Json)} {member : String × Json}
    (h : member ∈ ofList pairs) : member ∈ pairs :=
  (mem_foldl_insert h).resolve_left List.not_mem_nil

end Uplink.Json.Members
