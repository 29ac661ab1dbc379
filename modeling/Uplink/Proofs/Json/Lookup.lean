import Mathlib.Data.List.Induction
import Mathlib.Data.List.Perm.Basic
import Uplink.Proofs.Json.Members

/-! # What stands under a name

An object is what its names stand for: of pairs with equal names the last counts, and where no two
names are equal their order does not matter. -/

namespace Uplink.Json.Members

variable {name : String} {value : Json}

theorem get?_cons (other : String) (value : Json) (members : Members) (name : String) :
    get? ((other, value) :: members) name =
      if name = other then some value else get? members name := by
  by_cases h : name = other
  · simp [get?, h]
  · simp [get?, List.lookup_cons, h, beq_false_of_ne h]

theorem get?_insert (members : Members) (name other : String) (value : Json) :
    (members.insert name value).get? other =
      if other = name then some value else members.get? other := by
  induction members with
  | nil => rw [insert, get?_cons]
  | cons first rest ih =>
      obtain ⟨key, old⟩ := first
      rw [insert]
      split
      · rw [get?_cons]
      · split
        · next heq =>
            subst heq
            rw [get?_cons, get?_cons]
            split <;> rfl
        · next hne =>
            rw [get?_cons, ih, get?_cons]
            by_cases hkey : other = key
            · subst hkey
              rw [if_pos rfl, if_pos rfl, if_neg (Ne.symm hne)]
            · rw [if_neg hkey, if_neg hkey]

/-- The last of equal names counts. -/
theorem get?_ofList (pairs : List (String × Json)) (name : String) :
    (ofList pairs).get? name = pairs.reverse.lookup name := by
  induction pairs using List.reverseRecOn with
  | nil => rfl
  | append_singleton pairs pair ih =>
      have hlast : ofList (pairs ++ [pair]) = (ofList pairs).insert pair.1 pair.2 := by
        rw [ofList, List.foldl_append]
        rfl
      rw [hlast, get?_insert, ih, List.reverse_append, List.reverse_singleton,
        List.singleton_append]
      exact (get?_cons pair.1 pair.2 pairs.reverse name).symm

theorem get?_eq_none {members : Members} (h : ∀ member ∈ members, name < member.1) :
    members.get? name = none := by
  rw [get?, List.lookup_eq_none_iff]
  intro member hmember
  exact bne_iff_ne.mpr fun heq => String.lt_irrefl _ (heq ▸ h member hmember)

/-- Members in order are what their names stand for. -/
theorem Ordered.ext {members members' : Members} (h : Ordered members) (h' : Ordered members')
    (hget : ∀ name, members.get? name = members'.get? name) : members = members' := by
  induction members generalizing members' with
  | nil =>
      cases members' with
      | nil => rfl
      | cons first rest =>
          have hfirst := hget first.1
          rw [get?_cons, if_pos rfl] at hfirst
          cases hfirst
  | cons first rest ih =>
      obtain ⟨key, value⟩ := first
      obtain ⟨hkey, hrest⟩ := List.pairwise_cons.mp h
      cases members' with
      | nil =>
          have hfirst := hget key
          rw [get?_cons, if_pos rfl] at hfirst
          cases hfirst
      | cons first' rest' =>
          obtain ⟨key', value'⟩ := first'
          obtain ⟨hkey', hrest'⟩ := List.pairwise_cons.mp h'
          -- Neither first name can be less than the other, which would lack it.
          have hsame : key = key' := by
            rcases Std.lt_trichotomy key key' with hlt | heq | hlt
            · have hmissing : get? ((key', value') :: rest') key = none := by
                refine get?_eq_none (List.forall_mem_cons.mpr ⟨hlt, fun member hmember => ?_⟩)
                exact String.lt_trans hlt (hkey' member hmember)
              have hfirst := hget key
              rw [hmissing, get?_cons, if_pos rfl] at hfirst
              cases hfirst
            · exact heq
            · have hmissing : get? ((key, value) :: rest) key' = none := by
                refine get?_eq_none (List.forall_mem_cons.mpr ⟨hlt, fun member hmember => ?_⟩)
                exact String.lt_trans hlt (hkey member hmember)
              have hfirst := hget key'
              rw [hmissing, get?_cons, if_pos rfl] at hfirst
              cases hfirst
          subst hsame
          have hvalue : value = value' := by
            have hfirst := hget key
            rw [get?_cons, get?_cons, if_pos rfl, if_pos rfl] at hfirst
            exact Option.some.inj hfirst
          subst hvalue
          refine congrArg _ (ih hrest hrest' fun name => ?_)
          have hname := hget name
          rw [get?_cons, get?_cons] at hname
          by_cases heq : name = key
          · subst heq
            rw [get?_eq_none hkey, get?_eq_none hkey']
          · rwa [if_neg heq, if_neg heq] at hname

/-! ## Order -/

/-- Where no two names are equal, a name stands for what is beside it. -/
theorem lookup_eq_some_iff_mem {pairs : List (String × Json)} (h : (pairs.map (·.1)).Nodup) :
    pairs.lookup name = some value ↔ (name, value) ∈ pairs := by
  induction pairs with
  | nil => simp
  | cons pair pairs ih =>
      obtain ⟨key, old⟩ := pair
      obtain ⟨hkey, hpairs⟩ := List.nodup_cons.mp h
      have hlookup := get?_cons key old pairs name
      rw [get?, get?] at hlookup
      rw [hlookup, List.mem_cons, Prod.mk.injEq]
      by_cases heq : name = key
      · subst heq
        have habsent : (name, value) ∉ pairs := fun hmem =>
          hkey (List.mem_map.mpr ⟨_, hmem, rfl⟩)
        simp [habsent, eq_comm]
      · simp [heq, ih hpairs]

theorem lookup_of_perm {pairs pairs' : List (String × Json)} (h : (pairs.map (·.1)).Nodup)
    (hperm : pairs'.Perm pairs) (name : String) : pairs'.lookup name = pairs.lookup name := by
  have h' : (pairs'.map (·.1)).Nodup := (hperm.map _).nodup_iff.mpr h
  refine Option.ext fun value => ?_
  rw [lookup_eq_some_iff_mem h', lookup_eq_some_iff_mem h, hperm.mem_iff]

end Uplink.Json.Members
