import Mathlib.Algebra.Ring.Nat
import Mathlib.Data.List.Infix
import Uplink.Varint

/-! # Reading numbers back

A reader that takes up a run of octets reads it whatever follows, and refuses every proper prefix
of it. Readers of this kind follow one another without a mark between what they read. -/

namespace Uplink

/-- The reader takes up exactly these octets, and its result may hold what follows them. -/
structure TakesUp {α : Type} (read : Octets → Option α) (octets : Octets) (result : Octets → α) :
    Prop where
  whole : ∀ rest, read (octets ++ rest) = some (result rest)
  torn : ∀ p, p <+: octets → p ≠ octets → read p = none

namespace TakesUp

variable {α β : Type}

theorem nothing (result : Octets → α) : TakesUp (fun rest => some (result rest)) [] result where
  whole := fun _ => rfl
  torn := by
    intro p hp hne
    exact absurd (List.prefix_nil.mp hp) hne

/-- A reader that looks for a fault first does nothing else when there is none. -/
theorem guard {p : Prop} [Decidable p] {read : Octets → Option α} {octets : Octets}
    {result : Octets → α} (hp : ¬p) (hread : TakesUp read octets result) :
    TakesUp (fun octets => if p then none else read octets) octets result := by
  simpa only [if_neg hp] using hread

/-- One reader after the other takes up what the two take up. -/
theorem bind {read : Octets → Option (α × Octets)} {next : α × Octets → Option β}
    {front back : Octets} {a : α} {result : Octets → β}
    (hread : TakesUp read front fun rest => (a, rest))
    (hnext : TakesUp (fun rest => next (a, rest)) back result) :
    TakesUp (fun octets => read octets >>= next) (front ++ back) result where
  whole := by
    intro rest
    simp only [List.append_assoc, hread.whole, Option.bind_eq_bind, Option.bind_some]
    exact hnext.whole rest
  torn := by
    intro p hp hne
    -- The text ends either within what the first reader needs, or after it.
    by_cases hfront : front <+: p
    · obtain ⟨q, rfl⟩ := hfront
      have hq : q <+: back := (List.prefix_append_right_inj front).mp hp
      have hqne : q ≠ back := by
        rintro rfl
        exact hne rfl
      simp only [hread.whole, Option.bind_eq_bind, Option.bind_some]
      exact hnext.torn q hq hqne
    · have hshort : p <+: front :=
        (List.prefix_or_prefix_of_prefix hp (List.prefix_append front back)).resolve_right hfront
      have hpne : p ≠ front := by
        rintro rfl
        exact hfront (List.prefix_refl _)
      simp [hread.torn p hshort hpne]

end TakesUp

namespace Varint

/-! ## What is written -/

theorem toNat_toUInt8 {n : Nat} (h : n < 0x100) : n.toUInt8.toNat = n :=
  UInt8.toNat_ofNat_of_lt' h

theorem toUInt8_lt {n : Nat} (h : n < 0x80) : n.toUInt8 < 0x80 := by
  rw [UInt8.lt_iff_toNat_lt, toNat_toUInt8 (by omega)]
  exact h

theorem not_toUInt8_lt (n : Nat) : ¬(n % 0x80 + 0x80).toUInt8 < 0x80 := by
  rw [UInt8.lt_iff_toNat_lt, toNat_toUInt8 (by omega)]
  simp

theorem length_encode_le {n k : Nat} (hk : 0 < k) (h : n < 0x80 ^ k) : (encode n).length ≤ k := by
  induction k generalizing n with
  | zero => exact absurd hk (Nat.lt_irrefl 0)
  | succ k ih =>
      rw [encode]
      split
      · simp
      · have hquotient : n / 0x80 < 0x80 ^ k := Nat.div_lt_of_lt_mul (by rwa [Nat.pow_succ'] at h)
        have hpos : 0 < k := by
          rcases Nat.eq_zero_or_pos k with rfl | hpos
          · omega
          · exact hpos
        simpa using ih hpos hquotient

/-- All octets but the last one say that there are more. -/
theorem exists_encode (n : Nat) :
    ∃ front last, encode n = front ++ [last] ∧ ∀ b ∈ front, ¬b < 0x80 := by
  induction n using Nat.strongRecOn with
  | ind n ih =>
      rw [encode]
      by_cases hsmall : n < 0x80
      · exact ⟨[], n.toUInt8, by simp [hsmall], by simp⟩
      · obtain ⟨front, last, heq, hfront⟩ := ih (n / 0x80) (by omega)
        refine ⟨(n % 0x80 + 0x80).toUInt8 :: front, last, by simp [hsmall, heq], ?_⟩
        intro b hb
        rcases List.mem_cons.mp hb with rfl | hb
        · exact not_toUInt8_lt n
        · exact hfront b hb

/-! ## What is read -/

/-- A number is not complete as long as more octets are announced. -/
theorem decode?_eq_none {octets : Octets} (h : ∀ b ∈ octets, ¬b < 0x80) (last : UInt8)
    (room : Nat) : decode? last room octets = none := by
  induction octets generalizing room with
  | nil => cases room <;> rfl
  | cons b rest ih =>
      cases room with
      | zero => rfl
      | succ room =>
          have hb : ¬b < 0x80 := h b List.mem_cons_self
          have hrest : decode? last room rest = none :=
            ih (fun c hc => h c (List.mem_cons_of_mem b hc)) room
          simp [decode?, hb, hrest]

/-- A number is read back when it fits the room and the last place. -/
theorem decode?_encode_append {last : UInt8} (hlast : last < 0x80) (rest : Octets) (room : Nat)
    {n : Nat} (h : n < 0x80 ^ room * (last.toNat + 1)) :
    decode? last (room + 1) (encode n ++ rest) = some (n, rest) := by
  have hlast : last.toNat < 0x80 := UInt8.lt_iff_toNat_lt.mp hlast
  induction room generalizing n with
  | zero =>
      have hsmall : n < 0x80 := by omega
      have hn := toNat_toUInt8 (n := n) (by omega)
      have hfits : ¬last < n.toUInt8 := by
        rw [UInt8.lt_iff_toNat_lt, hn]
        omega
      rw [encode]
      simp [decode?, hsmall, toUInt8_lt hsmall, hfits, hn]
  | succ room ih =>
      rw [encode]
      by_cases hsmall : n < 0x80
      · have hn := toNat_toUInt8 (n := n) (by omega)
        simp [decode?, hsmall, toUInt8_lt hsmall, hn]
      · have hb := toNat_toUInt8 (n := n % 0x80 + 0x80) (by omega)
        have hhigh : n / 0x80 < 0x80 ^ room * (last.toNat + 1) := by
          rw [Nat.div_lt_iff_lt_mul (by decide)]
          rw [Nat.pow_succ] at h
          calc n < 0x80 ^ room * 0x80 * (last.toNat + 1) := h
            _ = 0x80 ^ room * (last.toNat + 1) * 0x80 := Nat.mul_right_comm _ _ _
        rw [if_neg hsmall, List.cons_append, decode?, if_neg (not_toUInt8_lt n), ih hhigh]
        have hsum : (n % 0x80 + 0x80) % 0x80 + 0x80 * (n / 0x80) = n := by omega
        simp only [hb, hsum]

theorem takesUp_decode {last : UInt8} (hlast : last < 0x80) (room : Nat) {n : Nat}
    (h : n < 0x80 ^ room * (last.toNat + 1)) :
    TakesUp (decode? last (room + 1)) (encode n) fun rest => (n, rest) where
  whole := fun rest => decode?_encode_append hlast rest room h
  torn := by
    intro p hp hne
    obtain ⟨front, b, heq, hfront⟩ := exists_encode n
    rw [heq] at hp hne
    have hshort : p <+: front := (List.prefix_concat_iff.mp hp).resolve_left hne
    exact decode?_eq_none (fun c hc => hfront c (hshort.subset hc)) last _

theorem takesUp_word (w : UInt32) :
    TakesUp word? (encode w.toNat) fun rest => (w, rest) := by
  have hread : TakesUp (decode? 0x0F 5) (encode w.toNat) fun rest => (w.toNat, rest) :=
    takesUp_decode (by decide) 4 w.toNat_lt
  constructor
  · intro rest
    simp [word?, hread.whole]
  · intro p hp hne
    simp [word?, hread.torn p hp hne]

theorem takesUp_length {n : Nat} (h : n < 2 ^ 64) :
    TakesUp length? (encode n) fun rest => (n, rest) :=
  takesUp_decode (by decide) 9 (by simpa using h)

end Varint

end Uplink
