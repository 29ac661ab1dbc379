import Mathlib.Data.List.Induction
import Mathlib.Data.List.TakeWhile
import Mathlib.Data.Nat.Digits.Defs
import Uplink.Uri

/-! # Who is meant by an authority

An authority is user information, a host and the text of a port, with only the host required. Each
authority that is accepted can be taken apart in exactly one way, and what is read from it as the
port is the number that the text spells, if it spells one. -/

namespace Uplink.Uri

/-! ## Numbers -/

/-- A text for a number: decimal digits, and perhaps a plus sign in front of them. -/
inductive Numeral : List Char → Nat → Prop
  | plain {digits : List Char} (hne : digits ≠ []) (hdigits : ∀ c ∈ digits, c.isDigit = true) :
      Numeral digits (Nat.ofDigits 10 (digits.reverse.map fun c => c.toNat - 48))
  | signed {digits : List Char} (hne : digits ≠ []) (hdigits : ∀ c ∈ digits, c.isDigit = true) :
      Numeral ('+' :: digits) (Nat.ofDigits 10 (digits.reverse.map fun c => c.toNat - 48))

theorem isDigit_eq (c : Char) : isDigit c = c.isDigit := by
  simp only [isDigit, within, Char.isDigit, Char.le_def]

theorem decimalValue_eq (digits : List Char) :
    decimalValue digits = Nat.ofDigits 10 (digits.reverse.map fun c => c.toNat - 48) := by
  rw [decimalValue, Nat.ofDigits_eq_foldr, List.foldr_map, List.foldr_reverse]
  congr 1
  funext n c
  exact (Nat.add_comm _ _).trans (congrArg _ (Nat.mul_comm _ _))

/-- What is read of a text without a sign. -/
def unsigned16? (digits : List Char) : Option UInt16 :=
  if !digits.isEmpty && digits.all isDigit && decimalValue digits < 0x10000 then
    some (decimalValue digits).toUInt16
  else none

theorem word16?_signed (digits : List Char) : word16? ('+' :: digits) = unsigned16? digits :=
  rfl

theorem word16?_plain {text : List Char} (h : text.head? ≠ some '+') :
    word16? text = unsigned16? text := by
  cases text with
  | nil => rfl
  | cons c digits =>
      have hc : c ≠ '+' := by simpa using h
      simp [word16?, unsigned16?, hc]

theorem unsigned16?_eq_some_iff {digits : List Char} {port : UInt16} :
    unsigned16? digits = some port ↔
      digits ≠ [] ∧ (∀ c ∈ digits, c.isDigit = true) ∧
        Nat.ofDigits 10 (digits.reverse.map fun c => c.toNat - 48) = port.toNat := by
  simp only [unsigned16?, Option.ite_none_right_eq_some, Option.some.injEq, Bool.and_eq_true,
    Bool.not_eq_true', List.isEmpty_eq_false_iff, List.all_eq_true, isDigit_eq, decide_eq_true_eq,
    and_assoc, ← decimalValue_eq]
  constructor
  · rintro ⟨hne, hdigits, hlt, rfl⟩
    exact ⟨hne, hdigits, (UInt16.toNat_ofNat_of_lt' hlt).symm⟩
  · rintro ⟨hne, hdigits, hvalue⟩
    exact ⟨hne, hdigits, hvalue ▸ port.toNat_lt, hvalue ▸ UInt16.ofNat_toNat⟩

/-- A port is read exactly if the text spells it. -/
theorem word16?_eq_some_iff {text : List Char} {port : UInt16} :
    word16? text = some port ↔ Numeral text port.toNat := by
  by_cases hsign : text.head? = some '+'
  · obtain ⟨digits, rfl⟩ := List.head?_eq_some_iff.mp hsign
    rw [word16?_signed, unsigned16?_eq_some_iff]
    constructor
    · rintro ⟨hne, hdigits, hvalue⟩
      rw [← hvalue]
      exact .signed hne hdigits
    · intro h
      generalize hn : port.toNat = n at h ⊢
      cases h with
      | plain hne hdigits => exact absurd (hdigits '+' List.mem_cons_self) (by decide)
      | signed hne hdigits => exact ⟨hne, hdigits, rfl⟩
  · rw [word16?_plain hsign, unsigned16?_eq_some_iff]
    constructor
    · rintro ⟨hne, hdigits, hvalue⟩
      rw [← hvalue]
      exact .plain hne hdigits
    · intro h
      generalize hn : port.toNat = n at h ⊢
      cases h with
      | plain hne hdigits => exact ⟨hne, hdigits, rfl⟩
      | signed hne hdigits => exact absurd rfl hsign

theorem word16?_eq_none_iff {text : List Char} :
    word16? text = none ↔ ∀ n ≤ 65535, ¬Numeral text n := by
  constructor
  · intro hnone n hn hnumeral
    have hport : (UInt16.ofNat n).toNat = n := UInt16.toNat_ofNat_of_lt' (Nat.lt_succ_of_le hn)
    rw [← hport, ← word16?_eq_some_iff, hnone] at hnumeral
    cases hnumeral
  · intro hnot
    cases hword : word16? text with
    | none => rfl
    | some port =>
        have hle : port.toNat ≤ 65535 := Nat.le_of_lt_succ port.toNat_lt
        exact absurd (word16?_eq_some_iff.mp hword) (hnot _ hle)

/-- Nothing but digits stands in a number behind its sign. -/
theorem word16?_eq_none_of_mem {text : List Char} {c : Char} (hc : c ∈ text) (hsign : c ≠ '+')
    (hdigit : c.isDigit = false) : word16? text = none := by
  rw [word16?_eq_none_iff]
  intro n hn h
  cases h with
  | plain hne hdigits => exact absurd (hdigits c hc) (by simp [hdigit])
  | signed hne hdigits =>
      have hmem := (List.mem_cons.mp hc).resolve_left hsign
      exact absurd (hdigits c hmem) (by simp [hdigit])

/-! ## The parts of an authority -/

/-- A host at the front of a place: what it is called, and what follows it. -/
inductive Host : List Char → List Char → List Char → Prop
  /-- An address in brackets, which do not belong to it. -/
  | literal {address rest : List Char} (hopening : '[' ∉ address) (hclosing : ']' ∉ address) :
      Host ('[' :: address ++ ']' :: rest) address rest
  /-- A name, which goes on to the first colon. -/
  | named {name rest : List Char} (hcolon : ':' ∉ name) (hopening : name.head? ≠ some '[')
      (hrest : ∀ c ∈ rest.head?, c = ':') : Host (name ++ rest) name rest

/-- The text of a port behind a host: what stands behind the last colon, if there is one. -/
inductive PortText : List Char → Option (List Char) → Prop
  | absent {rest : List Char} (hcolon : ':' ∉ rest) : PortText rest none
  | written {between text : List Char} (hcolon : ':' ∉ text) :
      PortText (between ++ ':' :: text) (some text)

/-- What an authority calls its host, and the text of the port if it has one. User information may
stand in front, and ends at the last `@`. -/
inductive Names : List Char → List Char → Option (List Char) → Prop
  | intro {user place name rest : List Char} {port? : Option (List Char)}
      (huser : user = [] ∨ ∃ info, user = info ++ ['@']) (hplace : '@' ∉ place)
      (hhost : Host place name rest) (hport : PortText rest port?) :
      Names (user ++ place) name port?

/-! ## Delimiters -/

section Delimiters

variable {c : Char} {front back cs : List Char}

theorem takeWhile_append (hfront : c ∉ front) (hback : ∀ d ∈ back.head?, d = c) :
    (front ++ back).takeWhile (· ≠ c) = front := by
  have hall : ∀ d ∈ front, decide (d ≠ c) = true := by
    intro d hd
    have hne : d ≠ c := fun heq => hfront (heq ▸ hd)
    exact decide_eq_true hne
  rw [List.takeWhile_append_of_pos hall]
  cases back with
  | nil => simp
  | cons d back => simp [hback d rfl]

theorem dropWhile_append (hfront : c ∉ front) (hback : ∀ d ∈ back.head?, d = c) :
    (front ++ back).dropWhile (· ≠ c) = back := by
  refine List.append_cancel_left (?_ : front ++ _ = front ++ _)
  calc front ++ (front ++ back).dropWhile (· ≠ c)
      = (front ++ back).takeWhile (· ≠ c) ++ (front ++ back).dropWhile (· ≠ c) := by
        rw [takeWhile_append hfront hback]
    _ = front ++ back := List.takeWhile_append_dropWhile

theorem through_append (hfront : c ∉ front) : through c (front ++ c :: back) = front ++ [c] := by
  have hback : ∀ d ∈ (c :: back).head?, d = c := fun d hd => (Option.some.inj hd).symm
  rw [through, takeWhile_append hfront hback, dropWhile_append hfront hback]
  rfl

theorem afterLast_of_not_mem (h : c ∉ back) : afterLast c back = back := by
  have hreverse : c ∉ back.reverse := by simpa using h
  have htake := takeWhile_append hreverse (nofun : ∀ d ∈ ([] : List Char).head?, d = c)
  rw [List.append_nil] at htake
  rw [afterLast, htake, List.reverse_reverse]

theorem afterLast_append_cons (h : c ∉ back) : afterLast c (front ++ c :: back) = back := by
  have hreverse : c ∉ back.reverse := by simpa using h
  have hsplit : (front ++ c :: back).reverse = back.reverse ++ c :: front.reverse := by simp
  have hhead : ∀ d ∈ (c :: front.reverse).head?, d = c := fun d hd => (Option.some.inj hd).symm
  rw [afterLast, hsplit, takeWhile_append hreverse hhead, List.reverse_reverse]

theorem afterLast_isSuffix (c : Char) (cs : List Char) : afterLast c cs <:+ cs := by
  rw [← List.reverse_prefix, afterLast, List.reverse_reverse]
  exact List.takeWhile_prefix _

theorem exists_last_of_mem (h : c ∈ cs) : ∃ front back, cs = front ++ c :: back ∧ c ∉ back := by
  obtain ⟨back, front, hcs, hback⟩ := List.eq_append_cons_of_mem (List.mem_reverse.mpr h)
  refine ⟨front.reverse, back.reverse, ?_, fun hc => hback (List.mem_reverse.mp hc)⟩
  rw [← List.reverse_reverse cs, hcs]
  simp

end Delimiters

theorem PortText.eq {rest : List Char} {port? : Option (List Char)} (h : PortText rest port?) :
    port? = portText? rest := by
  cases h with
  | absent hcolon => simp [portText?, hcolon]
  | written hcolon => simp [portText?, afterLast_append_cons hcolon]

theorem exists_portText (rest : List Char) : ∃ port?, PortText rest port? := by
  by_cases hcolon : ':' ∈ rest
  · obtain ⟨between, text, rfl, htext⟩ := exists_last_of_mem hcolon
    exact ⟨some text, .written htext⟩
  · exact ⟨none, .absent hcolon⟩

/-- How a host is read at the front of a place. -/
theorem Host.cases {place name rest : List Char} (h : Host place name rest) :
    (place = '[' :: name ++ ']' :: rest ∧ '[' ∉ name ∧ ']' ∉ name) ∨
      (place = name ++ rest ∧ ':' ∉ name ∧ place.head? ≠ some '[' ∧ ∀ c ∈ rest.head?, c = ':') := by
  cases h with
  | literal hopening hclosing => exact .inl ⟨rfl, hopening, hclosing⟩
  | named hcolon hopening hrest =>
      refine .inr ⟨rfl, hcolon, ?_, hrest⟩
      cases name with
      | nil => exact fun hhead => absurd (hrest '[' hhead) (by decide)
      | cons c name => exact hopening

/-- The host that is read is the name of an address in its brackets, or the name itself. The port
is looked for in what follows. -/
theorem Names.cases {authority name : List Char} {port? : Option (List Char)}
    (h : Names authority name port?) :
    ∃ rest, afterLast '@' authority = hostOf authority ++ rest ∧ PortText rest port? ∧
      ((hostOf authority = '[' :: name ++ [']'] ∧ '[' ∉ name ∧ ']' ∉ name) ∨
        (hostOf authority = name ∧ name.head? ≠ some '[')) := by
  obtain @⟨user, place, _, rest, _, huser, hplace, hhost, hport⟩ := h
  have hafter : afterLast '@' (user ++ place) = place := by
    rcases huser with rfl | ⟨info, rfl⟩
    · exact afterLast_of_not_mem hplace
    · rw [List.append_assoc]
      exact afterLast_append_cons hplace
  rw [hostOf, hafter]
  rcases hhost.cases with ⟨rfl, hopening, hclosing⟩ | ⟨rfl, hcolon, hhead, hrest⟩
  · have hfront : ']' ∉ '[' :: name := by simpa using hclosing
    have hthrough : through ']' ('[' :: name ++ ']' :: rest) = '[' :: name ++ [']'] :=
      through_append hfront
    have hhead : ('[' :: name ++ ']' :: rest).head? = some '[' := rfl
    rw [if_pos hhead, hthrough]
    exact ⟨rest, by simp, hport, .inl ⟨rfl, hopening, hclosing⟩⟩
  · rw [if_neg hhead, takeWhile_append hcolon hrest]
    refine ⟨rest, rfl, hport, .inr ⟨rfl, ?_⟩⟩
    intro hname
    exact hhead (by rw [List.head?_append, hname]; rfl)

/-- An authority is taken apart in one way only. -/
theorem Names.unique {authority name name' : List Char} {port? port?' : Option (List Char)}
    (h : Names authority name port?) (h' : Names authority name' port?') :
    name = name' ∧ port? = port?' := by
  obtain ⟨rest, hrest, hport, hname⟩ := h.cases
  obtain ⟨rest', hrest', hport', hname'⟩ := h'.cases
  constructor
  · rcases hname with ⟨hhost, -⟩ | ⟨hhost, hhead⟩ <;>
      rcases hname' with ⟨hhost', -⟩ | ⟨hhost', hhead'⟩
    · simpa using hhost.symm.trans hhost'
    · exact absurd (by rw [← hhost', hhost]; rfl) hhead'
    · exact absurd (by rw [← hhost, hhost']; rfl) hhead
    · exact hhost.symm.trans hhost'
  · have hsame : rest = rest' := List.append_cancel_left (hrest.symm.trans hrest')
    rw [hport.eq, hport'.eq, hsame]

/-! ## Accepted authorities -/

/-- What a scan has seen so far. -/
structure Scanned (cs : List Char) (s : AuthorityScan) : Prop where
  opening : cs.count '[' = s.opened.toNat
  closing : cs.count ']' = s.closed.toNat
  opened_of_closed : s.closed = true → s.opened = true
  atSign : s.atSign = true ↔ cs.getLast? = some '@'

theorem Scanned.count_le {cs : List Char} {s : AuthorityScan} (h : Scanned cs s) :
    cs.count ']' ≤ cs.count '[' := by
  rw [h.opening, h.closing]
  cases hclosed : s.closed with
  | false => exact Nat.zero_le _
  | true => rw [h.opened_of_closed hclosed]

/-- The first opening bracket, and the first closing one behind it, are remembered. There are no
others. -/
theorem AuthorityScan.step_cases {s s' : AuthorityScan} {c : Char} (h : s.step c = some s') :
    s'.atSign = decide (c = '@') ∧
      ((c = '[' ∧ s.opened = false ∧ s'.opened = true ∧ s'.closed = s.closed) ∨
        (c = ']' ∧ s.opened = true ∧ s.closed = false ∧ s'.opened = true ∧ s'.closed = true) ∨
        (c ≠ '[' ∧ c ≠ ']' ∧ s'.opened = s.opened ∧ s'.closed = s.closed)) := by
  unfold step at h
  simp only at h
  split_ifs at h <;> obtain rfl := Option.some.inj h <;> simp_all

theorem scanned_of_foldlM {cs : List Char} {s : AuthorityScan}
    (h : cs.foldlM AuthorityScan.step .start = some s) : Scanned cs s := by
  induction cs using List.reverseRecOn generalizing s with
  | nil =>
      obtain rfl := Option.some.inj h
      exact ⟨rfl, rfl, nofun, by simp [AuthorityScan.start]⟩
  | append_singleton cs c ih =>
      rw [List.foldlM_append] at h
      obtain ⟨before, hbefore, hstep⟩ := Option.bind_eq_some_iff.mp h
      obtain ⟨hopening, hclosing, hordered, -⟩ := ih hbefore
      obtain ⟨hat, hcases⟩ := AuthorityScan.step_cases (by simpa using hstep)
      have hlast : s.atSign = true ↔ (cs ++ [c]).getLast? = some '@' := by simp [hat]
      rcases hcases with ⟨rfl, hnone, hopened, hclosed⟩ | ⟨rfl, hone, hnone, hopened, hclosed⟩ |
        ⟨hopen, hclose, hopened, hclosed⟩
      · refine ⟨?_, ?_, fun _ => hopened, hlast⟩
        · rw [List.count_append, hopening, hnone, hopened]
          rfl
        · rw [List.count_append, hclosing, hclosed]
          rfl
      · refine ⟨?_, ?_, fun _ => hopened, hlast⟩
        · rw [List.count_append, hopening, hone, hopened]
          rfl
        · rw [List.count_append, hclosing, hnone, hclosed]
          rfl
      · refine ⟨?_, ?_, ?_, hlast⟩
        · rw [List.count_append, hopening, hopened, List.count_singleton,
            if_neg (by simpa using hopen), Nat.add_zero]
        · rw [List.count_append, hclosing, hclosed, List.count_singleton,
            if_neg (by simpa using hclose), Nat.add_zero]
        · rw [hopened, hclosed]
          exact hordered

section
variable {authority : List Char} (h : isAuthority authority = true)
include h

theorem exists_scan :
    ∃ s, authority.foldlM AuthorityScan.step .start = some s ∧ s.opened = s.closed ∧
      s.atSign = false := by
  unfold isAuthority at h
  split at h
  · next s hscan =>
      simp only [AuthorityScan.isDone, Bool.and_eq_true, Bool.not_eq_true', beq_iff_eq] at h
      exact ⟨s, hscan, h.1.1.1, h.1.2⟩
  · cases h

/-- There is one pair of brackets at most. -/
theorem count_brackets : authority.count '[' = authority.count ']' ∧ authority.count ']' ≤ 1 := by
  obtain ⟨s, hscan, hpaired, -⟩ := exists_scan h
  have hscanned := scanned_of_foldlM hscan
  rw [hscanned.opening, hscanned.closing, hpaired]
  exact ⟨rfl, Bool.toNat_le _⟩

theorem getLast?_ne : authority.getLast? ≠ some '@' := by
  obtain ⟨s, hscan, -, hat⟩ := exists_scan h
  rw [ne_eq, ← (scanned_of_foldlM hscan).atSign, hat]
  exact Bool.noConfusion

end

/-- No bracket is closed before it is opened. -/
theorem count_brackets_front {front back : List Char} (h : isAuthority (front ++ back) = true) :
    front.count ']' ≤ front.count '[' := by
  obtain ⟨s, hscan, -⟩ := exists_scan h
  rw [List.foldlM_append] at hscan
  obtain ⟨before, hbefore, -⟩ := Option.bind_eq_some_iff.mp hscan
  exact (scanned_of_foldlM hbefore).count_le

/-- Where a place begins with a bracket this is the only one, and another one closes it. -/
theorem exists_literal {user more : List Char} (h : isAuthority (user ++ '[' :: more) = true) :
    ∃ address rest, more = address ++ ']' :: rest ∧ '[' ∉ address ∧ ']' ∉ address := by
  obtain ⟨hpaired, hone⟩ := count_brackets h
  have huser := count_brackets_front h
  rw [List.count_append, List.count_append, List.count_cons_self,
    List.count_cons_of_ne (by decide)] at hpaired
  rw [List.count_append, List.count_cons_of_ne (by decide)] at hone
  have hclosing : ']' ∈ more := List.count_pos_iff.mp (by omega)
  have hopening : '[' ∉ more := List.count_eq_zero.mp (by omega)
  obtain ⟨address, rest, rfl, haddress⟩ := List.eq_append_cons_of_mem hclosing
  exact ⟨address, rest, rfl, fun hbracket => hopening (List.mem_append_left _ hbracket), haddress⟩

theorem host_of_name {place : List Char} (h : place.head? ≠ some '[') :
    Host place (place.takeWhile (· ≠ ':')) (place.dropWhile (· ≠ ':')) := by
  have hwhole := List.takeWhile_append_dropWhile (p := (· ≠ ':')) (l := place)
  have hcolon : ':' ∉ place.takeWhile (· ≠ ':') := by
    intro hmem
    simpa using List.mem_takeWhile_imp hmem
  have hopening : (place.takeWhile (· ≠ ':')).head? ≠ some '[' := by
    intro hhead
    refine h ?_
    rw [← hwhole, List.head?_append, hhead]
    rfl
  have hrest : ∀ c ∈ (place.dropWhile (· ≠ ':')).head?, c = ':' := by
    intro c hc
    have hnot := List.head?_dropWhile_not (· ≠ ':') place
    rw [Option.mem_def.mp hc] at hnot
    simpa using hnot
  have hnamed := Host.named hcolon hopening hrest
  rwa [hwhole] at hnamed

/-- Every authority that is accepted names a host. -/
theorem exists_names {authority : List Char} (h : isAuthority authority = true) :
    ∃ name port?, Names authority name port? := by
  obtain ⟨user, place, rfl, huser, hplace⟩ : ∃ user place, authority = user ++ place ∧
      (user = [] ∨ ∃ info, user = info ++ ['@']) ∧ '@' ∉ place := by
    by_cases hat : '@' ∈ authority
    · obtain ⟨info, place, rfl, hplace⟩ := exists_last_of_mem hat
      exact ⟨info ++ ['@'], place, by simp, .inr ⟨info, rfl⟩, hplace⟩
    · exact ⟨[], authority, rfl, .inl rfl, hat⟩
  obtain ⟨name, rest, hhost⟩ : ∃ name rest, Host place name rest := by
    by_cases hhead : place.head? = some '['
    · obtain ⟨more, rfl⟩ := List.head?_eq_some_iff.mp hhead
      obtain ⟨address, rest, rfl, hopening, hclosing⟩ := exists_literal h
      exact ⟨address, rest, .literal hopening hclosing⟩
    · exact ⟨_, _, host_of_name hhead⟩
  obtain ⟨port?, hport⟩ := exists_portText rest
  exact ⟨name, port?, .intro huser hplace hhost hport⟩

/-- The authority of a URI is an accepted one, or there is none. -/
theorem isAuthority_of_parse? {text : String} {uri : Uri} (h : parse? text = some uri) :
    isAuthority uri.authority = true := by
  unfold parse? at h
  split_ifs at h
  unfold ofChars? at h
  split at h
  · cases h
  · cases h
    rfl
  · -- A path alone has no authority.
    simp only at h
    split_ifs at h
    cases h
    rfl
  · split at h
    · split_ifs at h with haccepted
      cases h
      rw [Bool.and_eq_true] at haccepted
      exact haccepted.1
    · simp only at h
      split_ifs at h with haccepted
      cases h
      simp only [Bool.and_eq_true] at haccepted
      exact haccepted.1.2

/-! ## The port -/

theorem portText?_append_cons {front text : List Char} (h : ':' ∉ text) :
    portText? (front ++ ':' :: text) = some text := by
  simp [portText?, afterLast_append_cons h]

/-- Behind the last colon stands what no number has. -/
theorem portOf?_eq_none {front back : List Char} {c : Char} (hcolon : ':' ∉ c :: back)
    (hsign : c ≠ '+') (hdigit : c.isDigit = false) : portOf? (front ++ c :: back) = none := by
  by_cases hfront : ':' ∈ front
  · obtain ⟨before, between, rfl, hbetween⟩ := exists_last_of_mem hfront
    have htext : ':' ∉ between ++ c :: back := by
      simpa [hbetween] using hcolon
    have hmem : c ∈ between ++ c :: back := List.mem_append_right _ List.mem_cons_self
    rw [portOf?, List.append_assoc, List.cons_append, portText?_append_cons htext]
    exact word16?_eq_none_of_mem hmem hsign hdigit
  · have hnone : ':' ∉ front ++ c :: back := by
      simpa [hfront] using hcolon
    simp [portOf?, portText?, hnone]

/-- The port that is read of an authority is the one that its text spells. -/
theorem Names.portOf?_eq {authority name : List Char} {port? : Option (List Char)}
    (h : Names authority name port?) : portOf? authority = port? >>= word16? := by
  obtain @⟨user, place, _, rest, _, huser, hplace, hhost, hport⟩ := h
  cases hport with
  | @written between text htext =>
      have hfront : ∃ front, user ++ place = front ++ ':' :: text := by
        rcases hhost.cases with ⟨rfl, -⟩ | ⟨rfl, -⟩
        · exact ⟨user ++ ('[' :: name ++ ']' :: between), by simp⟩
        · exact ⟨user ++ (name ++ between), by simp⟩
      obtain ⟨front, hfront⟩ := hfront
      rw [hfront, portOf?, portText?_append_cons htext]
  | absent hcolon =>
      rcases hhost.cases with ⟨rfl, -⟩ | ⟨rfl, hname, -⟩
      · -- What follows the last colon has the bracket behind the address in it.
        have hback : ':' ∉ ']' :: rest := by simpa using hcolon
        rw [← List.append_assoc]
        exact portOf?_eq_none hback (by decide) (by decide)
      · have hplace : ':' ∉ name ++ rest := by simpa [hname] using hcolon
        rcases huser with rfl | ⟨info, rfl⟩
        · simp [portOf?, portText?, hname, hcolon]
        · have hback : ':' ∉ '@' :: (name ++ rest) := by simpa using hplace
          rw [List.append_assoc]
          exact portOf?_eq_none hback (by decide) (by decide)

end Uplink.Uri
