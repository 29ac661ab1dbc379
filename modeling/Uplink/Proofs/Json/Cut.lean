import Uplink.Proofs.Json.RoundTrip

/-! # No beginning of an object is an object

A token is read from its own octets alone, but for a number, which the octet behind it ends. So
the tokens of a text stay the first ones when something is appended, and the end of an object is
the end of its document: only blanks can follow it, and only blanks can be cut off. -/

namespace Uplink.Json

/-! ## What a token is read from -/

/-- The octets `rest'` end a number where `rest` does: they start alike, or with a blank, or there
are none. -/
def Meets (rest rest' : Octets) : Prop :=
  ∀ b ∈ rest'.head?, isBlank b = true ∨ b ∈ rest.head?

theorem meets_nil (rest : Octets) : Meets rest [] :=
  nofun

/-- Behind the same octets, everything is met as before. -/
theorem Meets.append {rest rest' : Octets} (h : Meets rest rest') (front : Octets) :
    Meets (front ++ rest) (front ++ rest') := by
  cases front with
  | nil => exact h
  | cons b front => exact fun c hc => .inr hc

/-- What is appended to octets that do not end here comes too late. -/
theorem meets_append {rest : Octets} (h : rest ≠ []) (more : Octets) :
    Meets rest (rest ++ more) := by
  cases rest with
  | nil => exact absurd rfl h
  | cons b rest => exact fun c hc => .inr hc

theorem meets_of_append {rest more : Octets} : Meets (rest ++ more) rest := by
  cases rest with
  | nil => exact meets_nil more
  | cons b rest => exact fun c hc => .inr hc

/-- A scanner reads these octets as `a`, whatever follows, if only it is `After` them. The last of
them is no blank. -/
structure Reads {α : Type} (scan : Octets → Option (α × Octets)) (octets : Octets) (a : α)
    (After : Octets → Prop) : Prop where
  solid : ∀ b ∈ octets.getLast?, isBlank b = false
  scan_append : ∀ rest, After rest → scan (octets ++ rest) = some (a, rest)

theorem isBlank_iff {b : UInt8} :
    isBlank b = true ↔ b = 0x20 ∨ b = 0x09 ∨ b = 0x0A ∨ b = 0x0D := by
  simp [isBlank, or_assoc]

/-- A blank is no part of a number. -/
theorem digit?_of_isBlank {b : UInt8} (h : isBlank b = true) :
    digit? b = none ∧ b ≠ 0x2E ∧ b ≠ 0x65 ∧ b ≠ 0x45 := by
  rcases isBlank_iff.mp h with rfl | rfl | rfl | rfl <;> decide

theorem isBlank_of_digit? {b : UInt8} {d : Nat} (h : digit? b = some d) : isBlank b = false := by
  cases hblank : isBlank b with
  | false => rfl
  | true =>
      rw [(digit?_of_isBlank hblank).1] at h
      cases h

theorem solid_nil : ∀ b ∈ ([] : Octets).getLast?, isBlank b = false :=
  nofun

theorem solid_append {octets more : Octets} (h : ∀ b ∈ octets.getLast?, isBlank b = false)
    (hmore : ∀ b ∈ more.getLast?, isBlank b = false) :
    ∀ b ∈ (octets ++ more).getLast?, isBlank b = false := by
  intro b hb
  rw [List.getLast?_append, Option.mem_def, Option.or_eq_some_iff] at hb
  rcases hb with hb | ⟨-, hb⟩
  · exact hmore b hb
  · exact h b hb

theorem solid_cons {b : UInt8} {octets : Octets} (hb : isBlank b = false)
    (h : ∀ c ∈ octets.getLast?, isBlank c = false) :
    ∀ c ∈ (b :: octets).getLast?, isBlank c = false := by
  have hfirst : ∀ c ∈ [b].getLast?, isBlank c = false := by
    intro c hc
    rwa [← Option.some.inj hc]
  exact solid_append hfirst h

/-! ### Strings -/

/-- A literal goes up to its closing quote, and is what it is whatever comes then. -/
theorem scanString_of_quote {octets rest : Octets} {pieces : List Piece}
    (h : scanString octets = some (pieces, rest)) :
    ∃ front, octets = front ++ 0x22 :: rest ∧
      ∀ rest', scanString (front ++ 0x22 :: rest') = some (pieces, rest') := by
  fun_induction scanString octets generalizing pieces with
  | case2 rest₀ =>
      obtain ⟨rfl, rfl⟩ := Prod.mk.inj (Option.some.inj h)
      exact ⟨[], rfl, scanString_quote⟩
  | case4 a b d e octets n more rest₀ hmore hunit _ ih =>
      obtain ⟨rfl, rfl⟩ := Prod.mk.inj (Option.some.inj h)
      obtain ⟨front, rfl, hfront⟩ := ih hmore
      refine ⟨0x5C :: 0x75 :: a :: b :: d :: e :: front, rfl, ?_⟩
      intro rest'
      simp only [List.cons_append, scanString_unit hunit, hfront, Option.map_some]
  | case7 e octets hne c more rest₀ hmore hshort _ ih =>
      obtain ⟨rfl, rfl⟩ := Prod.mk.inj (Option.some.inj h)
      obtain ⟨front, rfl, hfront⟩ := ih hmore
      refine ⟨0x5C :: e :: front, rfl, ?_⟩
      intro rest'
      simp only [List.cons_append, scanString_short hshort hne, hfront, Option.map_some]
  | case10 b octets hquote hbackslash hspace more rest₀ hmore ih =>
      obtain ⟨rfl, rfl⟩ := Prod.mk.inj (Option.some.inj h)
      obtain ⟨front, rfl, hfront⟩ := ih hmore
      refine ⟨b :: front, rfl, ?_⟩
      intro rest'
      have hplain : IsPlain b := ⟨hquote, hbackslash, hspace⟩
      simp only [List.cons_append, scanString_octet hplain, hfront, Option.map_some]
  | _ => cases h

theorem reads_scanString {octets rest : Octets} {pieces : List Piece}
    (h : scanString octets = some (pieces, rest)) :
    ∃ front, octets = front ++ rest ∧ Reads scanString front pieces fun _ => True := by
  obtain ⟨front, rfl, hfront⟩ := scanString_of_quote h
  refine ⟨front ++ [0x22], by simp, ?_, ?_⟩
  · intro b hb
    obtain rfl : 0x22 = b := by simpa using hb
    rfl
  · intro rest' _
    simpa using hfront rest'

/-! ### Numbers -/

theorem reads_spanDigits {octets rest : Octets} {digits : List Nat}
    (h : spanDigits octets = (digits, rest)) :
    ∃ front, octets = front ++ rest ∧
      Reads (fun octets => some (spanDigits octets)) front digits (Meets rest) := by
  induction octets generalizing digits with
  | nil =>
      obtain ⟨rfl, rfl⟩ := Prod.mk.inj h
      refine ⟨[], rfl, solid_nil, ?_⟩
      intro rest' hrest'
      cases rest' with
      | nil => rfl
      | cons c rest' =>
          rcases hrest' c rfl with hc | hc
          · simp [spanDigits, (digit?_of_isBlank hc).1]
          · cases hc
  | cons b octets ih =>
      rw [spanDigits] at h
      split at h
      · next d hd =>
          obtain ⟨rfl, hrest⟩ := Prod.mk.inj h
          obtain ⟨front, rfl, hfront⟩ := ih (Prod.ext rfl hrest)
          refine ⟨b :: front, rfl, solid_cons (isBlank_of_digit? hd) hfront.solid, ?_⟩
          intro rest' hrest'
          have hscan := Option.some.inj (hfront.scan_append rest' hrest')
          simp [spanDigits, hd, hscan]
      · next hd =>
          obtain ⟨rfl, rfl⟩ := Prod.mk.inj h
          refine ⟨[], rfl, solid_nil, ?_⟩
          intro rest' hrest'
          cases rest' with
          | nil => rfl
          | cons c rest' =>
              have hc : digit? c = none := by
                rcases hrest' c rfl with hc | hc
                · exact (digit?_of_isBlank hc).1
                · rwa [← Option.some.inj hc]
              simp [spanDigits, hc]

theorem reads_scanWhole {octets rest : Octets} {digits : List Nat}
    (h : scanWhole octets = some (digits, rest)) :
    ∃ front, octets = front ++ rest ∧ front ≠ [] ∧
      Reads scanWhole front digits (Meets rest) := by
  cases octets with
  | nil => cases h
  | cons b octets =>
      rw [scanWhole] at h
      split at h
      · cases h
      · next hzero =>
          obtain ⟨rfl, rfl⟩ := Prod.mk.inj (Option.some.inj h)
          refine ⟨[b], rfl, List.cons_ne_nil _ _,
            solid_cons (isBlank_of_digit? hzero) solid_nil, ?_⟩
          intro rest' _
          simp [scanWhole, hzero]
      · next d hne hd =>
          obtain ⟨rfl, rfl⟩ := Prod.mk.inj (Option.some.inj h)
          have hspan : spanDigits octets = ((spanDigits octets).1, (spanDigits octets).2) := rfl
          obtain ⟨front, hfront, hreads⟩ := reads_spanDigits hspan
          refine ⟨b :: front, congrArg (b :: ·) hfront, List.cons_ne_nil _ _,
            solid_cons (isBlank_of_digit? hd) hreads.solid, ?_⟩
          intro rest' hrest'
          have hscan := Option.some.inj (hreads.scan_append rest' hrest')
          obtain ⟨d, rfl⟩ := Nat.exists_eq_succ_of_ne_zero hne
          simp [scanWhole, hd, hscan]

theorem scanFraction_eq_some_iff {octets rest : Octets} {digits : List Nat} :
    scanFraction octets = some (digits, rest) ↔
      (∃ more, octets = 0x2E :: more ∧ spanDigits more = (digits, rest) ∧ digits ≠ []) ∨
      (∀ b ∈ octets.head?, b ≠ 0x2E) ∧ digits = [] ∧ rest = octets := by
  cases octets with
  | nil => simp [scanFraction, @eq_comm _ [] digits, @eq_comm _ [] rest]
  | cons b more =>
      by_cases hb : b = 0x2E
      · subst hb
        cases hspan : spanDigits more with
        | mk found left => cases found <;> simp [scanFraction, hspan] <;> grind
      · simp [scanFraction, hb, @eq_comm _ [] digits, @eq_comm _ (b :: more) rest]

theorem reads_scanFraction {octets rest : Octets} {digits : List Nat}
    (h : scanFraction octets = some (digits, rest)) :
    ∃ front, octets = front ++ rest ∧ Reads scanFraction front digits (Meets rest) := by
  rcases scanFraction_eq_some_iff.mp h with ⟨more, rfl, hspan, hne⟩ | ⟨hpoint, rfl, rfl⟩
  · obtain ⟨front, rfl, hreads⟩ := reads_spanDigits hspan
    refine ⟨0x2E :: front, rfl, solid_cons (by decide) hreads.solid, ?_⟩
    intro rest' hrest'
    have hscan := Option.some.inj (hreads.scan_append rest' hrest')
    exact scanFraction_eq_some_iff.mpr (.inl ⟨front ++ rest', rfl, hscan, hne⟩)
  · refine ⟨[], rfl, solid_nil, ?_⟩
    intro rest' hrest'
    refine scanFraction_eq_some_iff.mpr (.inr ⟨?_, rfl, rfl⟩)
    intro b hb
    rcases hrest' b hb with hblank | hsame
    · exact (digit?_of_isBlank hblank).2.1
    · exact hpoint b hsame

theorem exists_sign (octets : Octets) :
    ∃ sign, octets = sign ++ (scanSign octets).2 ∧ (∀ b ∈ sign.getLast?, isBlank b = false) ∧
      ∀ rest, rest.head? = (scanSign octets).2.head? →
        scanSign (sign ++ rest) = ((scanSign octets).1, rest) := by
  cases octets with
  | nil =>
      refine ⟨[], rfl, solid_nil, ?_⟩
      intro rest hrest
      obtain rfl : rest = [] := List.head?_eq_none_iff.mp hrest
      rfl
  | cons b more =>
      by_cases hplus : b = 0x2B
      · subst hplus
        exact ⟨[0x2B], rfl, solid_cons (by decide) solid_nil, fun _ _ => rfl⟩
      · by_cases hminus : b = 0x2D
        · subst hminus
          exact ⟨[0x2D], rfl, solid_cons (by decide) solid_nil, fun _ _ => rfl⟩
        · have hnone (rest) : scanSign (b :: rest) = (false, b :: rest) := by
            simp [scanSign, hplus, hminus]
          rw [hnone]
          refine ⟨[], rfl, solid_nil, ?_⟩
          intro rest hrest
          obtain ⟨rest, rfl⟩ := List.head?_eq_some_iff.mp hrest
          exact hnone rest

theorem scanExponent_eq_some_iff {octets rest : Octets} {exponent : Option (Bool × List Nat)} :
    scanExponent octets = some (exponent, rest) ↔
      (∃ b more digits, octets = b :: more ∧ (b = 0x65 ∨ b = 0x45) ∧
        spanDigits (scanSign more).2 = (digits, rest) ∧ digits ≠ [] ∧
        exponent = some ((scanSign more).1, digits)) ∨
      (∀ b ∈ octets.head?, b ≠ 0x65 ∧ b ≠ 0x45) ∧ exponent = none ∧ rest = octets := by
  cases octets with
  | nil => simp [scanExponent, @eq_comm _ none exponent, @eq_comm _ [] rest]
  | cons b more =>
      by_cases hb : b = 0x65 ∨ b = 0x45
      · cases hspan : spanDigits (scanSign more).2 with
        | mk found left => cases found <;> simp [scanExponent, hspan, hb] <;> grind
      · simp [scanExponent, hb, @eq_comm _ none exponent, @eq_comm _ (b :: more) rest]
        grind

theorem reads_scanExponent {octets rest : Octets} {exponent : Option (Bool × List Nat)}
    (h : scanExponent octets = some (exponent, rest)) :
    ∃ front, octets = front ++ rest ∧ Reads scanExponent front exponent (Meets rest) := by
  rcases scanExponent_eq_some_iff.mp h with
    ⟨b, more, digits, rfl, hb, hspan, hne, rfl⟩ | ⟨hletter, rfl, rfl⟩
  · obtain ⟨front, hfront, hreads⟩ := reads_spanDigits hspan
    obtain ⟨sign, hsign, hsolid, hagain⟩ := exists_sign more
    have hnonempty : front ≠ [] := by
      rintro rfl
      have hnone := Option.some.inj (hreads.scan_append [] (meets_nil rest))
      exact hne (Prod.mk.inj hnone).1.symm
    refine ⟨b :: (sign ++ front), ?_, ?_, ?_⟩
    · rw [List.cons_append, List.append_assoc, ← hfront, ← hsign]
    · have hblank : isBlank b = false := by
        rcases hb with rfl | rfl <;> decide
      exact solid_cons hblank (solid_append hsolid hreads.solid)
    · intro rest' hrest'
      have hscan := Option.some.inj (hreads.scan_append rest' hrest')
      have hhead : (front ++ rest').head? = (scanSign more).2.head? := by
        obtain ⟨c, front, rfl⟩ := List.exists_cons_of_ne_nil hnonempty
        rw [hfront]
        rfl
      refine scanExponent_eq_some_iff.mpr (.inl ⟨b, sign ++ (front ++ rest'), digits, ?_, hb, ?_⟩)
      · simp
      · rw [hagain _ hhead]
        exact ⟨hscan, hne, rfl⟩
  · refine ⟨[], rfl, solid_nil, ?_⟩
    intro rest' hrest'
    refine scanExponent_eq_some_iff.mpr (.inr ⟨?_, rfl, rfl⟩)
    intro b hb
    rcases hrest' b hb with hblank | hsame
    · exact (digit?_of_isBlank hblank).2.2
    · exact hletter b hsame

/-- A number is read from its own octets and the one behind them. -/
theorem reads_scanMagnitude {negative : Bool} {octets rest : Octets} {literal : NumberLiteral}
    (h : scanMagnitude negative octets = some (literal, rest)) :
    ∃ front, octets = front ++ rest ∧ front ≠ [] ∧
      Reads (scanMagnitude negative) front literal (Meets rest) := by
  simp only [scanMagnitude, Option.bind_eq_bind, Option.bind_eq_some_iff, Prod.exists] at h
  obtain ⟨whole, _, hwhole, fraction, _, hfraction, exponent, _, hexponent, h⟩ := h
  obtain ⟨rfl, rfl⟩ := Prod.mk.inj (Option.some.inj h)
  obtain ⟨front₁, rfl, hne, hreads₁⟩ := reads_scanWhole hwhole
  obtain ⟨front₂, rfl, hreads₂⟩ := reads_scanFraction hfraction
  obtain ⟨front₃, rfl, hreads₃⟩ := reads_scanExponent hexponent
  refine ⟨front₁ ++ (front₂ ++ front₃), by simp, by simp [hne],
    solid_append hreads₁.solid (solid_append hreads₂.solid hreads₃.solid), ?_⟩
  intro rest' hrest'
  -- Each part is followed by the next one, or by what follows the number.
  have hafter₃ := hrest'.append front₃
  have hafter₂ := hafter₃.append front₂
  simp only [scanMagnitude, List.append_assoc, Option.bind_eq_bind,
    hreads₁.scan_append _ hafter₂, hreads₂.scan_append _ hafter₃, hreads₃.scan_append _ hrest',
    Option.bind_some]

/-! ### Tokens -/

/-- What may follow a token in place of `rest`: anything, unless it is a number. -/
def Token.After (token : Token) (rest rest' : Octets) : Prop :=
  (∃ literal, token = .number literal) → Meets rest rest'

theorem dropWord?_eq_some_iff {word octets rest : Octets} :
    dropWord? word octets = some rest ↔ octets = word ++ rest := by
  rw [dropWord?]
  constructor
  · intro h
    split at h
    · next hstarts =>
        obtain ⟨rest', rfl⟩ := List.isPrefixOf_iff_prefix.mp hstarts
        rw [← Option.some.inj h, List.drop_left]
    · cases h
  · rintro rfl
    have hstarts : word.isPrefixOf (word ++ rest) = true := by simp
    rw [if_pos hstarts, List.drop_left]

theorem solid_of_word? {b : UInt8} {word : Octets} {token : Token}
    (h : word? b = some (word, token)) : ∀ c ∈ word.getLast?, isBlank c = false := by
  unfold word? at h
  split_ifs at h <;> obtain ⟨rfl, -⟩ := Prod.mk.inj (Option.some.inj h) <;>
    rintro c ⟨⟩ <;> rfl

/-- Every token but a number is read from its own octets. -/
theorem reads_scanToken {b : UInt8} {octets rest : Octets} {token : Token}
    (h : scanToken b octets = some (token, rest)) :
    ∃ front, octets = front ++ rest ∧ Reads (scanToken b) front token (token.After rest) := by
  rw [scanToken] at h
  split at h
  · next token' hstructural =>
      obtain ⟨rfl, rfl⟩ := Prod.mk.inj (Option.some.inj h)
      refine ⟨[], rfl, solid_nil, ?_⟩
      intro rest' _
      simp [scanToken, hstructural]
  · next hstructural =>
      split at h
      · next word token' hword =>
          obtain ⟨rest₀, hdrop, h⟩ := Option.map_eq_some_iff.mp h
          obtain ⟨rfl, rfl⟩ := Prod.mk.inj h
          refine ⟨word, dropWord?_eq_some_iff.mp hdrop, solid_of_word? hword, ?_⟩
          intro rest' _
          have hdrop' : dropWord? word (word ++ rest') = some rest' :=
            dropWord?_eq_some_iff.mpr rfl
          simp [scanToken, hstructural, hword, hdrop']
      · next hword =>
          split_ifs at h with hquote hminus
          all_goals
            obtain ⟨⟨atom, rest₀⟩, hscan, h⟩ := Option.map_eq_some_iff.mp h
            obtain ⟨rfl, rfl⟩ := Prod.mk.inj h
          · obtain ⟨front, rfl, hreads⟩ := reads_scanString hscan
            refine ⟨front, rfl, hreads.solid, ?_⟩
            intro rest' _
            rw [scanToken, hstructural, hword]
            simp [hquote, hreads.scan_append rest' trivial]
          · obtain ⟨front, rfl, -, hreads⟩ := reads_scanMagnitude hscan
            refine ⟨front, rfl, hreads.solid, ?_⟩
            intro rest' hrest'
            have hafter := hreads.scan_append rest' (hrest' ⟨atom, rfl⟩)
            rw [scanToken, hstructural, hword]
            simp [hminus, hafter]
          · obtain ⟨front, hfront, hne, hreads⟩ := reads_scanMagnitude hscan
            -- The octet that is looked at first is the number's first digit.
            obtain ⟨b', front, rfl⟩ := List.exists_cons_of_ne_nil hne
            obtain ⟨rfl, rfl⟩ := List.cons.inj hfront
            refine ⟨front, rfl, ?_, ?_⟩
            · intro c hc
              apply hreads.solid c
              rw [List.getLast?_cons, Option.mem_def.mp hc]
              rfl
            · intro rest' hrest'
              have hafter := hreads.scan_append rest' (hrest' ⟨atom, rfl⟩)
              rw [List.cons_append] at hafter
              rw [scanToken, hstructural, hword]
              simp [hquote, hminus, hafter]

/-- With blanks behind it, a token is read as before. -/
theorem scanToken_append_blanks {b : UInt8} (octets : Octets) {blanks : Octets}
    (hblanks : ∀ c ∈ blanks, isBlank c = true) :
    scanToken b (octets ++ blanks) =
      (scanToken b octets).map fun scanned => (scanned.1, scanned.2 ++ blanks) := by
  cases h : scanToken b octets with
  | some scanned =>
      obtain ⟨token, rest⟩ := scanned
      obtain ⟨front, rfl, hreads⟩ := reads_scanToken h
      have hmeets : Meets rest (rest ++ blanks) := by
        cases rest with
        | nil =>
            intro c hc
            exact .inl (hblanks c (List.mem_of_mem_head? hc))
        | cons c rest => exact meets_append (List.cons_ne_nil c rest) blanks
      rw [List.append_assoc, hreads.scan_append _ fun _ => hmeets, Option.map_some]
  | none =>
      cases h' : scanToken b (octets ++ blanks) with
      | none => rfl
      | some scanned =>
          obtain ⟨token, rest⟩ := scanned
          obtain ⟨front, heq, hreads⟩ := reads_scanToken h'
          rcases List.append_eq_append_iff.mp heq with ⟨more, rfl, hmore⟩ | ⟨more, rfl, rfl⟩
          · -- The token would be the same without the blanks, or end with one of them.
            cases hlast : more.getLast? with
            | none =>
                obtain rfl := List.getLast?_eq_none_iff.mp hlast
                have hscan := hreads.scan_append [] fun _ => meets_nil rest
                rw [List.append_nil, List.append_nil, h] at hscan
                cases hscan
            | some c =>
                have hblank : isBlank c = true :=
                  hblanks c (hmore ▸ List.mem_append_left rest (List.mem_of_getLast? hlast))
                have hsolid : isBlank c = false :=
                  hreads.solid c (by rw [List.getLast?_append, hlast]; rfl)
                rw [hblank] at hsolid
                cases hsolid
          · rw [hreads.scan_append more fun _ => meets_of_append] at h
            cases h

/-! ## Tokens of a text and of its beginnings -/

theorem tokens?_blank {b : UInt8} (h : isBlank b = true) (rest : Octets) :
    tokens? (b :: rest) = tokens? rest := by
  rw [tokens?, if_pos h]

theorem tokens?_eq_none {b : UInt8} {rest : Octets} (hblank : isBlank b = false)
    (h : scanToken b rest = none) : tokens? (b :: rest) = none := by
  rw [tokens?, if_neg (by simp [hblank])]
  split
  · next h' =>
      rw [h] at h'
      cases h'
  · rfl

theorem tokens?_append_blanks (octets : Octets) {blanks : Octets}
    (hblanks : ∀ c ∈ blanks, isBlank c = true) :
    tokens? (octets ++ blanks) = tokens? octets := by
  fun_induction tokens? octets with
  | case1 =>
      induction blanks with
      | nil => rw [List.nil_append, tokens?]
      | cons c blanks ih =>
          obtain ⟨hc, hblanks⟩ := List.forall_mem_cons.mp hblanks
          rw [List.nil_append, tokens?_blank hc]
          exact ih hblanks
  | case2 b rest hblank ih => rw [List.cons_append, tokens?_blank hblank, ih]
  | case3 b rest hblank token rest' hscan hlt ih =>
      have hscan' : scanToken b (rest ++ blanks) = some (token, rest' ++ blanks) := by
        rw [scanToken_append_blanks rest hblanks, hscan, Option.map_some]
      rw [List.cons_append, tokens?_cons (by simpa using hblank) hscan', ih]
  | case4 b rest hblank hscan =>
      have hscan' : scanToken b (rest ++ blanks) = none := by
        rw [scanToken_append_blanks rest hblanks, hscan, Option.map_none]
      rw [List.cons_append, tokens?_eq_none (by simpa using hblank) hscan']

theorem tokens?_eq_nil_iff {octets : Octets} :
    tokens? octets = some [] ↔ ∀ b ∈ octets, isBlank b = true := by
  constructor
  · intro h
    fun_induction tokens? octets with
    | case1 => nofun
    | case2 b rest hblank ih => exact List.forall_mem_cons.mpr ⟨hblank, ih h⟩
    | case3 => simp at h
    | case4 => cases h
  · intro h
    have hnone := tokens?_append_blanks [] h
    rwa [List.nil_append, tokens?] at hnone

/-- What is appended to a text that does not end in a number leaves its tokens as they are. -/
theorem tokens?_append {octets : Octets} {tokens : List Token} (h : tokens? octets = some tokens)
    (hlast : ∀ literal, tokens.getLast? ≠ some (.number literal)) (more : Octets) :
    tokens? (octets ++ more) = (tokens? more).map (tokens ++ ·) := by
  fun_induction tokens? octets generalizing tokens with
  | case1 =>
      obtain rfl := Option.some.inj h
      cases hmore : tokens? more <;> simp [hmore]
  | case2 b rest hblank ih => rw [List.cons_append, tokens?_blank hblank, ih h hlast]
  | case3 b rest hblank token rest' hscan hlt ih =>
      obtain ⟨others, hothers, rfl⟩ := Option.map_eq_some_iff.mp h
      obtain ⟨front, rfl, hreads⟩ := reads_scanToken hscan
      have hafter : token.After rest' (rest' ++ more) := by
        rintro ⟨literal, rfl⟩
        -- A number is not the last token, so that there are octets behind it.
        apply meets_append
        rintro rfl
        rw [tokens?] at hothers
        obtain rfl := Option.some.inj hothers
        exact hlast literal rfl
      have hscan' := hreads.scan_append _ hafter
      have hlast' : ∀ literal, others.getLast? ≠ some (.number literal) := by
        intro literal hliteral
        apply hlast literal
        rw [List.getLast?_cons, hliteral]
        rfl
      rw [List.cons_append, List.append_assoc, tokens?_cons (by simpa using hblank) hscan',
        ih hothers hlast', Option.map_map]
      rfl
  | case4 => cases h

/-! ## Documents and their beginnings -/

theorem ofTokens?_eq_some_iff {tokens : List Token} {node : Node} :
    Node.ofTokens? tokens = some node ↔
      tokens.foldlM Position.step (.value []) = some (.after node []) := by
  rw [Node.ofTokens?, Option.bind_eq_bind, Option.bind_eq_some_iff]
  constructor
  · rintro ⟨position, hposition, hfinish⟩
    unfold Position.finish? at hfinish
    split at hfinish
    · rw [hposition, Option.some.inj hfinish]
    · cases hfinish
  · intro h
    exact ⟨.after node [], h, rfl⟩

/-- The end of a document is reached once. -/
theorem eq_nil_of_ofTokens? {tokens more : List Token} {node node' : Node}
    (h : Node.ofTokens? tokens = some node) (h' : Node.ofTokens? (tokens ++ more) = some node') :
    more = [] := by
  rw [ofTokens?_eq_some_iff] at h h'
  rw [List.foldlM_append, h, Option.bind_eq_bind, Option.bind_some] at h'
  cases more with
  | nil => rfl
  | cons token more => cases h'

/-- A number token is a value of its own, whatever stands around it. -/
theorem node_of_step_number {position : Position} {literal : NumberLiteral} {node : Node}
    {frames : List Frame} (h : position.step (.number literal) = some (.after node frames)) :
    node = .number literal := by
  cases position with
  | value frames' => exact (Position.after.inj (Option.some.inj h)).1.symm
  | firstItem frames' => exact (Position.after.inj (Option.some.inj h)).1.symm
  | firstName frames' => cases h
  | name members frames' => cases h
  | colon members name frames' => cases h
  | after node' frames' =>
      rcases frames' with _ | ⟨items | members, frames'⟩ <;> cases h

/-- An object does not end in a number. -/
theorem getLast?_of_ofTokens? {tokens : List Token} {members : List (List Piece × Node)}
    (h : Node.ofTokens? tokens = some (.object members)) (literal : NumberLiteral) :
    tokens.getLast? ≠ some (.number literal) := by
  intro hlast
  obtain ⟨front, rfl⟩ := List.getLast?_eq_some_iff.mp hlast
  rw [ofTokens?_eq_some_iff, List.foldlM_append, Option.bind_eq_bind,
    Option.bind_eq_some_iff] at h
  obtain ⟨position, -, hstep⟩ := h
  rw [List.foldlM_cons, Option.bind_eq_bind, Option.bind_eq_some_iff] at hstep
  obtain ⟨position', hstep, hend⟩ := hstep
  obtain rfl := Option.some.inj hend
  cases node_of_step_number hstep

theorem parse?_eq_some_iff {octets : Octets} {node : Node} :
    Node.parse? octets = some node ↔
      ∃ tokens, tokens? octets = some tokens ∧ Node.ofTokens? tokens = some node := by
  rw [Node.parse?, Option.bind_eq_bind, Option.bind_eq_some_iff]

/-- What follows an object in a longer document is blank. -/
theorem blank_of_parse? {octets more : Octets} {members : List (List Piece × Node)} {node : Node}
    (h : Node.parse? octets = some (.object members))
    (h' : Node.parse? (octets ++ more) = some node) : ∀ b ∈ more, isBlank b = true := by
  obtain ⟨tokens, htokens, hobject⟩ := parse?_eq_some_iff.mp h
  obtain ⟨all, hall, hnode⟩ := parse?_eq_some_iff.mp h'
  rw [tokens?_append htokens (getLast?_of_ofTokens? hobject)] at hall
  obtain ⟨others, hothers, rfl⟩ := Option.map_eq_some_iff.mp hall
  obtain rfl := eq_nil_of_ofTokens? hobject hnode
  exact tokens?_eq_nil_iff.mp hothers

theorem parse?_append_blanks (octets : Octets) {blanks : Octets}
    (hblanks : ∀ c ∈ blanks, isBlank c = true) :
    Node.parse? (octets ++ blanks) = Node.parse? octets := by
  rw [Node.parse?, tokens?_append_blanks octets hblanks, Node.parse?]

end Uplink.Json
