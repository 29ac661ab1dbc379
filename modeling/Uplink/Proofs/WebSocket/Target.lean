import Uplink.Proofs.Uri
import Uplink.WebSocket.Target

/-! # Dialing what is written

A URI names a host and perhaps a port. The host is dialed without the brackets of an address, and
the port is the one that is written, or 80 if none is. A text that is no port counts as none, and
a name loses a bracket at its end. -/

namespace Uplink.WebSocket

open Uri (Names Numeral)

/-! ## Hosts -/

/-- What is left of the name of a host. -/
def dialedHost (name : List Char) : List Char :=
  if name.getLast? = some ']' then name.dropLast else name

theorem dropWhile_eq_self {c : Char} {cs : List Char} (h : cs.head? ≠ some c) :
    cs.dropWhile (· = c) = cs := by
  cases cs with
  | nil => rfl
  | cons d cs =>
      have hne : d ≠ c := fun heq => h (heq ▸ rfl)
      exact List.dropWhile_cons_of_neg (by simpa using hne)

theorem trimBrackets_append_closing {front : List Char}
    (hopening : (front ++ [']']).head? ≠ some '[')
    (hclosing : front.getLast? ≠ some ']') : trimBrackets (front ++ [']']) = front := by
  have hreverse : (front ++ [']']).reverse.dropWhile (· = ']') = front.reverse := by
    rw [List.reverse_append, List.reverse_singleton, List.singleton_append,
      List.dropWhile_cons_of_pos (by decide)]
    exact dropWhile_eq_self (by rwa [List.head?_reverse])
  rw [trimBrackets, dropWhile_eq_self hopening, hreverse, List.reverse_reverse]

theorem trimBrackets_eq_self {name : List Char} (hopening : name.head? ≠ some '[')
    (hclosing : name.getLast? ≠ some ']') : trimBrackets name = name := by
  rw [trimBrackets, dropWhile_eq_self hopening,
    dropWhile_eq_self (by rwa [List.head?_reverse]), List.reverse_reverse]

theorem trimBrackets_literal {address : List Char} (hopening : '[' ∉ address)
    (hclosing : ']' ∉ address) : trimBrackets ('[' :: address ++ [']']) = address := by
  have hhead : (address ++ [']']).head? ≠ some '[' := by
    intro h
    simpa [hopening] using List.mem_of_head? h
  have hlast : address.getLast? ≠ some ']' := fun h => hclosing (List.mem_of_getLast? h)
  have hfirst : trimBrackets ('[' :: address ++ [']']) = trimBrackets (address ++ [']']) := by
    rw [trimBrackets, List.cons_append, List.dropWhile_cons_of_pos (by decide)]
    rfl
  rw [hfirst, trimBrackets_append_closing hhead hlast]

theorem trimBrackets_name {name : List Char} (hopening : name.head? ≠ some '[')
    (hcount : name.count ']' ≤ 1) : trimBrackets name = dialedHost name := by
  unfold dialedHost
  split_ifs with hlast
  · obtain ⟨front, rfl⟩ := List.getLast?_eq_some_iff.mp hlast
    have hnone : front.getLast? ≠ some ']' := by
      intro h
      have hpos := List.count_pos_iff.mpr (List.mem_of_getLast? h)
      rw [List.count_append, List.count_singleton_self] at hcount
      omega
    rw [trimBrackets_append_closing hopening hnone, List.dropLast_concat]
  · exact trimBrackets_eq_self hopening hlast

variable {authority name : List Char} {port? : Option (List Char)}

/-- The host of an authority is dialed by its name, but for a bracket at the end of that. -/
theorem trimBrackets_hostOf (haccepted : Uri.isAuthority authority = true)
    (h : Names authority name port?) : trimBrackets (Uri.hostOf authority) = dialedHost name := by
  obtain ⟨rest, hrest, -, ⟨hhost, hopening, hclosing⟩ | ⟨hhost, hopening⟩⟩ := h.cases
  · have hlast : name.getLast? ≠ some ']' := fun hlast => hclosing (List.mem_of_getLast? hlast)
    rw [hhost, trimBrackets_literal hopening hclosing, dialedHost, if_neg hlast]
  · have hsublist : name.Sublist authority := by
      rw [← hhost]
      refine (List.sublist_append_left _ rest).trans ?_
      rw [← hrest]
      exact (Uri.afterLast_isSuffix '@' authority).sublist
    rw [hhost]
    exact trimBrackets_name hopening
      (Nat.le_trans (hsublist.count_le ']') (Uri.count_brackets haccepted).2)

/-! ## Ports -/

/-- The port that is dialed for the text of one. -/
inductive Opens : Option (List Char) → UInt16 → Prop
  | written {text : List Char} {port : UInt16} (h : Numeral text port.toNat) :
      Opens (some text) port
  | misspelled {text : List Char} (h : ∀ n ≤ 65535, ¬Numeral text n) :
      Opens (some text) defaultPort
  | absent : Opens none defaultPort

theorem opens_iff {port : UInt16} :
    Opens port? port ↔ port = (port? >>= Uri.word16?).getD defaultPort := by
  cases port? with
  | none =>
      constructor
      · rintro ⟨⟩
        rfl
      · rintro rfl
        exact .absent
  | some text =>
      cases hword : Uri.word16? text with
      | none =>
          have hnot := Uri.word16?_eq_none_iff.mp hword
          constructor
          · rintro (hnumeral | -)
            · exact absurd hnumeral (hnot _ (Nat.le_of_lt_succ port.toNat_lt))
            · simp [hword]
          · rintro rfl
            simpa [hword] using Opens.misspelled hnot
      | some port' =>
          have hnumeral := Uri.word16?_eq_some_iff.mp hword
          constructor
          · rintro (hport | hnot)
            · simp [Uri.word16?_eq_some_iff.mpr hport]
            · exact absurd hnumeral (hnot _ (Nat.le_of_lt_succ port'.toNat_lt))
          · rintro rfl
            simpa [hword] using Opens.written hnumeral

/-! ## Targets -/

/-- Every authority but an empty one goes on behind its first `@`. -/
theorem namesPeer_eq (haccepted : Uri.isAuthority authority = true) (hne : authority ≠ []) :
    namesPeer authority = true := by
  unfold namesPeer
  split
  · simpa using hne
  · next at' place hdrop =>
      have hat : at' = '@' := by
        have hnot := List.head?_dropWhile_not (· ≠ '@') authority
        rw [hdrop] at hnot
        simpa using hnot
      have hwhole := List.takeWhile_append_dropWhile (p := (· ≠ '@')) (l := authority)
      rw [hdrop, hat] at hwhole
      cases place with
      | nil => exact absurd (hwhole ▸ List.getLast?_concat) (Uri.getLast?_ne haccepted)
      | cons c place => rfl

/-- Which target a URI has. -/
theorem ofUri_eq_ok_iff {uri : Uri} (haccepted : Uri.isAuthority uri.authority = true)
    (hnames : Names uri.authority name port?) (t : Target) :
    Target.ofUri uri = .ok t ↔
      uri.scheme = some plainScheme ∧ t.host ≠ [] ∧ t.host = dialedHost name ∧
        Opens port? t.port := by
  have hhost := trimBrackets_hostOf haccepted hnames
  have hport : (Uri.portOf? uri.authority).getD defaultPort =
      (port? >>= Uri.word16?).getD defaultPort := by rw [hnames.portOf?_eq]
  have hpeer : dialedHost name ≠ [] → namesPeer uri.authority = true := by
    intro hname
    refine namesPeer_eq haccepted fun hnone => hname ?_
    rw [← hhost, hnone]
    rfl
  rw [opens_iff, Target.ofUri, hhost, hport]
  constructor
  · intro h
    split_ifs at h with hdialed
    cases h
    simp only [Bool.and_eq_true, Bool.not_eq_true', List.isEmpty_eq_false_iff,
      decide_eq_true_eq] at hdialed
    exact ⟨hdialed.1.2, hdialed.2, rfl, rfl⟩
  · obtain ⟨host, port⟩ := t
    rintro ⟨hscheme, hne, rfl, rfl⟩
    refine if_pos ?_
    simp [hpeer hne, hscheme, hne]

theorem ofUri_error {uri : Uri} {e : ConnectError} (h : Target.ofUri uri = .error e) :
    e = .invalidUri := by
  unfold Target.ofUri at h
  simp only at h
  split_ifs at h
  cases h
  rfl

/-! ## The law -/

/-- Whom a URI with this scheme may lead to, where its authority names this host and perhaps this
port. -/
structure DialsAsWritten (scheme : Option (List Char)) (name : List Char)
    (port? : Option (List Char)) (result : Except ConnectError Target) : Prop where
  scheme_of_ok : ∀ t, result = .ok t → scheme = some ['w', 's']
  host_of_ok : ∀ t, result = .ok t → name ≠ [] ∧ t.host = name
  port_of_ok : ∀ t, result = .ok t →
    (port? = none → t.port = 80) ∧ ∀ text ∈ port?, Numeral text t.port.toNat
  /-- What is no port is not passed over. -/
  of_misspelled : ∀ text ∈ port?, (∀ n ≤ 65535, ¬Numeral text n) → result = .error .invalidUri

theorem dialedHost_eq_iff : dialedHost name = name ↔ name.getLast? ≠ some ']' := by
  unfold dialedHost
  split_ifs with hlast
  · refine iff_of_false (fun heq => ?_) (fun h => h hlast)
    have hlength := congrArg List.length heq
    have hpos := List.length_pos_of_mem (List.mem_of_getLast? hlast)
    rw [List.length_dropLast] at hlength
    omega
  · exact iff_of_true rfl hlast

theorem opens_spelled_iff {port : UInt16} (h : Opens port? port) :
    ((port? = none → port = 80) ∧ ∀ text ∈ port?, Numeral text port.toNat) ↔
      ∀ text ∈ port?, ∃ n ≤ 65535, Numeral text n := by
  cases h with
  | @written text _ h =>
      refine iff_of_true ⟨nofun, ?_⟩ ?_
      · rintro _ ⟨⟩
        exact h
      · rintro _ ⟨⟩
        exact ⟨_, Nat.le_of_lt_succ port.toNat_lt, h⟩
  | @misspelled text hnot =>
      refine iff_of_false (fun hport => ?_) (fun hspelled => ?_)
      · exact hnot _ (by decide) (hport.2 text rfl)
      · obtain ⟨n, hn, hnumeral⟩ := hspelled text rfl
        exact hnot n hn hnumeral
  | absent => exact iff_of_true ⟨fun _ => rfl, nofun⟩ nofun

theorem dialsAsWritten_iff {uri : Uri} (haccepted : Uri.isAuthority uri.authority = true)
    (hnames : Names uri.authority name port?) :
    DialsAsWritten uri.scheme name port? (Target.ofUri uri) ↔
      ((∃ t, Target.ofUri uri = .ok t) →
        name.getLast? ≠ some ']' ∧ ∀ text ∈ port?, ∃ n ≤ 65535, Numeral text n) := by
  have hok := ofUri_eq_ok_iff haccepted hnames
  constructor
  · rintro hdials ⟨t, ht⟩
    obtain ⟨-, -, hhost, hopens⟩ := (hok t).mp ht
    constructor
    · exact dialedHost_eq_iff.mp (hhost.symm.trans (hdials.host_of_ok t ht).2)
    · exact (opens_spelled_iff hopens).mp (hdials.port_of_ok t ht)
  · intro hlaw
    refine ⟨fun t ht => ((hok t).mp ht).1, fun t ht => ?_, fun t ht => ?_, ?_⟩
    · obtain ⟨-, hne, hhost, -⟩ := (hok t).mp ht
      rw [dialedHost_eq_iff.mpr (hlaw ⟨t, ht⟩).1] at hhost
      exact ⟨hhost ▸ hne, hhost⟩
    · obtain ⟨-, -, -, hopens⟩ := (hok t).mp ht
      exact (opens_spelled_iff hopens).mpr (hlaw ⟨t, ht⟩).2
    · intro text htext hnot
      cases hresult : Target.ofUri uri with
      | error e => rw [ofUri_error hresult]
      | ok t =>
          obtain ⟨n, hn, hnumeral⟩ := (hlaw ⟨t, hresult⟩).2 text htext
          exact absurd hnumeral (hnot n hn)

/-- The authority of an accepted URI names one host, and one text of a port or none. A URI that is
dialed leads there exactly if the text spells a number of sixteen bits and the host does not end
with a bracket that belongs to no address. Otherwise the bracket is lost, and the port is 80. A URI
is dialed exactly if its scheme is the plain one and something is left of the host. All others are
refused as invalid. -/
theorem dials_as_written_iff {text : String} {uri : Uri} (h : Uri.parse? text = some uri) :
    ∃ name port?, Names uri.authority name port? ∧
      (∀ name' port?', Names uri.authority name' port?' → name' = name ∧ port?' = port?) ∧
      (DialsAsWritten uri.scheme name port? (Target.parse text) ↔
        ((∃ t, Target.parse text = .ok t) →
          name.getLast? ≠ some ']' ∧ ∀ text ∈ port?, ∃ n ≤ 65535, Numeral text n)) ∧
      (∀ t, Target.parse text = .ok t ↔
        uri.scheme = some ['w', 's'] ∧ t.host ≠ [] ∧ t.host = dialedHost name ∧
          Opens port? t.port) ∧
      ∀ e, Target.parse text = .error e → e = .invalidUri := by
  have haccepted := Uri.isAuthority_of_parse? h
  obtain ⟨name, port?, hnames⟩ := Uri.exists_names haccepted
  have hparse : Target.parse text = Target.ofUri uri := by rw [Target.parse, h]
  rw [hparse]
  exact ⟨name, port?, hnames, fun _ _ hother => hother.unique hnames,
    dialsAsWritten_iff haccepted hnames, ofUri_eq_ok_iff haccepted hnames, fun _ => ofUri_error⟩

/-- An address in brackets with a port of its own, behind user information. -/
theorem dials_literal_as_written :
    let authority := ['m', 'e', '@', '[', ':', ':', '1', ']', ':', '9', '0', '0', '0']
    let result := Target.parse "ws://me@[::1]:9000/"
    Uri.parse? "ws://me@[::1]:9000/" = some ⟨some ['w', 's'], authority, ['/']⟩ ∧
      Names authority [':', ':', '1'] (some ['9', '0', '0', '0']) ∧
      result = .ok ⟨[':', ':', '1'], 9000⟩ ∧
      DialsAsWritten (some ['w', 's']) [':', ':', '1'] (some ['9', '0', '0', '0']) result := by
  intro authority result
  have hparse : Uri.parse? "ws://me@[::1]:9000/" = some ⟨some ['w', 's'], authority, ['/']⟩ := by
    decide +kernel
  have hhost : Uri.Host ('[' :: [':', ':', '1'] ++ ']' :: [':', '9', '0', '0', '0'])
      [':', ':', '1'] [':', '9', '0', '0', '0'] := .literal (by decide) (by decide)
  have hport : Uri.PortText ([] ++ ':' :: ['9', '0', '0', '0']) (some ['9', '0', '0', '0']) :=
    .written (by decide)
  have hnames : Names authority [':', ':', '1'] (some ['9', '0', '0', '0']) :=
    .intro (.inr ⟨['m', 'e'], rfl⟩) (by decide) hhost hport
  have htarget : result = .ok ⟨[':', ':', '1'], 9000⟩ := by decide +kernel
  obtain ⟨name, port?, -, hunique, hlaw, -⟩ := dials_as_written_iff hparse
  obtain ⟨rfl, rfl⟩ := hunique _ _ hnames
  refine ⟨hparse, hnames, htarget, hlaw.mpr fun _ => ⟨by decide, ?_⟩⟩
  rintro _ ⟨⟩
  exact ⟨9000, by decide, .plain (by decide) (List.all_eq_true.mp rfl)⟩

/-- A text that is beyond all ports stands for port 80. -/
theorem dials_misspelled_port :
    let authority := ['1', '0', '.', '0', '.', '0', '.', '1', ':', '9', '9', '9', '9', '9']
    let name := ['1', '0', '.', '0', '.', '0', '.', '1']
    let result := Target.parse "ws://10.0.0.1:99999/"
    Uri.parse? "ws://10.0.0.1:99999/" = some ⟨some ['w', 's'], authority, ['/']⟩ ∧
      Names authority name (some ['9', '9', '9', '9', '9']) ∧
      (∀ n ≤ 65535, ¬Numeral ['9', '9', '9', '9', '9'] n) ∧ result = .ok ⟨name, 80⟩ ∧
      ¬DialsAsWritten (some ['w', 's']) name (some ['9', '9', '9', '9', '9']) result := by
  intro authority name result
  have hhost : Uri.Host (name ++ ':' :: ['9', '9', '9', '9', '9']) name
      [':', '9', '9', '9', '9', '9'] :=
    .named (by decide) (by decide) fun _ hc => (Option.some.inj hc).symm
  have hport : Uri.PortText ([] ++ ':' :: ['9', '9', '9', '9', '9'])
      (some ['9', '9', '9', '9', '9']) := .written (by decide)
  have hmisspelled : ∀ n ≤ 65535, ¬Numeral ['9', '9', '9', '9', '9'] n :=
    Uri.word16?_eq_none_iff.mp (by decide)
  have htarget : result = .ok ⟨name, 80⟩ := by decide +kernel
  refine ⟨by decide +kernel, .intro (.inl rfl) (by decide) hhost hport, hmisspelled, htarget, ?_⟩
  intro hdials
  have hrefused := hdials.of_misspelled _ rfl hmisspelled
  rw [htarget] at hrefused
  cases hrefused

/-- A bracket that opens in the user information may close in the host. -/
example :
    Target.parse "ws://[@10.0.0.1]/" = .ok ⟨['1', '0', '.', '0', '.', '0', '.', '1'], 80⟩ := by
  decide +kernel

end Uplink.WebSocket
