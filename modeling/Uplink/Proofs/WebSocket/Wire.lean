import Mathlib.Algebra.Ring.Nat
import Mathlib.Tactic.SplitIfs
import Uplink.WebSocket.Connection

/-! # Frames on the wire

A peer writes its frames without a mask, one behind the other. In whatever pieces their octets
arrive, the client takes the same frames out of them. -/

namespace Uplink.WebSocket

/-! ## Numbers -/

/-- The last so many digits of a number in base 256, the highest first. -/
def digits : Nat → Nat → Octets
  | 0, _ => []
  | count + 1, n => digits count (n / 256) ++ [n.toUInt8]

@[simp] theorem length_digits (count n : Nat) : (digits count n).length = count := by
  induction count generalizing n with
  | zero => rfl
  | succ count ih => simp [digits, ih]

theorem bigEndian_concat (octets : Octets) (b : UInt8) :
    bigEndian (octets ++ [b]) = bigEndian octets * 256 + b.toNat := by
  simp [bigEndian, List.foldl_append]

theorem bigEndian_digits {count n : Nat} (h : n < 256 ^ count) :
    bigEndian (digits count n) = n := by
  induction count generalizing n with
  | zero =>
      have hn : n = 0 := by simpa using h
      rw [hn]
      rfl
  | succ count ih =>
      have hhigh : n / 256 < 256 ^ count :=
        Nat.div_lt_of_lt_mul (by rwa [Nat.pow_succ, Nat.mul_comm] at h)
      rw [digits, bigEndian_concat, ih hhigh, Nat.toUInt8, UInt8.toNat_ofNat']
      omega

theorem takeExactly?_append (front rest : Octets) :
    takeExactly? front.length (front ++ rest) = some (front, rest) := by
  simp [takeExactly?]

theorem takeExactly?_of_lt {n : Nat} {octets : Octets} (h : octets.length < n) :
    takeExactly? n octets = none := by
  simp [takeExactly?, h]

/-! ## Headers -/

def Opcode.number : Opcode → UInt8
  | .continuation => 0
  | .text => 1
  | .binary => 2
  | .close => 8
  | .ping => 9
  | .pong => 10

/-- The seven bits for a length. -/
def shortLength (length : Nat) : Nat :=
  if length < 126 then length else if length < 0x10000 then 126 else 127

/-- The digits of a length that seven bits have no room for. -/
def longLength (length : Nat) : Octets :=
  if length < 126 then [] else if length < 0x10000 then digits 2 length else digits 8 length

theorem shortLength_lt (length : Nat) : shortLength length < 128 := by
  unfold shortLength
  split_ifs <;> omega

/-- A length in seven bits is read back, and is not taken for a mask. -/
theorem seven_bits : ∀ n < 128, (n.toUInt8 &&& 0x7F).toNat = n ∧ n.toUInt8 &&& 0x80 = 0 := by
  decide

theorem readLength?_append {length : Nat} (h : length < 256 ^ 8) (rest : Octets) :
    readLength? (shortLength length) (longLength length ++ rest) = some (length, rest) := by
  have hdigits (count : Nat) (hcount : length < 256 ^ count) :
      (takeExactly? count (digits count length ++ rest)).map
        (fun parts => (bigEndian parts.1, parts.2)) = some (length, rest) := by
    have htake := takeExactly?_append (digits count length) rest
    rw [length_digits] at htake
    rw [htake, Option.map_some, bigEndian_digits hcount]
  unfold readLength? shortLength longLength
  split_ifs
  any_goals omega
  · rfl
  · exact hdigits 2 (by omega)
  · exact hdigits 8 h

theorem readLength?_of_lt {length : Nat} {octets : Octets}
    (h : octets.length < (longLength length).length) :
    readLength? (shortLength length) octets = none := by
  unfold readLength? shortLength
  unfold longLength at h
  split_ifs at h ⊢
  any_goals omega
  · exact absurd h (Nat.not_lt_zero _)
  all_goals
    rw [length_digits] at h
    rw [takeExactly?_of_lt h]
    rfl

/-- The first octet of a frame that stands for itself. -/
def firstOctet (opcode : Opcode) : UInt8 :=
  0x80 ||| opcode.number

theorem firstOctet_bits (opcode : Opcode) :
    Opcode.ofNat? (firstOctet opcode &&& 0x0F).toNat = some opcode ∧
      firstOctet opcode &&& 0x80 ≠ 0 ∧ firstOctet opcode &&& 0x70 = 0 := by
  cases opcode <;> decide

namespace Frame

/-- The octets in front of a payload that is not masked. -/
def head (frame : Frame) : Octets :=
  firstOctet frame.header.opcode :: (shortLength frame.payload.length).toUInt8 ::
    longLength frame.payload.length

/-- A frame as a peer writes it. -/
def wire (frame : Frame) : Octets :=
  frame.head ++ frame.payload

/-- A frame that a client takes: it stands for itself, and is not too long. -/
structure IsWhole (frame : Frame) : Prop where
  eq_whole : frame = .whole frame.header.opcode frame.payload
  length_le : frame.payload.length ≤ maxPayloadLength

theorem IsWhole.header_length {frame : Frame} (h : frame.IsWhole) :
    frame.header.length = frame.payload.length :=
  congrArg (fun f => f.header.length) h.eq_whole

end Frame

variable {frame : Frame} {frames : List Frame} {octets more : Octets}

theorem scanHeader_append (h : frame.IsWhole) (rest : Octets) :
    scanHeader (frame.head ++ rest) = .header frame.header rest := by
  obtain ⟨hseven, hmask⟩ := seven_bits _ (shortLength_lt frame.payload.length)
  obtain ⟨hopcode, hfinal, hreserved⟩ := firstOctet_bits frame.header.opcode
  have hlength : frame.payload.length < 256 ^ 8 := Nat.lt_of_le_of_lt h.length_le (by decide)
  have hheader : frame.header = ⟨true, false, frame.header.opcode, false, frame.payload.length⟩ :=
    congrArg Frame.header h.eq_whole
  simp only [Frame.head, List.cons_append, scanHeader, hseven, hmask, hopcode, hreserved,
    readLength?_append hlength]
  rw [hheader]
  simp [takeExactly?, hfinal]

/-- A header that has not come to its end is not read. -/
theorem scanHeader_of_lt {left : Octets} (h : frame.head = octets ++ left)
    (hlt : octets.length < frame.head.length) : scanHeader octets = .incomplete := by
  match octets with
  | [] | [_] => rfl
  | first :: second :: octets =>
      simp only [Frame.head, List.cons_append, List.cons.injEq] at h
      obtain ⟨-, rfl, hlong⟩ := h
      obtain ⟨hseven, -⟩ := seven_bits _ (shortLength_lt frame.payload.length)
      have hshort : octets.length < (longLength frame.payload.length).length := by
        simpa [Frame.head] using hlt
      simp [scanHeader, hseven, readLength?_of_lt hshort]

/-! ## Streams of frames -/

/-- The octets behind what was used are those of these frames. The header of the first one may have
been used already. -/
def Spells : Option Header → Octets → List Frame → Prop
  | none, octets, frames => octets = frames.flatMap Frame.wire
  | some header, octets, frames =>
    ∃ frame rest, frames = frame :: rest ∧ header = frame.header ∧
      octets = frame.payload ++ rest.flatMap Frame.wire

/-- Octets of one more frame go behind all others. -/
theorem Spells.concat {header? : Option Header} (h : Spells header? octets frames) :
    Spells header? (octets ++ frame.wire) (frames ++ [frame]) := by
  cases header? with
  | none =>
      change octets = frames.flatMap Frame.wire at h
      change octets ++ frame.wire = (frames ++ [frame]).flatMap Frame.wire
      simp [h]
  | some header =>
      obtain ⟨first, rest, rfl, rfl, rfl⟩ := h
      exact ⟨first, rest ++ [frame], rfl, rfl, by simp⟩

/-- Of a run of octets in front of others either all have arrived, or some are still to come. -/
theorem arrived_or_missing {part tail : Octets} (h : octets ++ more = part ++ tail) :
    (∃ left, octets = part ++ left ∧ left ++ more = tail) ∨
      octets.length < part.length ∧ tail.length < more.length ∧ ∃ left, part = octets ++ left := by
  rcases List.append_eq_append_iff.mp h with ⟨left, hpart, hmore⟩ | ⟨left, hoctets, htail⟩
  · cases left with
    | nil => exact .inl ⟨[], by simpa using hpart.symm, hmore⟩
    | cons b left =>
        refine .inr ⟨?_, ?_, b :: left, hpart⟩
        · rw [hpart, List.length_append, List.length_cons]
          omega
        · rw [hmore, List.length_append, List.length_cons]
          omega
  · exact .inl ⟨left, hoctets, htail.symm⟩

namespace Connection

/-- What taking a frame comes to while octets of `frames` come in and `more` of them are still to
come: the first frame if it is there in whole, and nothing otherwise. -/
inductive Takes (c : Connection) (more : Octets) : List Frame → Prop
  | frame {frame rest inbox}
      (htake : c.takeFrame = (.frame frame, { c with header := none, inbox }))
      (hrest : inbox ++ more = rest.flatMap Frame.wire) : Takes c more (frame :: rest)
  | incomplete {frames header inbox}
      (htake : c.takeFrame = (.incomplete, { c with header, inbox }))
      (hspells : Spells header (inbox ++ more) frames)
      (hmissing : ∀ frame rest, frames = frame :: rest →
        (rest.flatMap Frame.wire).length < more.length) : Takes c more frames

variable {c : Connection}

/-- Taking a frame whose header is known. -/
theorem takes_payload {rest : List Frame} (hframe : frame.IsWhole)
    (hheader : c.header = some frame.header)
    (hoctets : c.inbox ++ more = frame.payload ++ rest.flatMap Frame.wire) :
    c.Takes more (frame :: rest) := by
  have hbound : ¬maxPayloadLength < frame.header.length := by
    rw [hframe.header_length]
    exact Nat.not_lt.mpr hframe.length_le
  rcases arrived_or_missing hoctets with ⟨inbox, hinbox, hrest⟩ | ⟨hshort, hlonger, -⟩
  · have htake : takeExactly? frame.header.length c.inbox = some (frame.payload, inbox) := by
      rw [hinbox, hframe.header_length, takeExactly?_append]
    refine .frame ?_ hrest
    rw [takeFrame, hheader]
    simp only [hbound, if_false, htake]
  · have htake : takeExactly? frame.header.length c.inbox = none := by
      rw [hframe.header_length, takeExactly?_of_lt hshort]
    have hspells : Spells (some frame.header) (c.inbox ++ more) (frame :: rest) :=
      ⟨frame, rest, rfl, rfl, hoctets⟩
    refine .incomplete ?_ hspells ?_
    · rw [takeFrame, hheader]
      simp only [hbound, if_false, htake]
      rw [← hheader]
    · rintro _ _ ⟨⟩
      exact hlonger

/-- A header that was just read is as good as one that was known. -/
theorem takeFrame_of_header {header : Header} {left : Octets} (hheader : c.header = none)
    (hscan : scanHeader c.inbox = .header header left) :
    c.takeFrame = { c with header := some header, inbox := left }.takeFrame := by
  simp only [takeFrame, hheader, hscan]

theorem takes_of_spells (hframes : ∀ frame ∈ frames, frame.IsWhole)
    (h : Spells c.header (c.inbox ++ more) frames) : c.Takes more frames := by
  cases hheader : c.header with
  | some header =>
      rw [hheader] at h
      obtain ⟨frame, rest, rfl, rfl, hoctets⟩ := h
      exact takes_payload (hframes _ List.mem_cons_self) hheader hoctets
  | none =>
      rw [hheader] at h
      change c.inbox ++ more = _ at h
      cases frames with
      | nil =>
          obtain ⟨hinbox, hmore⟩ := List.append_eq_nil_iff.mp h
          have hspells : Spells none (c.inbox ++ more) [] := h
          refine .incomplete ?_ hspells nofun
          rw [takeFrame, hheader, hinbox]
          simp only [scanHeader]
          rw [← hheader, ← hinbox]
      | cons frame rest =>
          have hframe := hframes _ List.mem_cons_self
          rw [List.flatMap_cons, Frame.wire, List.append_assoc] at h
          rcases arrived_or_missing h with ⟨left, hinbox, hrest⟩ | ⟨hshort, hlonger, left, hhead⟩
          · have hscan : scanHeader c.inbox = .header frame.header left := by
              rw [hinbox, scanHeader_append hframe]
            cases takes_payload (c := { c with header := some frame.header, inbox := left })
                hframe rfl hrest with
            | frame htake hrest =>
                exact .frame ((takeFrame_of_header hheader hscan).trans htake) hrest
            | incomplete htake hspells hmissing =>
                exact .incomplete ((takeFrame_of_header hheader hscan).trans htake) hspells hmissing
          · have hspells : Spells none (c.inbox ++ more) (frame :: rest) := by
              rw [h, ← List.append_assoc]
              rfl
            refine .incomplete ?_ hspells ?_
            · rw [takeFrame, hheader]
              simp only [scanHeader_of_lt hhead hshort]
              rw [← hheader]
            · rintro _ _ ⟨⟩
              exact Nat.lt_of_le_of_lt (by simp) hlonger

end Connection

end Uplink.WebSocket
