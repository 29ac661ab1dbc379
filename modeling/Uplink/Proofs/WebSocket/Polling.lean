import Uplink.Proofs.Message
import Uplink.Proofs.WebSocket.Wire
import Uplink.WebSocket.Client

/-! # What a client makes of frames

Each frame that has come in whole is reported by the next poll, in the order in which the peer
wrote them. -/

namespace Uplink.WebSocket

/-! ## Events of frames -/

/-- The longest run of characters at the front of a text that a message has room for. -/
structure IsLongestFitting (kept text : List Char) : Prop where
  isPrefix : kept <+: text
  length_le : (Utf8.encode kept).length ≤ maxMessageLength
  longest : ∀ more, more <+: text → (Utf8.encode more).length ≤ maxMessageLength → more <+: kept

theorem IsLongestFitting.eq_takeFitting {kept text : List Char} (h : IsLongestFitting kept text) :
    kept = Utf8.takeFitting maxMessageLength text :=
  List.IsPrefix.eq_of_length_le (Utf8.prefix_takeFitting h.isPrefix h.length_le)
    (h.longest _ (Utf8.takeFitting_isPrefix _ _) (Message.length_encode_takeFitting _ _)).length_le

theorem isLongestFitting_takeFitting (text : List Char) :
    IsLongestFitting (Utf8.takeFitting maxMessageLength text) text where
  isPrefix := Utf8.takeFitting_isPrefix _ _
  length_le := Message.length_encode_takeFitting _ _
  longest _ := Utf8.prefix_takeFitting

/-- What a client reports of a frame. -/
inductive Frame.Yields : Frame → LinkEvent → Prop
  /-- A text is cut behind its last character that fits. -/
  | text {text kept : List Char} {m : Message} (hkept : IsLongestFitting kept text)
      (hm : m.octets = Utf8.encode kept) : Yields (.whole .text (Utf8.encode text)) (.data m)
  | binary {payload : Octets} {m : Message} (hm : m.octets = payload.take maxMessageLength) :
      Yields (.whole .binary payload) (.data m)
  | ping (payload : Octets) : Yields (.whole .ping payload) .keepAlive
  | pong (payload : Octets) : Yields (.whole .pong payload) .keepAlive

/-- The most octets in a frame of a kind. -/
def Opcode.limit (opcode : Opcode) : Nat :=
  if opcode.isControl then maxControlLength else maxPayloadLength

/-- A frame that a client reports without an end of the link. -/
structure Frame.IsOrdinary (frame : Frame) : Prop where
  exists_yields : ∃ e, frame.Yields e
  length_le : frame.payload.length ≤ frame.header.opcode.limit

variable {frame : Frame} {e e' : LinkEvent}

theorem Frame.Yields.unique (h : frame.Yields e) (h' : frame.Yields e') : e = e' := by
  cases h with
  | @text text kept m hkept hm =>
      generalize hframe : Frame.whole .text _ = frame at h'
      cases h' with
      | text hkept' hm' =>
          have htext := Utf8.encode_inj (congrArg Frame.payload hframe)
          rw [htext] at hkept
          rw [hkept.eq_takeFitting] at hm
          rw [hkept'.eq_takeFitting] at hm'
          rw [Message.ext_octets (hm.trans hm'.symm)]
      | _ => cases hframe
  | @binary payload m hm =>
      generalize hframe : Frame.whole .binary _ = frame at h'
      cases h' with
      | binary hm' =>
          have hpayload := congrArg Frame.payload hframe
          change payload = _ at hpayload
          rw [hpayload] at hm
          rw [Message.ext_octets (hm.trans hm'.symm)]
      | _ => cases hframe
  | _ =>
      generalize hframe : Frame.whole _ _ = frame at h'
      cases h' <;> first | rfl | cases hframe

theorem Frame.Yields.eq_whole (h : frame.Yields e) :
    frame = .whole frame.header.opcode frame.payload := by
  cases h <;> rfl

theorem Frame.IsOrdinary.isWhole (h : frame.IsOrdinary) : frame.IsWhole where
  eq_whole := h.exists_yields.elim fun _ => Yields.eq_whole
  length_le := Nat.le_trans h.length_le (by unfold Opcode.limit; split <;> decide)

/-- A message is reported as it was, of a text frame and of another one. -/
theorem yields_dataFrame_iff (m : Message) : (dataFrame m.octets).Yields e ↔ e = .data m := by
  have hyields : (dataFrame m.octets).Yields (.data m) := by
    cases hdecode : Utf8.decode? m.octets with
    | some text =>
        have htext : Utf8.encode text = m.octets := Utf8.decode?_eq_some_iff.mp hdecode
        have hframe : dataFrame m.octets = .whole .text (Utf8.encode text) := by
          rw [dataFrame, Utf8.isText, hdecode, htext]
          rfl
        have hwhole : Utf8.takeFitting maxMessageLength text = text :=
          Utf8.takeFitting_of_le (htext ▸ m.length_le)
        rw [hframe]
        exact .text (isLongestFitting_takeFitting text) (by rw [hwhole, htext])
    | none =>
        have hframe : dataFrame m.octets = .whole .binary m.octets := by
          rw [dataFrame, Utf8.isText, hdecode]
          rfl
        rw [hframe]
        exact .binary (List.take_of_length_le m.length_le).symm
  exact ⟨fun h => h.unique hyields, fun h => h ▸ hyields⟩

/-! ## Receiving -/

namespace Connection

variable {c : Connection} {s : Socket}

/-- A frame of any length is reported as it should be, if the one before it came to its end. -/
theorem receive_of_yields (hactive : c.standing = .active) (hfragments : c.fragments = none)
    (h : frame.Yields e)
    (hlimit : frame.header.opcode.isControl = true → frame.payload.length ≤ maxControlLength) :
    ∃ answer, c.receive frame = (.event e, { c with answer }) := by
  obtain ⟨standing, inbox, header, fragments, answer, outbox⟩ := c
  obtain rfl : standing = .active := hactive
  obtain rfl : fragments = none := hfragments
  cases h with
  | @text text kept m hkept hm =>
      have hmessage : Message.ofText (String.ofList text) = m := by
        refine Message.ext_octets ?_
        rw [hm, hkept.eq_takeFitting]
        simp [Message.ofText]
      refine ⟨answer, ?_⟩
      simp [receive, Standing.canRead, Frame.whole, receiveFirst, extend, Utf8.split_encode,
        Utf8.front, complete, hmessage]
  | @binary payload m hm =>
      have hmessage : Message.ofOctets payload = m := Message.ext_octets hm.symm
      refine ⟨answer, ?_⟩
      simp [receive, Standing.canRead, Frame.whole, receiveFirst, extend, complete, hmessage]
  | ping payload =>
      have hfits : ¬maxControlLength < payload.length := Nat.not_lt.mpr (hlimit rfl)
      simp only [receive, Standing.canRead, Frame.whole, receiveControl, hfits, setAnswer]
      cases answer with
      | none => exact ⟨_, rfl⟩
      | some old =>
          by_cases hpong : old.header.opcode = .pong
          · exact ⟨some (.whole .pong payload), by simp [hpong, Frame.whole]⟩
          · exact ⟨some old, by simp [hpong]⟩
  | pong payload =>
      have hfits : ¬maxControlLength < payload.length := Nat.not_lt.mpr (hlimit rfl)
      exact ⟨answer, by simp [receive, Standing.canRead, Frame.whole, receiveControl, hfits]⟩

/-! ## Writing answers -/

/-- A write that does not fail changes nothing of what is received. -/
structure Writes (c : Connection) (s : Socket) (r : Socket.Written × Connection × Socket) :
    Prop where
  notBroken : r.1 ≠ .broken
  connection : ∃ answer outbox, r.2.1 = { c with answer, outbox }
  socket : ∃ outgoing unread, r.2.2 = { s with outgoing, unread }

theorem Writes.trans {c' : Connection} {s' : Socket} {written : Socket.Written}
    {r : Socket.Written × Connection × Socket}
    (h : c.Writes s (written, c', s')) (h' : c'.Writes s' r) : c.Writes s r := by
  obtain ⟨answer, outbox, hc⟩ := h.connection
  obtain ⟨outgoing, unread, hs⟩ := h.socket
  obtain ⟨answer', outbox', hc'⟩ := h'.connection
  obtain ⟨outgoing', unread', hs'⟩ := h'.socket
  simp only at hc hs
  exact ⟨h'.notBroken, ⟨answer', outbox', by rw [hc', hc]⟩,
    ⟨outgoing', unread', by rw [hs', hs]⟩⟩

theorem drain_writes (hs : s.isBroken = false) : c.Writes s (c.drain s) := by
  cases hempty : c.outbox.isEmpty with
  | true =>
      refine ⟨?_, ⟨c.answer, [], ?_⟩, ⟨s.outgoing, s.unread, ?_⟩⟩ <;>
        simp [drain, Socket.write, hempty]
  | false =>
      refine ⟨?_, ⟨c.answer, _, rfl⟩, ?_⟩
      · simp only [drain, Socket.write, hempty, hs, Bool.false_eq_true, if_false]
        split_ifs <;> exact nofun
      · simp only [drain, Socket.write, hempty, hs]
        exact ⟨_, _, rfl⟩

theorem enqueue_writes (hs : s.isBroken = false) (parcel : Parcel) :
    c.Writes s (c.enqueue s parcel) := by
  have hput : c.Writes s (.all, { c with outbox := c.outbox ++ [parcel] }, s) :=
    ⟨nofun, ⟨c.answer, _, rfl⟩, ⟨s.outgoing, s.unread, rfl⟩⟩
  unfold enqueue
  simp only
  split_ifs
  · exact hput.trans (drain_writes hs)
  · exact hput

theorem flush_writes (hs : s.isBroken = false) : c.Writes s (c.flush s) := by
  have hanswer : c.Writes s (c.enqueueAnswer s) := by
    unfold enqueueAnswer
    cases hanswer : c.answer with
    | none =>
        have hsame : c = { c with answer := none } := by rw [← hanswer]
        exact ⟨nofun, ⟨none, c.outbox, hsame⟩, ⟨s.outgoing, s.unread, rfl⟩⟩
    | some frame =>
        have hput : c.Writes s (.all, { c with answer := none }, s) :=
          ⟨nofun, ⟨none, c.outbox, rfl⟩, ⟨s.outgoing, s.unread, rfl⟩⟩
        exact hput.trans (enqueue_writes hs _)
  unfold flush
  split
  · next c' s' heq =>
      rw [heq] at hanswer
      obtain ⟨outgoing, unread, hs'⟩ := hanswer.socket
      change s' = _ at hs'
      exact hanswer.trans (drain_writes (by rw [hs']; exact hs))
  · exact hanswer

end Connection

/-! ## Polls -/

/-- A client whose peer writes these frames, of which so many octets are still to come. -/
structure Client.Awaits (c : Client) (more : Octets) (frames : List Frame) : Prop where
  standing : c.connection.standing = .active
  fragments : c.connection.fragments = none
  isBroken : c.socket.isBroken = false
  isReset : c.socket.isReset = false
  isFinished : c.socket.isFinished = false
  spells : Spells c.connection.header (c.connection.inbox ++ (c.socket.incoming ++ more)) frames

theorem awaits_fresh : Client.fresh.Awaits [] [] :=
  ⟨rfl, rfl, rfl, rfl, rfl, rfl⟩

namespace Client.Awaits

variable {c : Client} {more : Octets} {frames : List Frame}

theorem concat (h : c.Awaits more frames) : c.Awaits (more ++ frame.wire) (frames ++ [frame]) where
  __ := h
  spells := by
    rw [← List.append_assoc, ← List.append_assoc, List.append_assoc c.connection.inbox]
    exact h.spells.concat

theorem arrive {octets : Octets} (h : c.Awaits (octets ++ more) frames) :
    Awaits { c with socket := c.socket.peerWrite octets } more frames := by
  have hwrite : c.socket.peerWrite octets =
      { c.socket with incoming := c.socket.incoming ++ octets } := by
    simp [Socket.peerWrite, h.isFinished]
  rw [hwrite]
  refine ⟨h.standing, h.fragments, h.isBroken, h.isReset, h.isFinished, ?_⟩
  rw [List.append_assoc c.socket.incoming]
  exact h.spells

end Client.Awaits

/-- What a poll comes to: the event of the first frame if all of that has arrived, and else nothing.
-/
inductive Polls (more : Octets) : List Frame → Option LinkEvent × Connection × Socket → Prop
  | event {frame rest e c s} (hyields : frame.Yields e)
      (harrived : more <:+ rest.flatMap Frame.wire)
      (hawaits : Client.Awaits ⟨c, s⟩ more rest) : Polls more (frame :: rest) (some e, c, s)
  | nothing {frames c s} (hmissing : ∀ frame rest, frames = frame :: rest →
        ¬more <:+ rest.flatMap Frame.wire)
      (hawaits : Client.Awaits ⟨c, s⟩ more frames) : Polls more frames (none, c, s)

namespace Connection

variable {c : Connection} {s : Socket} {frames : List Frame} {more : Octets}

theorem not_suffix_of_lt {octets : Octets} (h : octets.length < more.length) :
    ¬more <:+ octets :=
  fun hsuffix => Nat.not_le.mpr h hsuffix.length_le

theorem polls_of_frame {turns : Nat} {rest : List Frame} {inbox : Octets}
    (h : Client.Awaits ⟨c, s⟩ more (frame :: rest)) (hframe : frame.IsOrdinary)
    (htake : c.takeFrame = (.frame frame, { c with header := none, inbox }))
    (hrest : inbox ++ (s.incoming ++ more) = rest.flatMap Frame.wire) :
    Polls more (frame :: rest) (pollFor (turns + 1) c s) := by
  obtain ⟨e, he⟩ := hframe.exists_yields
  have hlimit : frame.header.opcode.isControl = true → frame.payload.length ≤ maxControlLength := by
    intro hcontrol
    simpa [Opcode.limit, hcontrol] using hframe.length_le
  obtain ⟨answer, hreceive⟩ := receive_of_yields
    (c := { c with header := none, inbox }) h.standing h.fragments he hlimit
  simp only [pollFor, htake, hreceive]
  refine .event he ⟨inbox ++ s.incoming, by rw [List.append_assoc, hrest]⟩ ?_
  exact ⟨h.standing, h.fragments, h.isBroken, h.isReset, h.isFinished, hrest⟩

theorem takes_of_awaits (h : Client.Awaits ⟨c, s⟩ more frames)
    (hframes : ∀ frame ∈ frames, frame.IsOrdinary) : c.Takes (s.incoming ++ more) frames :=
  takes_of_spells (fun frame hframe => (hframes frame hframe).isWhole) h.spells

/-- With nothing left to read, one turn is enough. -/
theorem polls_of_read {turns : Nat} (h : Client.Awaits ⟨c, s⟩ more frames)
    (hframes : ∀ frame ∈ frames, frame.IsOrdinary) (hincoming : s.incoming = []) :
    Polls more frames (pollFor (turns + 1) c s) := by
  cases takes_of_awaits h hframes with
  | frame htake hrest => exact polls_of_frame h (hframes _ List.mem_cons_self) htake hrest
  | @incomplete _ header inbox htake hspells hmissing =>
      have hreset : s.isReset = false := h.isReset
      have hfinished : s.isFinished = false := h.isFinished
      have hread : s.read = (.nothing, s) := by
        simp [Socket.read, hincoming, hreset, hfinished]
      simp only [pollFor, htake, hread]
      refine .nothing (fun frame rest hcons => ?_) ?_
      · exact not_suffix_of_lt (by simpa [hincoming] using hmissing frame rest hcons)
      · exact ⟨h.standing, h.fragments, h.isBroken, h.isReset, h.isFinished, hspells⟩

/-- Two turns are enough: before the second one everything is read. -/
theorem polls_of_awaits {turns : Nat} (h : Client.Awaits ⟨c, s⟩ more frames)
    (hframes : ∀ frame ∈ frames, frame.IsOrdinary) :
    Polls more frames (pollFor (turns + 2) c s) := by
  by_cases hincoming : s.incoming = []
  · exact polls_of_read h hframes hincoming
  cases takes_of_awaits h hframes with
  | frame htake hrest => exact polls_of_frame h (hframes _ List.mem_cons_self) htake hrest
  | @incomplete _ header inbox htake hspells hmissing =>
      have hread : s.read = (.octets s.incoming, { s with incoming := [] }) := by
        simp [Socket.read, hincoming]
      rw [pollFor, htake]
      simp only [hread]
      refine polls_of_read ?_ hframes rfl
      refine ⟨h.standing, h.fragments, h.isBroken, h.isReset, h.isFinished, ?_⟩
      rw [List.nil_append, List.append_assoc]
      exact hspells

end Connection

/-- A poll reports the first frame if all of its octets have arrived, and else nothing. What has
arrived may be cut anywhere. -/
theorem Client.Awaits.polls {c : Client} {frames : List Frame} {more : Octets}
    (h : c.Awaits more frames) (hframes : ∀ frame ∈ frames, frame.IsOrdinary) :
    Polls more frames (c.connection.poll c.socket) := by
  have hlive : c.connection.standing ≠ .terminated := by rw [h.standing]; decide
  have hturns : 2 + c.connection.inbox.length + c.socket.incoming.length =
      c.connection.inbox.length + c.socket.incoming.length + 2 := by omega
  simp only [Connection.poll, hlive, if_false, hturns]
  split_ifs
  · have hflush := Connection.flush_writes (c := c.connection) h.isBroken
    generalize c.connection.flush c.socket = r at hflush
    obtain ⟨written, connection, socket⟩ := r
    obtain ⟨answer, outbox, rfl⟩ := hflush.connection
    obtain ⟨outgoing, unread, rfl⟩ := hflush.socket
    have hawaits : Client.Awaits ⟨{ c.connection with answer, outbox },
        { c.socket with outgoing, unread }⟩ more frames :=
      ⟨h.standing, h.fragments, h.isBroken, h.isReset, h.isFinished, h.spells⟩
    cases written with
    | broken => exact absurd rfl hflush.notBroken
    | all | blocked => exact Connection.polls_of_awaits hawaits hframes
  · exact Connection.polls_of_awaits h hframes

end Uplink.WebSocket
