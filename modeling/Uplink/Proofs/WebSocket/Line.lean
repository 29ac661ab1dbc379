import Mathlib.Data.List.Forall2
import Uplink.Proofs.WebSocket.Polling

/-! # Two clients in a line

The peers of two clients hand on what the first one sends to the second one, cut into pieces
anywhere, and may add frames of their own. The second client reports the messages that were sent,
in order and unchanged. -/

namespace Uplink.WebSocket

/-! ## Sending -/

namespace Parcel

theorem frame_advance (octets : Nat) (parcels : List Parcel) :
    ((advance octets parcels).1 ++ (advance octets parcels).2).map frame = parcels.map frame := by
  induction parcels generalizing octets with
  | nil => rfl
  | cons parcel parcels ih =>
      simp only [advance]
      split
      · simpa [frame] using ih (octets - parcel.unsent)
      · simp [frame]

end Parcel

namespace Connection

variable {c : Connection} {s : Socket} {frames : List Frame}

/-- A write leads to this, with these frames put behind all that are on their way. -/
structure Queues (c : Connection) (s : Socket) (frames : List Frame)
    (r : Socket.Written × Connection × Socket) : Prop where
  underway : (r.2.2.outgoing ++ r.2.1.outbox).map Parcel.frame =
    (s.outgoing ++ c.outbox).map Parcel.frame ++ frames
  standing : r.2.1.standing = c.standing
  answer : r.2.1.answer = c.answer

theorem Queues.trans {c' : Connection} {s' : Socket} {written : Socket.Written}
    {r : Socket.Written × Connection × Socket} {frames' : List Frame}
    (h : c.Queues s frames (written, c', s')) (h' : c'.Queues s' frames' r) :
    c.Queues s (frames ++ frames') r where
  underway := by rw [h'.underway, h.underway, List.append_assoc]
  standing := h'.standing.trans h.standing
  answer := h'.answer.trans h.answer

theorem drain_queues (c : Connection) (s : Socket) : c.Queues s [] (c.drain s) := by
  refine ⟨?_, rfl, rfl⟩
  simp only [drain, Socket.write]
  split_ifs with hempty
  · simp [List.isEmpty_iff.mp hempty]
  · simp
  · simp only [List.map_append, List.append_assoc, List.append_nil]
    rw [← List.map_append, Parcel.frame_advance]

theorem outbox_of_drain (h : (c.drain s).1 = .all) : (c.drain s).2.1.outbox = [] := by
  revert h
  simp only [drain, Socket.write]
  split_ifs with hempty hbroken hleft <;> intro hall
  · rfl
  · cases hall
  · exact List.isEmpty_iff.mp hleft
  · cases hall

theorem enqueue_queues (c : Connection) (s : Socket) (parcel : Parcel) :
    c.Queues s [parcel.frame] (c.enqueue s parcel) := by
  have hput : c.Queues s [parcel.frame] (.all, { c with outbox := c.outbox ++ [parcel] }, s) :=
    ⟨by simp, rfl, rfl⟩
  unfold enqueue
  simp only
  split_ifs
  · exact hput.trans (drain_queues _ s)
  · exact hput

theorem flush_eq_drain (h : c.answer = none) : c.flush s = c.drain s := by
  rw [flush, enqueueAnswer, h]

theorem sendParcel_queues (h : c.answer = none) (parcel : Parcel) :
    c.Queues s [parcel.frame] (c.sendParcel s parcel) := by
  have hqueues := enqueue_queues c s parcel
  unfold sendParcel
  split
  · next c' s' heq =>
      rw [heq] at hqueues
      rw [flush_eq_drain (hqueues.answer.trans h)]
      exact hqueues.trans (drain_queues c' s')
  · exact hqueues

theorem outbox_of_sendParcel {parcel : Parcel} (h : c.answer = none)
    (hall : (c.sendParcel s parcel).1 = .all) : (c.sendParcel s parcel).2.1.outbox = [] := by
  have hqueues := enqueue_queues c s parcel
  unfold sendParcel at hall ⊢
  split at hall
  · next c' s' heq =>
      rw [heq] at hqueues
      rw [flush_eq_drain (hqueues.answer.trans h)] at hall ⊢
      exact outbox_of_drain hall
  · next hstuck => exact (hstuck _ _ (Prod.ext hall rfl)).elim

end Connection

namespace Client

/-- The frames that a client has been given and its peer has not taken up, the oldest first. -/
def underway (c : Client) : List Frame :=
  (c.socket.outgoing ++ c.connection.outbox).map Parcel.frame

/-- A client that is heard of nothing by its peer and takes messages. -/
structure IsSending (c : Client) : Prop where
  standing : c.connection.standing = .active
  answer : c.connection.answer = none

variable {c : Client}

/-- A message that is sent is put behind all others, whether there is room for it or not. A send
without an error has written everything. -/
theorem send_of_isSending (h : c.IsSending) (octets : Octets) :
    (c.send octets).2.IsSending ∧
      (c.send octets).2.underway = c.underway ++ [dataFrame octets] ∧
      ((c.send octets).1 = .ok () → (c.send octets).2.connection.outbox = []) := by
  let parcel : Parcel := .ofFrame (dataFrame octets)
  have hqueues : c.connection.Queues c.socket [parcel.frame]
      (c.connection.sendParcel c.socket parcel) :=
    Connection.sendParcel_queues h.answer parcel
  have hempty : (c.connection.sendParcel c.socket parcel).1 = .all →
      (c.connection.sendParcel c.socket parcel).2.1.outbox = [] :=
    Connection.outbox_of_sendParcel h.answer
  simp only [send, sendParcel, Connection.send, h.standing]
  generalize c.connection.sendParcel c.socket parcel = r at hqueues hempty ⊢
  obtain ⟨written, connection, socket⟩ := r
  have hsending : IsSending ⟨connection, socket⟩ :=
    ⟨hqueues.standing.trans h.standing, hqueues.answer.trans h.answer⟩
  cases written with
  | all => exact ⟨hsending, hqueues.underway, fun _ => hempty rfl⟩
  | blocked | broken => exact ⟨hsending, hqueues.underway, nofun⟩

end Client

theorem Socket.peerRead_eq (s : Socket) (coming : Option Parcel) :
    (s.peerRead coming).1 = s.outgoing.head?.map Parcel.frame ∧
      (s.peerRead coming).2.outgoing = s.outgoing.tail := by
  unfold peerRead
  cases houtgoing : s.outgoing with
  | nil => exact ⟨rfl, houtgoing⟩
  | cons parcel outgoing => exact ⟨rfl, rfl⟩

/-! ## Lines -/

/-- Two clients, the peers between them, and what has happened so far. -/
structure Line where
  sender : Client
  receiver : Client
  /-- What is still to be passed on to the receiver. -/
  carried : Octets
  sent : List Message
  results : List SendResult
  /-- The frames that were taken up from the sender. -/
  taken : List Frame
  /-- The frames for the receiver: those, and others that were added. -/
  frames : List Frame
  events : List LinkEvent

namespace Line

inductive Move
  | send (m : Message)
  /-- A frame is taken up from the sender if there is one. -/
  | take
  /-- A frame of another origin is put behind the ones for the receiver. -/
  | add (frame : Frame)
  /-- So many octets, or all, are passed on. -/
  | pass (count : Nat)
  | poll

def fresh : Line :=
  ⟨.fresh, .fresh, [], [], [], [], [], []⟩

def append (l : Line) (frame : Frame) : Line :=
  { l with carried := l.carried ++ frame.wire, frames := l.frames ++ [frame] }

def step (l : Line) : Move → Line
  | .send m =>
    let (result, sender) := l.sender.send m.octets
    { l with sender, sent := l.sent ++ [m], results := l.results ++ [result] }
  | .take =>
    let (frame?, socket) := l.sender.socket.peerRead l.sender.connection.outbox.head?
    let l := { l with sender := { l.sender with socket } }
    match frame? with
    | none => l
    | some frame => { l.append frame with taken := l.taken ++ [frame] }
  | .add frame => l.append frame
  | .pass count =>
    let socket := l.receiver.socket.peerWrite (l.carried.take count)
    { l with receiver := { l.receiver with socket }, carried := l.carried.drop count }
  | .poll =>
    let (event?, receiver) := l.receiver.poll
    { l with receiver, events := l.events ++ event?.toList }

def run (l : Line) (moves : List Move) : Line :=
  moves.foldl step l

/-- Every message is under way or taken up, and every frame that arrived was reported. -/
structure Sound (l : Line) : Prop where
  isSending : l.sender.IsSending
  conserved : l.taken ++ l.sender.underway = l.sent.map fun m => dataFrame m.octets
  written : (∀ r ∈ l.results.getLast?, r = .ok ()) → l.sender.connection.outbox = []
  sublist : l.taken.Sublist l.frames
  ordinary : ∀ frame ∈ l.frames, frame.IsOrdinary
  reported : ∃ done left, l.frames = done ++ left ∧ List.Forall₂ Frame.Yields done l.events ∧
    l.receiver.Awaits l.carried left

theorem sound_fresh : fresh.Sound where
  isSending := ⟨rfl, rfl⟩
  conserved := rfl
  written _ := rfl
  sublist := .refl _
  ordinary := nofun
  reported := ⟨[], [], rfl, .nil, awaits_fresh⟩

variable {l : Line}

theorem isOrdinary_dataFrame (m : Message) : (dataFrame m.octets).IsOrdinary where
  exists_yields := ⟨_, (yields_dataFrame_iff m).mpr rfl⟩
  length_le := by
    have hlimit : maxMessageLength ≤ (dataFrame m.octets).header.opcode.limit := by
      unfold dataFrame
      split
      · exact (by decide : maxMessageLength ≤ Opcode.text.limit)
      · exact (by decide : maxMessageLength ≤ Opcode.binary.limit)
    exact Nat.le_trans m.length_le hlimit

theorem sound_send (h : l.Sound) (m : Message) : (l.step (.send m)).Sound := by
  obtain ⟨hsending, hunderway, hwritten⟩ := Client.send_of_isSending h.isSending m.octets
  exact {
    isSending := hsending
    conserved := by
      change l.taken ++ (l.sender.send m.octets).2.underway = _
      rw [hunderway, ← List.append_assoc, h.conserved]
      simp [step]
    written := fun hresult => hwritten (by simpa [step] using hresult)
    sublist := h.sublist
    ordinary := h.ordinary
    reported := h.reported }

theorem sound_append (h : l.Sound) {frame : Frame} (hframe : frame.IsOrdinary) :
    (l.append frame).Sound := by
  obtain ⟨done, left, hframes, hdone, hawaits⟩ := h.reported
  exact {
    isSending := h.isSending
    conserved := h.conserved
    written := h.written
    sublist := h.sublist.trans (List.sublist_append_left _ _)
    ordinary := by
      intro frame' hmem
      rcases List.mem_append.mp hmem with hmem | hmem
      · exact h.ordinary frame' hmem
      · rwa [List.mem_singleton.mp hmem]
    reported := ⟨done, left ++ [frame], by simp [append, hframes], hdone, hawaits.concat⟩ }

theorem sound_take (h : l.Sound) : (l.step .take).Sound := by
  obtain ⟨hframe, houtgoing⟩ :=
    l.sender.socket.peerRead_eq l.sender.connection.outbox.head?
  simp only [step]
  generalize l.sender.socket.peerRead l.sender.connection.outbox.head? = r at hframe houtgoing
  obtain ⟨frame?, socket⟩ := r
  simp only at hframe houtgoing
  have hconserved := h.conserved
  rw [Client.underway] at hconserved
  cases hparcels : l.sender.socket.outgoing with
  | nil =>
      rw [hparcels] at hframe houtgoing hconserved
      obtain rfl : frame? = none := hframe
      exact { h with
        isSending := ⟨h.isSending.standing, h.isSending.answer⟩
        conserved := by
          change l.taken ++ (socket.outgoing ++ l.sender.connection.outbox).map Parcel.frame = _
          rw [houtgoing]
          exact hconserved }
  | cons parcel outgoing =>
      rw [hparcels] at hframe houtgoing hconserved
      obtain rfl : frame? = some parcel.frame := hframe
      have hfirst : l.taken ++ [parcel.frame] ++
          (socket.outgoing ++ l.sender.connection.outbox).map Parcel.frame =
            l.sent.map fun m => dataFrame m.octets := by
        rw [houtgoing, ← hconserved]
        simp
      have hframe : parcel.frame.IsOrdinary := by
        have hmem : parcel.frame ∈ l.sent.map fun m => dataFrame m.octets := by
          rw [← hconserved]
          simp
        obtain ⟨m, -, hm⟩ := List.mem_map.mp hmem
        exact hm ▸ isOrdinary_dataFrame m
      exact { sound_append h hframe with
        isSending := ⟨h.isSending.standing, h.isSending.answer⟩
        conserved := hfirst
        sublist := h.sublist.append (.refl _) }

theorem sound_pass (h : l.Sound) (count : Nat) : (l.step (.pass count)).Sound where
  __ := h
  reported := by
    obtain ⟨done, left, hframes, hdone, hawaits⟩ := h.reported
    rw [← List.take_append_drop count l.carried] at hawaits
    exact ⟨done, left, hframes, hdone, hawaits.arrive⟩

/-- What has been reported, what is left, and what the next poll comes to. -/
theorem Sound.exists_polls (h : l.Sound) :
    ∃ done left, l.frames = done ++ left ∧ List.Forall₂ Frame.Yields done l.events ∧
      Polls l.carried left (l.receiver.connection.poll l.receiver.socket) := by
  obtain ⟨done, left, hframes, hdone, hawaits⟩ := h.reported
  exact ⟨done, left, hframes, hdone, hawaits.polls fun frame hmem =>
    h.ordinary frame (hframes ▸ List.mem_append_right done hmem)⟩

theorem sound_poll (h : l.Sound) : (l.step .poll).Sound where
  __ := h
  reported := by
    obtain ⟨done, left, hframes, hdone, hpolls⟩ := h.exists_polls
    simp only [step, Client.poll]
    generalize l.receiver.connection.poll l.receiver.socket = r at hpolls
    cases hpolls with
    | @event frame rest e connection socket hyields _ hnext =>
        refine ⟨done ++ [frame], rest, by simp [hframes], ?_, hnext⟩
        exact List.rel_append hdone (.cons hyields .nil)
    | nothing _ hnext => exact ⟨done, left, hframes, by simpa using hdone, hnext⟩

theorem sound_run (moves : List Move) (h : l.Sound)
    (hadded : ∀ frame, .add frame ∈ moves → frame.IsOrdinary) : (l.run moves).Sound := by
  induction moves generalizing l with
  | nil => exact h
  | cons move moves ih =>
      refine ih ?_ fun frame hmem => hadded frame (List.mem_cons_of_mem _ hmem)
      cases move with
      | send m => exact sound_send h m
      | take => exact sound_take h
      | add frame => exact sound_append h (hadded frame List.mem_cons_self)
      | pass count => exact sound_pass h count
      | poll => exact sound_poll h

/-! ## Messages across a line -/

theorem run_append (l : Line) (front back : List Move) :
    l.run (front ++ back) = (l.run front).run back :=
  List.foldl_append

theorem frames_of_no_added (moves : List Move) (h : l.frames = l.taken)
    (hadded : ∀ frame, .add frame ∉ moves) : (l.run moves).frames = (l.run moves).taken := by
  induction moves generalizing l with
  | nil => exact h
  | cons move moves ih =>
      refine ih ?_ fun frame hmem => hadded frame (List.mem_cons_of_mem _ hmem)
      cases move with
      | add frame => exact absurd List.mem_cons_self (hadded frame)
      | take =>
          simp only [step]
          split
          · exact h
          · simp [append, h]
      | send | pass | poll => exact h

/-- The frames of messages are reported as those messages. -/
theorem events_of_messages {messages : List Message} {events : List LinkEvent}
    (h : List.Forall₂ Frame.Yields (messages.map fun m => dataFrame m.octets) events) :
    events = messages.map .data := by
  induction messages generalizing events with
  | nil =>
      cases h
      rfl
  | cons m messages ih =>
      cases h with
      | cons hfirst hrest =>
          rw [(yields_dataFrame_iff m).mp hfirst, ih hrest]
          rfl

theorem Sound.events_eq (h : l.Sound) (hframes : l.frames = l.taken) :
    l.events = (l.sent.take l.events.length).map .data := by
  obtain ⟨done, left, hsplit, hdone, -⟩ := h.reported
  refine events_of_messages ?_
  have hprefix : done <+: l.sent.map fun m => dataFrame m.octets := by
    rw [← h.conserved, ← hframes, hsplit, List.append_assoc]
    exact List.prefix_append _ _
  rw [List.map_take, ← hdone.length_eq, ← List.prefix_iff_eq_take.mp hprefix]
  exact hdone

theorem Sound.length_events_le (h : l.Sound) : l.events.length ≤ l.frames.length := by
  obtain ⟨done, left, hframes, hdone, -⟩ := h.reported
  rw [hframes, ← hdone.length_eq, List.length_append]
  exact Nat.le_add_right _ _

/-- When all octets have arrived, a poll reports something as long as something is left. -/
theorem Sound.length_events_poll (h : l.Sound) (hcarried : l.carried = []) :
    l.frames.length ≤ l.events.length ∨
      (l.step .poll).events.length = l.events.length + 1 := by
  obtain ⟨done, left, hframes, hdone, hpolls⟩ := h.exists_polls
  simp only [step, Client.poll]
  generalize l.receiver.connection.poll l.receiver.socket = r at hpolls
  cases hpolls with
  | event => exact .inr (by simp)
  | nothing hmissing =>
      cases left with
      | nil => exact .inl (by simp [hframes, hdone.length_eq])
      | cons frame rest =>
          rw [hcarried] at hmissing
          exact absurd List.nil_suffix (hmissing frame rest rfl)

theorem Sound.length_events_polls (h : l.Sound) (hcarried : l.carried = []) {polls : Nat}
    (hpolls : l.frames.length ≤ l.events.length + polls) :
    (l.run (.replicate polls .poll)).events.length = l.frames.length := by
  induction polls generalizing l with
  | zero => exact Nat.le_antisymm h.length_events_le hpolls
  | succ polls ih =>
      refine ih (l := l.step .poll) (sound_poll h) hcarried ?_
      rcases h.length_events_poll hcarried with hall | hnext
      · have hmore : l.events.length ≤ (l.step .poll).events.length := by simp [step]
        exact Nat.le_trans hall (Nat.le_add_right_of_le hmore)
      · change l.frames.length ≤ _
        omega

/-- Taking frames up empties what is written of the sender. -/
theorem sender_takes (l : Line) (takes : Nat) :
    (l.run (.replicate takes .take)).sender.connection = l.sender.connection ∧
      (l.run (.replicate takes .take)).sender.socket.outgoing =
        l.sender.socket.outgoing.drop takes := by
  induction takes generalizing l with
  | zero => exact ⟨rfl, rfl⟩
  | succ takes ih =>
      obtain ⟨hconnection, houtgoing⟩ := ih (l.step .take)
      have htake : (l.step .take).sender.connection = l.sender.connection ∧
          (l.step .take).sender.socket.outgoing = l.sender.socket.outgoing.tail := by
        have hread := (l.sender.socket.peerRead_eq l.sender.connection.outbox.head?).2
        simp only [step]
        split <;> exact ⟨rfl, hread⟩
      refine ⟨hconnection.trans htake.1, houtgoing.trans ?_⟩
      rw [htake.2, List.drop_tail]

theorem sent_run (moves : List Move) (h : ∀ m, .send m ∉ moves) :
    (l.run moves).sent = l.sent := by
  induction moves generalizing l with
  | nil => rfl
  | cons move moves ih =>
      refine (ih fun m hmem => h m (List.mem_cons_of_mem _ hmem)).trans ?_
      cases move with
      | send m => exact absurd List.mem_cons_self (h m)
      | take =>
          simp only [step]
          split <;> rfl
      | add | pass | poll => rfl

/-- When the last send went well, everything can be taken up, passed on and reported. -/
theorem Sound.events_settle (h : l.Sound) (hframes : l.frames = l.taken)
    (hsent : ∀ r ∈ l.results.getLast?, r = .ok ()) (takes count polls : Nat)
    (htakes : l.sent.length ≤ takes)
    (hcount : (l.run (.replicate takes .take)).carried.length ≤ count)
    (hpolls : l.sent.length ≤ polls) :
    (l.run (.replicate takes .take ++ .pass count :: .replicate polls .poll)).events =
      l.sent.map .data := by
  let taking := l.run (.replicate takes .take)
  let passing := taking.step (.pass count)
  have htaking : taking.Sound :=
    sound_run _ h fun frame hmem => by cases List.eq_of_mem_replicate hmem
  have hpassing : passing.Sound := sound_pass htaking count
  have hcarried : passing.carried = [] := List.drop_of_length_le hcount
  have hall : passing.taken = passing.frames :=
    (frames_of_no_added _ hframes fun frame hmem => by cases List.eq_of_mem_replicate hmem).symm
  have hsame : passing.sent = l.sent :=
    sent_run _ fun m hmem => by cases List.eq_of_mem_replicate hmem
  have hunderway : passing.sender.underway = [] := by
    obtain ⟨hconnection, houtgoing⟩ := sender_takes l takes
    have hlength : l.sender.socket.outgoing.length ≤ takes := by
      have hconserved := congrArg List.length h.conserved
      simp only [Client.underway, List.length_append, List.length_map] at hconserved
      omega
    change (taking.sender.socket.outgoing ++ taking.sender.connection.outbox).map _ = []
    rw [hconnection, houtgoing, h.written hsent, List.drop_of_length_le hlength]
    rfl
  have hconserved := hpassing.conserved
  rw [hunderway, List.append_nil, hall, hsame] at hconserved
  have hlength : passing.frames.length = l.sent.length := by rw [hconserved, List.length_map]
  let final := passing.run (.replicate polls .poll)
  have hreported : final.events.length = l.sent.length :=
    (hpassing.length_events_polls hcarried (by omega)).trans hlength
  have hfinal : final.Sound :=
    sound_run _ hpassing fun frame hmem => by cases List.eq_of_mem_replicate hmem
  have hnone : final.frames = final.taken :=
    frames_of_no_added _ hall.symm fun frame hmem => by cases List.eq_of_mem_replicate hmem
  have hsent' : final.sent = l.sent :=
    (sent_run _ fun m hmem => by cases List.eq_of_mem_replicate hmem).trans hsame
  rw [run_append]
  change final.events = _
  rw [hfinal.events_eq hnone, hreported, hsent', List.take_length]

/-- Two clients whose peers hand on frames, whatever is sent, taken up, added, passed on and polled
in whatever order. Each message becomes one frame, and these are taken up in the order in which
they were sent. Every frame is reported, in order, as soon as all of its octets have been passed
on and the ones before it were reported: of a text the longest run of characters that fits, of
other octets as many as fit, and of a control frame that it came in. For the frame of a message
that is the message. So if nothing is added the messages come out as they were sent, and when the
last send went well all of them can be got. What is made of a frame does not depend on how long it
is. -/
theorem messages_cross_unchanged (moves : List Move)
    (hadded : ∀ frame, .add frame ∈ moves → frame.IsOrdinary) :
    let l := fresh.run moves
    l.taken ++ l.sender.underway = l.sent.map (fun m => dataFrame m.octets) ∧
      l.taken.Sublist l.frames ∧
      (∃ done left, l.frames = done ++ left ∧ List.Forall₂ Frame.Yields done l.events ∧
        (∀ e ∈ l.receiver.poll.1, ∃ frame ∈ left.head?, frame.Yields e) ∧
        (l.receiver.poll.1 = none ↔
          ∀ frame rest, left = frame :: rest → ¬l.carried <:+ rest.flatMap Frame.wire)) ∧
      (∀ (m : Message) e, (dataFrame m.octets).Yields e ↔ e = .data m) ∧
      ((∀ frame, .add frame ∉ moves) →
        l.events = (l.sent.take l.events.length).map .data ∧
          ∀ takes count polls, (∀ r ∈ l.results.getLast?, r = .ok ()) → l.sent.length ≤ takes →
            (l.run (.replicate takes .take)).carried.length ≤ count → l.sent.length ≤ polls →
            (l.run (.replicate takes .take ++ .pass count :: .replicate polls .poll)).events =
              l.sent.map .data) ∧
      ∀ (c : Connection) frame e, c.standing = .active → c.fragments = none → frame.Yields e →
        (frame.header.opcode.isControl = true → frame.payload.length ≤ maxControlLength) →
        ∃ answer, c.receive frame = (.event e, { c with answer }) := by
  intro l
  have hsound : l.Sound := sound_run moves sound_fresh hadded
  refine ⟨hsound.conserved, hsound.sublist, ?_, fun m e => yields_dataFrame_iff m, ?_, ?_⟩
  · obtain ⟨done, left, hframes, hdone, hpolls⟩ := hsound.exists_polls
    refine ⟨done, left, hframes, hdone, ?_⟩
    simp only [Client.poll]
    generalize l.receiver.connection.poll l.receiver.socket = r at hpolls
    cases hpolls with
    | @event frame rest e connection socket hyields harrived =>
        refine ⟨?_, nofun, fun hmissing => absurd harrived (hmissing frame rest rfl)⟩
        rintro _ ⟨⟩
        exact ⟨frame, rfl, hyields⟩
    | nothing hmissing => exact ⟨nofun, fun _ => hmissing, fun _ => rfl⟩
  · intro hnone
    have hframes : l.frames = l.taken := frames_of_no_added moves rfl hnone
    exact ⟨hsound.events_eq hframes, fun takes count polls hsent =>
      hsound.events_settle hframes hsent takes count polls⟩
  · exact fun c frame e hactive hfragments hyields hlimit =>
      Connection.receive_of_yields hactive hfragments hyields hlimit

/-- A text and the front of a character are sent. A ping is added between them, and its octets come
in two pieces. -/
def twoMessages : List Move :=
  [.send (.ofOctets [104, 105]), .take, .add (.whole .ping [7]), .pass 6, .poll,
    .send (.ofOctets [0xC3]), .take, .poll, .pass 16, .poll, .poll]

theorem two_messages_cross :
    (∀ frame, .add frame ∈ twoMessages → frame.IsOrdinary) ∧
      ∃ done left, (fresh.run twoMessages).frames = done ++ left ∧
        List.Forall₂ Frame.Yields done (fresh.run twoMessages).events ∧
        (fresh.run twoMessages).events =
          [.data (.ofOctets [104, 105]), .keepAlive, .data (.ofOctets [0xC3])] := by
  have hadded : ∀ frame, .add frame ∈ twoMessages → frame.IsOrdinary := by
    intro frame hmem
    obtain rfl : frame = .whole .ping [7] := by simpa [twoMessages] using hmem
    exact ⟨⟨_, .ping [7]⟩, by decide⟩
  have hevents : (fresh.run twoMessages).events =
      [.data (.ofOctets [104, 105]), .keepAlive, .data (.ofOctets [0xC3])] := by
    decide +kernel
  obtain ⟨-, -, ⟨done, left, hframes, hdone, -⟩, -⟩ := messages_cross_unchanged twoMessages hadded
  exact ⟨hadded, done, left, hframes, hdone, hevents⟩

end Line

end Uplink.WebSocket
