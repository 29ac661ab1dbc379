import Mathlib.Data.List.Induction
import Uplink.Network
import Uplink.Proofs.Worker.Discipline

/-! # Sessions in use

A session in the hands of any owner, over any link. It ends with the first close or with the first
event that ends its link, at the latest with its owner, and then the link is closed at once. What
is asked of it later does not reach the link. -/

namespace Uplink

/-- The event that a link hands out. -/
def NetCall.event? : NetCall → Option LinkEvent
  | .poll event? => event?
  | .connect _ _ _ | .send _ _ _ | .close => none

namespace Session

/-- What an owner may ask of a session. -/
inductive Request
  | send (frame : Octets) (timeout : Nat)
  /-- Asks for an event at this moment. -/
  | poll (now : Instant)
  | close

/-- A request with its answer. -/
inductive Reply
  | sent (frame : Octets) (timeout : Nat) (result : SendResult)
  | polled (now : Instant) (event? : Option LinkEvent)
  | closed

namespace Reply

def request : Reply → Request
  | .sent frame timeout _ => .send frame timeout
  | .polled now _ => .poll now
  | .closed => .close

def event? : Reply → Option LinkEvent
  | .polled _ event? => event?
  | .sent _ _ _ | .closed => none

/-- The moment of a sign of life. -/
def heard? : Reply → Option Instant
  | .polled now (some event) => if event.isActivity then some now else none
  | .polled _ none | .sent _ _ _ | .closed => none

/-- Whether it ends a session. -/
def isLast : Reply → Bool
  | .polled _ (some event) => event.isTerminal
  | .closed => true
  | .polled _ none | .sent _ _ _ => false

/-- Whether a session that is over may give it. -/
def isRefusal : Reply → Bool
  | .sent _ _ (.error .notConnected) | .polled _ none | .closed => true
  | .sent _ _ _ | .polled _ (some _) => false

/-- The use that a live session makes of its link for it. -/
def uses : Reply → List NetCall
  | .sent frame timeout result => [.send frame timeout result]
  | .polled _ event? => [.poll event?]
  | .closed => []

theorem filterMap_uses (reply : Reply) :
    reply.uses.filterMap NetCall.event? = reply.event?.toList := by
  rcases reply with _ | ⟨now, _ | event⟩ | _ <;> rfl

theorem isUse_of_mem_uses {reply : Reply} {call : NetCall} (h : call ∈ reply.uses) :
    call.isUse = true := by
  cases reply with
  | sent | polled =>
      rw [List.mem_singleton.mp h]
      rfl
  | closed => cases h

theorem event?_of_isRefusal {reply : Reply} (h : reply.isRefusal = true) :
    reply.event? = none := by
  rcases reply with _ | ⟨now, _ | event⟩ | _
  · rfl
  · rfl
  · cases h
  · rfl

end Reply

variable {σ : Type} [Connector σ]

/-- A session, the network under it, and all that was asked of it so far. -/
structure Usage (σ : Type) where
  session : Session
  net : σ
  replies : List Reply

namespace Usage

/-- A session that has not been used yet. -/
def fresh (session : Session) (net : σ) : Usage σ :=
  ⟨session, net, []⟩

def step (u : Usage σ) : Request → Usage σ
  | .send frame timeout =>
    let (result, net) := u.session.send u.net frame timeout
    { u with net, replies := u.replies ++ [.sent frame timeout result] }
  | .poll now =>
    let (event?, session, net) := u.session.poll u.net now
    ⟨session, net, u.replies ++ [.polled now event?]⟩
  | .close =>
    let (session, net) := u.session.close u.net
    ⟨session, net, u.replies ++ [.closed]⟩

def run (u : Usage σ) (requests : List Request) : Usage σ :=
  requests.foldl step u

/-- What a session leaves behind when its owner drops it. -/
def drop (u : Usage σ) : σ :=
  (u.session.close u.net).2

end Usage

/-! ## Rules -/

/-- What a session may answer, by which calls to its link, and how it goes on. -/
inductive Rule (s : Session) : Reply → List NetCall → Session → Prop
  | send {frame timeout} (result) (hopen : s.isOpen = true) :
      Rule s (.sent frame timeout result) [.send frame timeout result] s
  | refuse {frame timeout} (hover : s.isOpen = false) :
      Rule s (.sent frame timeout (.error .notConnected)) [] s
  | quiet {now} (hopen : s.isOpen = true) : Rule s (.polled now none) [.poll none] s
  | event {now} (event) (hopen : s.isOpen = true) :
      Rule s (.polled now (some event))
        (.poll (some event) :: if event.isTerminal then [.close] else []) (s.after event now)
  | silent {now} (hover : s.isOpen = false) : Rule s (.polled now none) [] s
  | close (hopen : s.isOpen = true) : Rule s .closed [.close] { s with isOpen := false }
  | closed (hover : s.isOpen = false) : Rule s .closed [] s

theorem poll_rule (s : Session) (r : Recorded σ) (now : Instant) :
    ∃ calls, (s.poll r now).2.2.calls = r.calls ++ calls ∧
      Rule s (.polled now (s.poll r now).1) calls (s.poll r now).2.1 := by
  cases hopen : s.isOpen with
  | false =>
      refine ⟨[], ?_, ?_⟩ <;> simp only [poll, hopen]
      · exact (List.append_nil _).symm
      · exact .silent hopen
  | true =>
      cases hevent : (Link.poll r.net).1 with
      | none =>
          refine ⟨[.poll none], ?_, ?_⟩ <;> simp only [poll, hopen, Link.poll, hevent]
          · rfl
          · exact .quiet hopen
      | some event =>
          refine ⟨.poll (some event) :: if event.isTerminal then [.close] else [], ?_, ?_⟩ <;>
            simp only [poll, hopen, Link.poll, hevent, if_true]
          · rw [note_calls _ _ _ _ hopen, List.append_assoc]
            rfl
          · rw [note_fst]
            exact .event event hopen

theorem close_rule (s : Session) (r : Recorded σ) :
    Rule s .closed s.closing (s.close r).1 := by
  cases hopen : s.isOpen with
  | true => simpa [Session.close, closing, hopen] using Rule.close hopen
  | false => simpa [Session.close, closing, hopen] using Rule.closed hopen

theorem send_rule (s : Session) (r : Recorded σ) (frame : Octets) (timeout : Nat) :
    ∃ calls, (s.send r frame timeout).2.calls = r.calls ++ calls ∧
      Rule s (.sent frame timeout (s.send r frame timeout).1) calls s := by
  cases hopen : s.isOpen with
  | true =>
      refine ⟨[.send frame timeout (Link.send r.net frame timeout).1], ?_, ?_⟩ <;>
        simp only [Session.send, hopen, Link.send, if_true]
      exact .send _ hopen
  | false =>
      refine ⟨[], ?_, ?_⟩ <;> simp only [Session.send, hopen]
      · exact (List.append_nil _).symm
      · exact .refuse hopen

namespace Usage

/-- Every request is answered by a rule. -/
theorem step_rule (u : Usage (Recorded σ)) (request : Request) :
    ∃ reply calls, reply.request = request ∧
      (u.step request).replies = u.replies ++ [reply] ∧
      (u.step request).net.calls = u.net.calls ++ calls ∧
      Rule u.session reply calls (u.step request).session := by
  cases request with
  | send frame timeout =>
      obtain ⟨calls, hcalls, hrule⟩ := send_rule u.session u.net frame timeout
      exact ⟨_, calls, rfl, rfl, hcalls, hrule⟩
  | poll now =>
      obtain ⟨calls, hcalls, hrule⟩ := poll_rule u.session u.net now
      exact ⟨_, calls, rfl, rfl, hcalls, hrule⟩
  | close =>
      exact ⟨_, _, rfl, rfl, close_calls u.session u.net, close_rule u.session u.net⟩

end Usage

/-! ## Until the link is closed, and after -/

/-- How far a session has come, by its answers and the calls to its link: it is alive, or it is
over, its link is closed, and it has refused all that came later. -/
inductive Stage (uri : String) (timeout : Nat) : List Reply → Bool → List NetCall → Prop
  | live {replies} (hlive : ∀ reply ∈ replies, reply.isLast = false) :
      Stage uri timeout replies true
        (.connect uri timeout (.ok ()) :: replies.flatMap Reply.uses)
  | ended {live last refused} (hlive : ∀ reply ∈ live, reply.isLast = false)
      (hlast : last.isLast = true) (hrefused : ∀ reply ∈ refused, reply.isRefusal = true) :
      Stage uri timeout (live ++ last :: refused) false
        (.connect uri timeout (.ok ()) :: (live ++ [last]).flatMap Reply.uses ++ [.close])

section
variable {uri : String} {timeout : Nat} {opened : Instant} {replies : List Reply} {reply : Reply}
  {s s' : Session} {calls more : List NetCall}

/-- A live session answers and goes on. -/
theorem Stage.use (h : Stage uri timeout replies true calls) (hreply : reply.isLast = false) :
    Stage uri timeout (replies ++ [reply]) true (calls ++ reply.uses) := by
  cases h with
  | live hlive =>
      have hall : ∀ r ∈ replies ++ [reply], r.isLast = false :=
        List.forall_mem_append.mpr ⟨hlive, by simpa using hreply⟩
      simpa using Stage.live hall

/-- A live session answers for the last time and closes its link. -/
theorem Stage.finish (h : Stage uri timeout replies true calls) (hreply : reply.isLast = true) :
    Stage uri timeout (replies ++ [reply]) false (calls ++ (reply.uses ++ [.close])) := by
  cases h with
  | live hlive =>
      have hnone : ∀ r ∈ ([] : List Reply), r.isRefusal = true := nofun
      simpa using Stage.ended hlive hreply hnone

/-- A session that is over refuses. -/
theorem Stage.refuse (h : Stage uri timeout replies false calls)
    (hreply : reply.isRefusal = true) :
    Stage uri timeout (replies ++ [reply]) false (calls ++ []) := by
  cases h with
  | @ended live last refused hlive hlast hrefused =>
      have hall : ∀ r ∈ refused ++ [reply], r.isRefusal = true :=
        List.forall_mem_append.mpr ⟨hrefused, by simpa using hreply⟩
      simpa using Stage.ended hlive hlast hall

theorem stage_rule (h : Stage uri timeout replies s.isOpen calls) (hrule : Rule s reply more s') :
    Stage uri timeout (replies ++ [reply]) s'.isOpen (calls ++ more) := by
  cases hrule with
  | send _ hopen | quiet hopen =>
      rw [hopen] at h ⊢
      exact h.use rfl
  | @event now event hopen =>
      rw [hopen] at h
      cases hend : event.isTerminal with
      | false =>
          have hreply : (Reply.polled now (some event)).isLast = false := hend
          simpa [after, hopen, hend, Reply.uses] using h.use hreply
      | true =>
          have hreply : (Reply.polled now (some event)).isLast = true := hend
          simpa [after, hopen, hend, Reply.uses] using h.finish hreply
  | close hopen =>
      rw [hopen] at h
      exact h.finish rfl
  | refuse hover | silent hover | closed hover =>
      rw [hover] at h ⊢
      exact h.refuse rfl

/-- A stage in its two parts. -/
theorem Stage.exists_split {isOpen : Bool} (h : Stage uri timeout replies isOpen calls) :
    ∃ live rest, replies = live ++ rest ∧ (∀ reply ∈ live, reply.isLast = false) ∧
      (∀ reply ∈ rest.head?, reply.isLast = true) ∧
      (∀ reply ∈ rest.tail, reply.isRefusal = true) ∧ isOpen = rest.isEmpty ∧
      calls = .connect uri timeout (.ok ()) :: (live ++ rest.take 1).flatMap Reply.uses ++
        if rest.isEmpty then [] else [.close] := by
  cases h with
  | live hlive => exact ⟨replies, [], by simp, hlive, nofun, nofun, rfl, by simp⟩
  | @ended live last refused hlive hlast hrefused =>
      exact ⟨live, last :: refused, rfl, hlive, by simpa using hlast, hrefused, rfl, by simp⟩

theorem filterMap_closing_event? (s : Session) : s.closing.filterMap NetCall.event? = [] := by
  simp [NetCall.event?]

theorem filterMap_flatMap_uses (replies : List Reply) :
    (replies.flatMap Reply.uses).filterMap NetCall.event? = replies.filterMap Reply.event? := by
  induction replies with
  | nil => rfl
  | cons reply replies ih =>
      rw [List.flatMap_cons, List.filterMap_append, ih, Reply.filterMap_uses, List.filterMap_cons]
      cases reply.event? <;> rfl

/-- The owner gets exactly the events that the link hands out. -/
theorem Stage.filterMap_event? {isOpen : Bool} (h : Stage uri timeout replies isOpen calls) :
    replies.filterMap Reply.event? = calls.filterMap NetCall.event? := by
  cases h with
  | live => exact (filterMap_flatMap_uses _).symm
  | @ended live last refused _ _ hrefused =>
      have hnone : refused.filterMap Reply.event? = [] :=
        List.filterMap_eq_nil_iff.mpr fun reply hr => Reply.event?_of_isRefusal (hrefused reply hr)
      calc (live ++ last :: refused).filterMap Reply.event?
          = (live ++ [last]).filterMap Reply.event? := by
            rw [List.append_cons, List.filterMap_append, hnone, List.append_nil]
        _ = ((live ++ [last]).flatMap Reply.uses).filterMap NetCall.event? :=
            (filterMap_flatMap_uses _).symm
        _ = _ := by rw [List.filterMap_append]; exact (List.append_nil _).symm

/-- The time of last activity is that of the latest sign of life, or of the opening. -/
theorem lastActivity_rule
    (h : s.lastActivity = (replies.filterMap Reply.heard?).getLast?.getD opened)
    (hrule : Rule s reply more s') :
    s'.lastActivity = ((replies ++ [reply]).filterMap Reply.heard?).getLast?.getD opened := by
  cases hrule with
  | @event now event hopen =>
      cases halive : event.isActivity with
      | true => simp [after, Reply.heard?, halive]
      | false => simpa [after, Reply.heard?, halive] using h
  | _ => simpa [Reply.heard?] using h

end

namespace Usage

/-- What is known of a session at every moment of its use. -/
structure Kept (uri : String) (timeout : Nat) (opened : Instant) (u : Usage (Recorded σ)) : Prop
    where
  stage : Stage uri timeout u.replies u.session.isOpen u.net.calls
  activity : u.session.lastActivity = (u.replies.filterMap Reply.heard?).getLast?.getD opened

variable {uri : String} {timeout : Nat} {opened : Instant} {u : Usage (Recorded σ)}

theorem kept_step (hu : u.Kept uri timeout opened) (request : Request) :
    (u.step request).Kept uri timeout opened := by
  obtain ⟨reply, calls, -, hreplies, hcalls, hrule⟩ := u.step_rule request
  constructor
  · rw [hreplies, hcalls]
    exact stage_rule hu.stage hrule
  · rw [hreplies]
    exact lastActivity_rule hu.activity hrule

theorem kept_run (hu : u.Kept uri timeout opened) (requests : List Request) :
    (u.run requests).Kept uri timeout opened := by
  induction requests generalizing u with
  | nil => exact hu
  | cons request requests ih => exact ih (kept_step hu request)

/-- Every request is answered. -/
theorem map_request_run (u : Usage (Recorded σ)) (requests : List Request) :
    (u.run requests).replies.map Reply.request = u.replies.map Reply.request ++ requests := by
  induction requests generalizing u with
  | nil => exact (List.append_nil _).symm
  | cons request requests ih =>
      obtain ⟨reply, -, hrequest, hreplies, -, -⟩ := u.step_rule request
      rw [run, List.foldl_cons]
      refine (ih (u.step request)).trans ?_
      rw [hreplies, List.map_append, List.map_singleton, hrequest, List.append_assoc]
      rfl

/-- The same use without a record. -/
def unrecorded (u : Usage (Recorded σ)) : Usage σ :=
  ⟨u.session, u.net.net, u.replies⟩

/-- Keeping a record changes nothing. -/
theorem unrecorded_run (u : Usage (Recorded σ)) (requests : List Request) :
    (u.run requests).unrecorded = u.unrecorded.run requests := by
  induction requests generalizing u with
  | nil => rfl
  | cons request requests ih =>
      have hstep : (u.step request).unrecorded = u.unrecorded.step request := by
        cases request with
        | send => simp [step, unrecorded, ← Recorded.send_net]
        | poll => simp [step, unrecorded, ← Recorded.poll_net]
        | close => simp [step, unrecorded, ← Recorded.close_net]
      rw [run, List.foldl_cons]
      refine (ih _).trans ?_
      rw [hstep]
      rfl

/-- Whatever the link does and whatever the owner of an opened session asks of it: the session
lives until its first last reply, which is a close or an event that ends the link, and it refuses
all requests after that one. The link is used for the replies up to there and closed right after
them, or by the drop, so there is one close and no use after it. The owner gets every event of the
link, in order. The time of last activity is that of the latest sign of life, or of the opening. -/
theorem closes_once {net : σ} {uri : String} {timeout : Nat} {opened : Instant} {s : Session}
    (hopened : (establish (Recorded.blank net) uri timeout opened).1 = .ok s)
    (requests : List Request) :
    let u := (fresh s (establish (Recorded.blank net) uri timeout opened).2).run requests
    u.replies.map Reply.request = requests ∧
      (∃ live rest, u.replies = live ++ rest ∧
        (∀ reply ∈ live, reply.isLast = false) ∧
        (∀ reply ∈ rest.head?, reply.isLast = true) ∧
        (∀ reply ∈ rest.tail, reply.isRefusal = true) ∧
        u.session.isOpen = rest.isEmpty ∧
        let uses := (live ++ rest.take 1).flatMap Reply.uses
        (∀ call ∈ uses, call.isUse = true) ∧
        u.net.calls =
          .connect uri timeout (.ok ()) :: uses ++ (if rest.isEmpty then [] else [.close]) ∧
        u.drop.calls = .connect uri timeout (.ok ()) :: uses ++ [.close]) ∧
      u.replies.filterMap Reply.event? = u.drop.calls.filterMap NetCall.event? ∧
      u.session.lastActivity = (u.replies.filterMap Reply.heard?).getLast?.getD opened := by
  intro u
  obtain ⟨outcome, hresult, hcalls⟩ := establish_rule net uri timeout opened
  obtain ⟨rfl, rfl⟩ : outcome = .ok () ∧ s = ⟨uri, true, opened⟩ := by
    rw [hopened] at hresult
    cases outcome with
    | error e => cases hresult
    | ok => exact ⟨rfl, Except.ok.inj hresult⟩
  have hfresh : (fresh ⟨uri, true, opened⟩
      (establish (Recorded.blank net) uri timeout opened).2).Kept uri timeout opened := by
    refine ⟨?_, rfl⟩
    have hstage : Stage uri timeout [] true [.connect uri timeout (.ok ())] := .live nofun
    simpa [fresh, hcalls] using hstage
  have hu : u.Kept uri timeout opened := kept_run hfresh requests
  have hdrop : u.drop.calls = u.net.calls ++ u.session.closing := close_calls u.session u.net
  refine ⟨map_request_run _ requests, ?_, ?_, hu.activity⟩
  · obtain ⟨live, rest, hreplies, hlive, hlast, hrefused, hopen, hnet⟩ := hu.stage.exists_split
    refine ⟨live, rest, hreplies, hlive, hlast, hrefused, hopen, ?_, hnet, ?_⟩
    · intro call hcall
      obtain ⟨reply, -, hmem⟩ := List.mem_flatMap.mp hcall
      exact Reply.isUse_of_mem_uses hmem
    · rw [hdrop, hnet, closing, hopen]
      cases rest <;> simp
  · rw [hdrop, List.filterMap_append, filterMap_closing_event?, List.append_nil]
    exact hu.stage.filterMap_event?

/-- A session of a link that reports life and data, then breaks: the send fails, the last event
closes the link, and what comes later is refused. -/
theorem closes_once_of_broken_link :
    let net := { Network.silent with
      outcomes := [.ok ()], events := [.connected, .keepAlive, .failed .io, .connected]
      sendResults := [.error .timeout] }
    let opening := establish (Recorded.blank net) "ws://hub" 400 1
    let u := (fresh ⟨"ws://hub", true, 1⟩ opening.2).run
      [.poll 5, .send [7] 9, .poll 6, .poll 8, .close, .poll 10, .send [7] 9]
    opening.1 = .ok ⟨"ws://hub", true, 1⟩ ∧
      u.replies.filterMap Reply.event? = [.connected, .keepAlive, .failed .io] ∧
      u.session = ⟨"ws://hub", false, 6⟩ ∧ u.drop.calls.length = 6 ∧
      ∃ uses, u.drop.calls = .connect "ws://hub" 400 (.ok ()) :: uses ++ [.close] ∧
        ∀ call ∈ uses, call.isUse = true := by
  intro net opening u
  have hopened : opening.1 = .ok ⟨"ws://hub", true, 1⟩ := rfl
  obtain ⟨-, ⟨live, rest, -, -, -, -, -, huses, -, hcalls⟩, -, -⟩ := closes_once hopened
    [.poll 5, .send [7] 9, .poll 6, .poll 8, .close, .poll 10, .send [7] 9]
  exact ⟨hopened, by decide, by decide, by decide, _, hcalls, huses⟩

end Usage

end Session

end Uplink
