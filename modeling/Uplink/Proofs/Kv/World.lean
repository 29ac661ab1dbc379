import Uplink.Kv.Store

/-! # Callers around a store

A store with the requests and the shutdowns that are made to it, each of them in several steps.
One move is made at a time: the worker makes a step, a call is begun, or a call goes on. Nothing
is assumed of the order of the moves or of the clock. -/

namespace Uplink.Kv

/-! ## Requests -/

/-- What a caller may ask of a store. -/
inductive Call
  | set (name : String) (value : Value)
  | get (name : String) (kind : Kind)
  | reset

namespace Call

/-- The command for a call, if its key is one. -/
def command? : Call → Option Command
  | .set name value => (Key.ofName? name).map (.set · value)
  | .get name kind => (Key.ofName? name).map (.get · kind)
  | .reset => some .erase

/-- What a caller makes of the reply to its command. -/
def answer : Call → Reply → Reply
  | _, .error e => .error e
  | .get _ kind, .ok (some value) =>
    if value.kind = kind then .ok (some value) else .error .notFound
  | .get _ _, .ok none => .error .notFound
  | .set _ _, .ok _ | .reset, .ok _ => .ok none

end Call

/-- The whole call, while nobody else acts. -/
def Store.perform {σ : Type} [Backend σ] (s : Store σ) : Call → Reply × Store σ
  | .set name value => let (result, s) := s.set name value; (result.map fun () => none, s)
  | .get name kind => let (result, s) := s.get name kind; (result.map some, s)
  | .reset => let (result, s) := s.reset; (result.map fun () => none, s)

/-- How far a request has come. -/
inductive Stage
  /-- It looks at its key and whether the store is open. -/
  | begun
  /-- It looks for room in the channel. -/
  | offering (c : Command)
  /-- Its command has entered the channel under a number, and it waits for the reply. -/
  | waiting (id : Nat)
  | answered (a : Reply)

/-- A request with what it is about. -/
structure Inquiry where
  call : Call
  stage : Stage

/-! ## Shutdowns -/

/-- How a shutdown comes to its end. -/
inductive Ending
  /-- The worker has ended. -/
  | joined
  /-- The worker could not be told to end in time, and is left to itself. -/
  | detached
  /-- Another shutdown came first. -/
  | redundant
deriving DecidableEq

/-- How far a shutdown has come. -/
inductive Closing
  /-- It closes the store. -/
  | begun
  /-- It looks for room in the channel, to tell the worker to end. -/
  | telling
  /-- It waits for the worker to end. -/
  | joining
  | returned (ending : Ending)

/-- Whether the worker has ended, as asked or not. -/
def WorkerState.hasEnded : WorkerState → Bool
  | .stopped | .broken => true
  | .idle | .holding _ _ => false

/-! ## The world -/

/-- A command that the backend has executed, with its number and the reply. Without a reply the
backend broke down over it. -/
structure Execution where
  id : Nat
  command : Command
  outcome : Option Reply

/-- What happens to the commands. -/
inductive Event
  /-- The command of a request enters the channel under a number. -/
  | entered (request id : Nat) (c : Command)
  /-- The backend executes a command. -/
  | executed (x : Execution)

/-- What may happen next. -/
inductive Move
  /-- The worker makes a step. -/
  | work
  | ask (call : Call)
  /-- A request goes on, at a moment when its time limit has or has not passed. -/
  | go (i : Nat) (expired : Bool)
  | close
  /-- A shutdown goes on. -/
  | proceed (j : Nat) (expired : Bool)

/-- A store with its callers, and what happened to the commands. -/
structure World (σ : Type) where
  store : Store σ
  inquiries : List Inquiry
  closings : List Closing
  log : List Event

/-- What is seen of the worker's next step. -/
def Store.marks {σ : Type} [Backend σ] (s : Store σ) : List Event :=
  match s.worker with
  | .holding id c => [.executed ⟨id, c, (Backend.execute s.backend c).1⟩]
  | .idle | .stopped | .broken => []

namespace World

variable {σ : Type}

/-- A store that has seen no request. -/
def fresh (backend : σ) : World σ :=
  ⟨.spawn backend, [], [], []⟩

/-- A request comes to its next stage. -/
def turn (w : World σ) (i : Nat) (stage : Stage) : World σ :=
  { w with inquiries := w.inquiries.modify i ({ · with stage }) }

def advance (w : World σ) (j : Nat) (closing : Closing) : World σ :=
  { w with closings := w.closings.set j closing }

section Frame

variable (w : World σ) (i j : Nat) (stage : Stage) (closing : Closing)

@[simp] theorem length_turn : (w.turn i stage).inquiries.length = w.inquiries.length := by
  simp [turn]

theorem getElem?_turn :
    (w.turn i stage).inquiries[j]? =
      if i = j then w.inquiries[j]?.map ({ · with stage }) else w.inquiries[j]? := by
  rw [turn, List.getElem?_modify]
  split <;> simp

/-- The last request comes to its next stage. -/
theorem inquiries_turn_last {inquiries : List Inquiry} {call : Call} {old : Stage}
    (h : w.inquiries = inquiries ++ [⟨call, old⟩]) :
    (w.turn inquiries.length stage).inquiries = inquiries ++ [⟨call, stage⟩] := by
  simp [turn, h, List.modify_eq_take_drop, List.modifyHead]

@[simp] theorem store_advance : (w.advance j closing).store = w.store := rfl

@[simp] theorem inquiries_advance : (w.advance j closing).inquiries = w.inquiries := rfl

@[simp] theorem log_advance : (w.advance j closing).log = w.log := rfl

end Frame

def check (w : World σ) (i : Nat) (call : Call) : World σ :=
  match call.command? with
  | none => w.turn i (.answered (.error .invalidKey))
  | some c =>
    if w.store.isClosed then w.turn i (.answered (.error .closed)) else w.turn i (.offering c)

def offer (w : World σ) (i : Nat) (c : Command) (expired : Bool) : World σ :=
  match w.store.admit? c with
  | some (id, store) =>
    { w.turn i (.waiting id) with store, log := w.log ++ [.entered i id c] }
  | none => if expired then w.turn i (.answered (.error .queueFull)) else w

def await (w : World σ) (i : Nat) (call : Call) (id : Nat) (expired : Bool) : World σ :=
  match w.store.replies.lookup id with
  | some reply => w.turn i (.answered (call.answer reply))
  | none => if expired then w.turn i (.answered (.error .timeout)) else w

def go (w : World σ) (i : Nat) (expired : Bool) : World σ :=
  match w.inquiries[i]? with
  | none => w
  | some ⟨call, stage⟩ =>
    match stage with
    | .begun => w.check i call
    | .offering c => w.offer i c expired
    | .waiting id => w.await i call id expired
    | .answered _ => w

def proceed (w : World σ) (j : Nat) (expired : Bool) : World σ :=
  match w.closings[j]? with
  | none => w
  | some .begun =>
    if w.store.isClosed then w.advance j (.returned .redundant)
    else { w.advance j .telling with store := { w.store with isClosed := true } }
  | some .telling =>
    match w.store.enqueue? .shutdown with
    | some store => { w.advance j .joining with store }
    | none => if expired then w.advance j (.returned .detached) else w
  | some .joining =>
    if w.store.worker.hasEnded then w.advance j (.returned .joined) else w
  | some (.returned _) => w

variable [Backend σ]

def work (w : World σ) : World σ :=
  match w.store.workerStep? with
  | some store => { w with store, log := w.log ++ w.store.marks }
  | none => w

/-- Makes a move. A move that is not possible changes nothing. -/
def step (w : World σ) : Move → World σ
  | .work => w.work
  | .ask call => { w with inquiries := w.inquiries ++ [⟨call, .begun⟩] }
  | .go i expired => w.go i expired
  | .close => { w with closings := w.closings ++ [.begun] }
  | .proceed j expired => w.proceed j expired

def run (w : World σ) (moves : List Move) : World σ :=
  moves.foldl step w

end World

end Uplink.Kv
