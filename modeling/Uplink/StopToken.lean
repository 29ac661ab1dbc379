import Uplink.Waiters

/-! # Stop requests

How a run is told to end, and how it tells that it has. Either message is a flag that stays set
and a signal that wakes who waits for it. A signal is taken by the one who sees it. -/

namespace Uplink

/-- A signal: nothing happened, a task waits for it, or it is there to be taken. -/
inductive Signal
  | idle
  | awaited (w : Waker)
  | raised
deriving DecidableEq

namespace Signal

/-- Raises the signal, and names the task woken by it. -/
def raise : Signal → Signal × List Waker
  | .awaited w => (.raised, [w])
  | .idle | .raised => (.raised, [])

/-- Takes the signal if it is there. Otherwise the waker is registered in place of an earlier
one, whose task is woken. -/
def poll (s : Signal) (w : Waker) : Bool × Signal × List Waker :=
  match s with
  | .raised => (true, .idle, [])
  | .idle => (false, .awaited w, [])
  | .awaited old => (false, .awaited w, if old = w then [] else [old])

end Signal

/-- What a wait for a stop request looks at next. -/
inductive Lookout
  | flag
  | signal
deriving DecidableEq

/-- What a look comes to. -/
inductive Sight
  /-- A stop is requested, and the wait is over. -/
  | requested
  | more (next : Lookout)
  /-- There was nothing. The waker is left with the signal, and the task may sleep. -/
  | nothing
deriving DecidableEq

/-- The request to stop and the notice of the exit. -/
structure StopToken where
  isRequested : Bool
  hasExited : Bool
  request : Signal
  exit : Signal
deriving DecidableEq

namespace StopToken

def fresh : StopToken := ⟨false, false, .idle, .idle⟩

instance : Inhabited StopToken := ⟨fresh⟩

/-- The first step of a stop request: the flag. -/
def storeRequested (t : StopToken) : StopToken :=
  { t with isRequested := true }

/-- The second step of a stop request: the signal. -/
def raiseRequest (t : StopToken) : StopToken × List Waker :=
  let (request, woken) := t.request.raise
  ({ t with request }, woken)

/-- The first step of an exit notice: the flag. -/
def storeExited (t : StopToken) : StopToken :=
  { t with hasExited := true }

/-- The second step of an exit notice: the signal. -/
def raiseExit (t : StopToken) : StopToken × List Waker :=
  let (exit, woken) := t.exit.raise
  ({ t with exit }, woken)

def pollRequest (t : StopToken) (w : Waker) : Bool × StopToken × List Waker :=
  let (seen, request, woken) := t.request.poll w
  (seen, { t with request }, woken)

/-- A wait for a stop request looks at the flag and, as long as that is not set, at the signal. A
signal that it takes sends it back to the flag. -/
def lookForRequest (t : StopToken) (w : Waker) : Lookout → Sight × StopToken × List Waker
  | .flag => (if t.isRequested then .requested else .more .signal, t, [])
  | .signal =>
    let (seen, t, woken) := t.pollRequest w
    (if seen then .more .flag else .nothing, t, woken)

def pollExit (t : StopToken) (w : Waker) : Bool × StopToken × List Waker :=
  let (seen, exit, woken) := t.exit.poll w
  (seen, { t with exit }, woken)

end StopToken

end Uplink
