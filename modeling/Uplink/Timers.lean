import Uplink.Waiters

/-! # The timer table

All waits with a time limit share one table of sixty-four timers. A wait that is given up keeps
its timer until the limit passes. When the table is full, a new timer takes the place of the
newest one, whose task is woken so that it asks again. -/

namespace Uplink

def maxTimers : Nat := 64

/-- The running timers; one whose task is gone has nobody to wake. -/
structure Timers where
  slots : List (Option Waker)
deriving DecidableEq

namespace Timers

/-- A table in which `taken` timers of tasks long gone still run. -/
def ofTaken (taken : Nat) : Timers :=
  ⟨List.replicate taken none⟩

/-- Starts the timer of a task, unless it runs already, and names the task woken by it. -/
def schedule (t : Timers) (w : Waker) : Timers × List Waker :=
  if t.slots.contains (some w) then (t, [])
  else if t.slots.length < maxTimers then (⟨t.slots ++ [some w]⟩, [])
  else (⟨t.slots.dropLast ++ [some w]⟩, (t.slots.getLast?.bind id).toList)

/-- Ends the timer of a task whose limit has passed: the newest timer takes its place. -/
def expire (t : Timers) (w : Waker) : Timers :=
  match t.slots.idxOf? (some w), t.slots.getLast? with
  | some i, some last => ⟨(t.slots.set i last).dropLast⟩
  | _, _ => t

/-- What is left of a timer when everybody has gone and some time has passed: that of a thread,
which waits for seconds, has ended, and that of a task, which waits for an hour, runs on. -/
def remains : Option Waker → Option (Option Waker)
  | some (.thread _) => none
  | some (.task _) | none => some none

def abandon (t : Timers) : Timers :=
  ⟨t.slots.filterMap remains⟩

end Timers

end Uplink
