import Uplink.Readiness
import Uplink.Timers

/-! # Readiness and those who wait for it

One thread sets and clears flags and may wait itself; numbered tasks wait for masks and poll when
they are told to. Every wait that is not over at once starts a timer in the shared table. -/

namespace Uplink.Readiness

/-- The flags, the shared timers, the mask of each task that still waits, the wakes of each task,
and how many other threads have waited so far. -/
structure Party where
  readiness : Readiness
  timers : Timers
  tasks : List (Option UInt8)
  wakes : List Nat
  threads : Nat

namespace Party

/-- Fresh flags beside timers that already run. -/
def start (timers : Timers) : Party :=
  ⟨.empty, timers, [], [], 0⟩

def caller : Waker := .thread 0

def note (p : Party) (woken : List Waker) : Party :=
  { p with wakes := countWakes p.wakes woken }

def set (p : Party) (mask : UInt8) : Party :=
  let (readiness, woken) := p.readiness.set mask
  { p with readiness }.note woken

def clear (p : Party) (mask : UInt8) : Party :=
  { p with readiness := p.readiness.clear mask }

/-- One look at the flags by a wait with a time limit: it starts its timer if it has to go on. -/
def look (p : Party) (mask : UInt8) (w : Waker) : Bool × Party :=
  let (seen, readiness, woken) := p.readiness.poll mask w
  let p := { p with readiness }.note woken
  if seen then (true, p)
  else
    let (timers, woken) := p.timers.schedule w
    (false, { p with timers }.note woken)

/-- Waits from the calling thread while nobody else acts: the flags are there, or the time limit
passes. -/
def wait (p : Party) (mask : UInt8) : Bool × Party :=
  let (seen, p) := p.look mask caller
  if seen then (true, p) else (false, { p with timers := p.timers.expire caller })

/-- Another thread waits for a mask while this one sets first some flags and then the mask. -/
def waitBeside (p : Party) (mask first : UInt8) : Bool × Party :=
  let p := { p with threads := p.threads + 1 }
  let w := Waker.thread p.threads
  let (before, p) := p.look mask w
  let p := p.set first
  let (between, p) := if before then (true, p) else p.look mask w
  let p := p.set mask
  let (after, p) := if between then (true, p) else p.look mask w
  (after, p)

/-- Polls a task's wait. Nothing when it is over or dropped. -/
def poll (p : Party) (id : Nat) : Option Bool × Party :=
  match p.tasks[id]? with
  | some (some mask) =>
    let (seen, p) := p.look mask (.task id)
    (some seen, if seen then { p with tasks := p.tasks.set id none } else p)
  | _ => (none, p)

/-- Adds a task that waits for a mask, and polls it once. -/
def park (p : Party) (mask : UInt8) : Option Bool × Party :=
  let id := p.tasks.length
  let p := { p with tasks := p.tasks ++ [some mask], wakes := p.wakes ++ [0] }
  p.poll id

/-- Drops a task's wait, and tells whether it was still going on. -/
def forget (p : Party) (id : Nat) : Bool × Party :=
  match p.tasks[id]? with
  | some (some _) => (true, { p with tasks := p.tasks.set id none })
  | _ => (false, p)

end Party

end Uplink.Readiness
