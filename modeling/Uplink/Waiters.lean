/-! # Waiting tasks

A task that cannot go on leaves its waker behind and is polled again when it is woken. A
registration keeps a few wakers; one more than fits wakes all the others, so that each of them
looks again and registers anew. -/

namespace Uplink

/-- The handle by which a task is woken: one of a numbered task, or of a thread that blocks. -/
inductive Waker
  | task (id : Nat)
  | thread (id : Nat)
deriving DecidableEq

/-- The wakers registered in one place, oldest first. -/
structure Waiters where
  wakers : List Waker
deriving DecidableEq

namespace Waiters

def empty : Waiters := ⟨[]⟩

instance : Inhabited Waiters := ⟨empty⟩

/-- Registers a waker among at most `limit`, and names the wakers that are woken by it. One that
is there already changes nothing; one that does not fit wakes and removes all the others. -/
def register (limit : Nat) (w : Waker) (t : Waiters) : Waiters × List Waker :=
  if t.wakers.contains w then (t, [])
  else if limit ≤ t.wakers.length then (⟨[w]⟩, t.wakers)
  else (⟨t.wakers ++ [w]⟩, [])

def wake (t : Waiters) : Waiters × List Waker :=
  (empty, t.wakers)

end Waiters

/-- Counts a wake for every task in `woken`; `counts` has one entry for each numbered task. -/
def countWakes (counts : List Nat) (woken : List Waker) : List Nat :=
  counts.mapIdx fun id n => n + woken.count (.task id)

end Uplink
