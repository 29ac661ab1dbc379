import Uplink.Waiters
import Uplink.Error

/-! # Bounded queues

A first-in first-out queue of fixed capacity, shared between tasks. Senders wait for room and
receivers for an item: a push that goes through wakes the receivers that wait, a pop that yields
an item and every clear wake the senders. Each operation below is one atomic step. -/

namespace Uplink

def defaultQueueDepth : Nat := 16

def maxQueueWaiters : Nat := 8

/-- The items in order of arrival, and who waits on either side. -/
structure Queue (α : Type) where
  capacity : Nat
  items : List α
  senders : Waiters
  receivers : Waiters

namespace Queue

variable {α : Type}

def empty (capacity : Nat) : Queue α :=
  ⟨capacity, [], .empty, .empty⟩

def length (q : Queue α) : Nat :=
  q.items.length

def isEmpty (q : Queue α) : Bool :=
  q.items.isEmpty

def isFull (q : Queue α) : Bool :=
  q.capacity ≤ q.items.length

/-- Appends an item if there is room, and names the receivers that are woken. -/
def tryPush? (q : Queue α) (a : α) : Option (Queue α × List Waker) :=
  if q.isFull then none
  else
    let (receivers, woken) := q.receivers.wake
    some ({ q with items := q.items ++ [a], receivers }, woken)

/-- Removes the oldest item if there is one, and names the senders that are woken. -/
def tryPop? (q : Queue α) : Option (α × Queue α × List Waker) :=
  match q.items with
  | [] => none
  | a :: items =>
    let (senders, woken) := q.senders.wake
    some (a, { q with items, senders }, woken)

/-- Removes every item, and names the senders that are woken. -/
def clear (q : Queue α) : Queue α × List Waker :=
  let (senders, woken) := q.senders.wake
  ({ q with items := [], senders }, woken)

def parkSender (q : Queue α) (w : Waker) : Queue α × List Waker :=
  let (senders, woken) := q.senders.register maxQueueWaiters w
  ({ q with senders }, woken)

def parkReceiver (q : Queue α) (w : Waker) : Queue α × List Waker :=
  let (receivers, woken) := q.receivers.register maxQueueWaiters w
  ({ q with receivers }, woken)

end Queue

end Uplink
