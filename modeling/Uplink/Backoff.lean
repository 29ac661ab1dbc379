/-! # Backoff

The waits between failed connects: a table of at most eight delays, walked from its first entry
and held at its last one until a connect succeeds. -/

namespace Uplink

def maxBackoffSteps : Nat := 8

/-- The delays in milliseconds of a link that was given none. -/
def defaultBackoffSchedule : List UInt32 := [1000, 2000, 5000, 10000, 15000, 30000]

def fallbackDelay : UInt32 := 1000

/-- A position in a table of delays. -/
structure Backoff where
  steps : List UInt32
  index : Nat
  index_lt : index < steps.length

namespace Backoff

/-- The table that a schedule gives: its first eight delays, or one second when it has none. -/
def table (schedule : List UInt32) : List UInt32 :=
  if schedule.isEmpty then [fallbackDelay] else schedule.take maxBackoffSteps

theorem length_table_pos (schedule : List UInt32) : 0 < (table schedule).length := by
  cases schedule with
  | nil => simp [table]
  | cons delay rest => simp [table, maxBackoffSteps]

def ofSchedule (schedule : List UInt32) : Backoff :=
  ⟨table schedule, 0, length_table_pos schedule⟩

instance : Inhabited Backoff := ⟨ofSchedule defaultBackoffSchedule⟩

def peek (b : Backoff) : UInt32 :=
  b.steps.get ⟨b.index, b.index_lt⟩

/-- The same backoff one delay further, or still at the last one. -/
def advance (b : Backoff) : Backoff :=
  ⟨b.steps, min (b.index + 1) (b.steps.length - 1), by have := b.index_lt; omega⟩

def nextDelay (b : Backoff) : UInt32 × Backoff :=
  (b.peek, b.advance)

def reset (b : Backoff) : Backoff :=
  ⟨b.steps, 0, Nat.lt_of_le_of_lt (Nat.zero_le _) b.index_lt⟩

def maxDelay (b : Backoff) : UInt32 :=
  b.steps.get ⟨b.steps.length - 1, by have := b.index_lt; omega⟩

end Backoff

end Uplink
