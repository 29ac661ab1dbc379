/-! # Tasks

Where the two workers run: a name for the scheduler, a core, a priority and a stack. -/

namespace Uplink

/-- The two cores. -/
inductive Core
  /-- The core that carries the radio. -/
  | pro
  /-- The core left to the application. -/
  | app
deriving DecidableEq

/-- The number by which the scheduler knows a core. -/
def Core.number : Core → Nat
  | .pro => 0
  | .app => 1

/-- What the scheduler is told about a task. The name ends in a zero character. -/
structure TaskSpec where
  name : String
  core : Core
  priority : Nat
  stackKilobytes : Nat
deriving DecidableEq

/-- The name without the zero characters at its end. -/
def TaskSpec.displayName (spec : TaskSpec) : String :=
  String.ofList (spec.name.toList.reverse.dropWhile (· = '\x00')).reverse

def linkTask : TaskSpec := ⟨"ws-link\x00", .pro, 5, 8⟩

def kvTask : TaskSpec := ⟨"kv-store\x00", .app, 5, 4⟩

end Uplink
