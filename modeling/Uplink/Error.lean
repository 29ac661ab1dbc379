import Uplink.Config
import Uplink.Kv.Value

/-! # Errors of the transport

What its callers see. Errors of the queue, the configuration and the store keep their wording
where it says enough and gain a word of context elsewhere. -/

namespace Uplink

/-- Why a push to a queue did not go through. -/
inductive QueueError
  /-- The queue was full and the caller would not wait. -/
  | full
  /-- The queue stayed full for as long as the caller would wait. -/
  | timedOut
deriving DecidableEq

def QueueError.message : QueueError → String
  | .full => "queue full"
  | .timedOut => "timed out waiting for queue space"

inductive TransportError
  | alreadyStarted
  /-- An earlier worker has not exited yet. -/
  | busy
  | notRunning
  | queueFull
  /-- No room in the outbound queue within the time allowed. -/
  | timedOut
  | config (reason : String)
  | spawn
  | storage (cause : Kv.KvError)
deriving DecidableEq

namespace TransportError

def message : TransportError → String
  | .alreadyStarted => "transport already started"
  | .busy => "previous worker still shutting down"
  | .notRunning => "transport not running"
  | .queueFull => "outbound queue full"
  | .timedOut => QueueError.timedOut.message
  | .config reason => "config: " ++ reason
  | .spawn => "worker thread spawn failed"
  | .storage cause => "storage: " ++ cause.message

def ofQueueError : QueueError → TransportError
  | .full => .queueFull
  | .timedOut => .timedOut

def ofConfigError : ConfigError → TransportError
  | .validationFailed reason => .config reason
  | .corrupted => .config "stored config corrupted"

def ofKvError : Kv.KvError → TransportError :=
  .storage

end TransportError

end Uplink
