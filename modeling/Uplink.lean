import Uplink.Address
import Uplink.Backoff
import Uplink.Binary64
import Uplink.Config
import Uplink.Config.Blob
import Uplink.Config.Json
import Uplink.Config.Storage
import Uplink.Credentials
import Uplink.Envelope
import Uplink.Error
import Uplink.Json.Document
import Uplink.Json.Number
import Uplink.Json.Printer
import Uplink.Json.Token
import Uplink.Json.Value
import Uplink.Kv.Backend
import Uplink.Kv.Nvs
import Uplink.Kv.Store
import Uplink.Kv.Value
import Uplink.Link
import Uplink.Message
import Uplink.Network
import Uplink.Queue
import Uplink.Queue.Party
import Uplink.Queue.Pending
import Uplink.Readiness
import Uplink.Readiness.Party
import Uplink.Session
import Uplink.Shared
import Uplink.Status
import Uplink.StopToken
import Uplink.Task
import Uplink.Timers
import Uplink.Transport
import Uplink.Transport.Timeline
import Uplink.Unicode.Unprinted
import Uplink.Uri
import Uplink.Utf8
import Uplink.Varint
import Uplink.Waiters
import Uplink.WebSocket.Client
import Uplink.WebSocket.Connection
import Uplink.WebSocket.Frame
import Uplink.WebSocket.Peer
import Uplink.WebSocket.Socket
import Uplink.WebSocket.Target
import Uplink.WebSocket.Upgrade
import Uplink.Worker
import Uplink.Proofs.Queue.Laws
import Uplink.Proofs.Queue.Usage
import Uplink.Proofs.Worker.Semantics
import Uplink.Proofs.Worker.Course
import Uplink.Proofs.Worker.Invariant
import Uplink.Proofs.Worker.Discipline
import Uplink.Proofs.Transport.World
import Uplink.Proofs.Worker.Delivery
import Uplink.Proofs.Transport.Semantics
import Uplink.Proofs.Transport.Invariant
import Uplink.Proofs.Transport.Aftermath
import Uplink.Proofs.Transport.Exclusion
import Uplink.Proofs.Transport.Places
import Uplink.Proofs.Worker.Reception
import Uplink.Proofs.Worker.Deeds
import Uplink.Proofs.Worker.Attention
import Uplink.Proofs.Worker.Windup
import Uplink.Proofs.Queue.Semantics
import Uplink.Proofs.Queue.Order
import Uplink.Proofs.Queue.Wakeups
import Uplink.Proofs.Queue.Crowd
import Uplink.Proofs.Queue.Churn
import Uplink.Proofs.Kv.Semantics
import Uplink.Proofs.Kv.Invariant
import Uplink.Proofs.Kv.Service
import Uplink.Proofs.Kv.Shutdown
import Uplink.Proofs.Kv.Solitary
import Uplink.Proofs.Utf8
import Uplink.Proofs.Json.Text
import Uplink.Proofs.Json.Integer
import Uplink.Proofs.Json.Members
import Uplink.Proofs.Json.RoundTrip
import Uplink.Proofs.Envelope.Draft
import Uplink.Proofs.Envelope
import Uplink.Proofs.Envelope.Received
import Uplink.Proofs.Json.Cut
import Uplink.Proofs.Envelope.Truncation
import Uplink.Proofs.Json.Grammar
import Uplink.Proofs.Json.Tree
import Uplink.Proofs.Json.Lookup
import Uplink.Proofs.Envelope.Reference
import Uplink.Proofs.Config.Varint
import Uplink.Proofs.Config.Blob
import Uplink.Proofs.Kv.Stored
import Uplink.Proofs.Kv.TypedMap
import Uplink.Proofs.Credentials
import Uplink.Proofs.Credentials.Classification
import Uplink.Proofs.Settings
import Uplink.Proofs.Transport.Caller
import Uplink.Proofs.Transport.Tokens
import Uplink.Proofs.Transport.Signals
import Uplink.Proofs.Transport.Lifecycle
import Uplink.Proofs.Worker.Strides
import Uplink.Proofs.Worker.Publication
import Uplink.Proofs.Transport.Publication
import Uplink.Proofs.Worker.Schedule
import Uplink.Proofs.Worker.Landmarks
import Uplink.Proofs.Worker.Outbound
import Uplink.Proofs.Worker.Attempts
import Uplink.Proofs.Worker.Reconnect
import Uplink.Proofs.Readiness.Usage
import Uplink.Proofs.Readiness.Wakeups
import Uplink.Proofs.Readiness.Crowd
import Uplink.Proofs.Session
import Uplink.Proofs.StopToken
import Uplink.Proofs.Worker.Walk
import Uplink.Proofs.Worker.Tick
import Uplink.Proofs.Worker.Liveness
import Uplink.Proofs.Config.Canonical
import Uplink.Proofs.Worker.Vitals
import Uplink.Proofs.WebSocket.Wire
import Uplink.Proofs.WebSocket.Polling
import Uplink.Proofs.WebSocket.Line
import Uplink.Proofs.Worker.Fairness
import Uplink.Proofs.Backoff
import Uplink.Proofs.Message
import Uplink.Proofs.Kv.Bound
import Uplink.Proofs.Uri
import Uplink.Proofs.WebSocket.Target
