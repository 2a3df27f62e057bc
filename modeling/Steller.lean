import Steller.Lib.Incremental
import Steller.Lib.Keyed
import Steller.Lib.PrefixCode
import Steller.Lib.Expiry
import Steller.Lib.Transition
import Steller.Lib.WriteAhead
import Steller.Lib.Atomic
import Steller.Std.Numeral
import Steller.Std.Io
import Steller.Std.Fault
import Steller.Domain.Command
import Steller.Domain.Channels
import Steller.Domain.Pruning
import Steller.Domain.Cache
import Steller.Domain.History
import Steller.Domain.Presence
import Steller.Domain.Batch
import Steller.Domain.Concurrent
import Steller.Domain.Linearizable
import Steller.Domain.Executor
import Steller.Resp.Grammar
import Steller.Resp.Codec
import Steller.Resp.Depth
import Steller.Resp.Command
import Steller.Resp.Language
import Steller.Resp.Reply
import Steller.Inbound.Session
import Steller.Inbound.Ttl
import Steller.Outbound.Aof
import Steller.Outbound.Format
import Steller.Outbound.Faults
import Steller.Outbound.Restart
import Steller.Outbound.Persister
import Steller.Outbound.Recovery
import Steller.Inbound.Server
import Steller.Inbound.Compaction
import Steller.Inbound.Provenance
import Steller.Inbound.PubSub
import Steller.Inbound.Registry
import Steller.Inbound.Acks
import Steller.Inbound.Transcript
import Steller.Inbound.Delivery
import Steller.Inbound.Accept
import Steller.Inbound.Repl
import Steller.Inbound.Conversation
import Steller.Inbound.Pipeline
import Steller.Inbound.Wire
import Steller.Inbound.Shutdown
import Steller.Inbound.Threads
import Steller.Inbound.Subscriber
import Steller.Inbound.PowerLoss
