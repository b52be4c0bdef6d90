import Observatory.Model.World
import Observatory.Verify.Conformance
import Observatory.Verify.ApprovedCalls
import Observatory.Verify.Wakeup
import Observatory.Verify.Leases
import Observatory.Verify.CriticalFailure
import Observatory.Verify.Expiry
import Observatory.Verify.Stop
import Observatory.Verify.Completed
import Observatory.Verify.Publisher
import Observatory.Verify.Decisions
import Observatory.Verify.AuditTrail
import Observatory.Verify.Boundary
import Observatory.Verify.EventLog
import Observatory.Verify.Retry
import Observatory.Verify.Duplicates
import Observatory.Verify.Settling
import Observatory.Verify.Ssrf
import Observatory.Verify.AgentScorer
import Observatory.Verify.EventStream
import Observatory.Verify.Queueing
import Observatory.Verify.Outcome
import Observatory.Verify.Recovery
import Observatory.Verify.RateLimit
import Observatory.Data.Acyclic
import Observatory.Verify.Memory
import Observatory.Verify.Supersession
import Observatory.Verify.Retrieval
import Observatory.Verify.Deliveries
import Observatory.Verify.Nonces
import Observatory.Verify.Redaction
import Observatory.Verify.Embedding
import Observatory.Verify.Redirects
import Observatory.Verify.PromptSize
import Observatory.Verify.TokenUsage
import Observatory.Verify.ToolCalls
import Observatory.Verify.Canonical
import Observatory.Verify.Posting
import Observatory.Verify.DatabaseUrls
import Observatory.Verify.Generator
import Observatory.Verify.NonceTable
import Observatory.Verify.Columns
import Observatory.Verify.Did
import Observatory.Verify.Discovery
import Observatory.Verify.ActionHash
import Observatory.Verify.Evaluator
import Observatory.Verify.Admission
import Observatory.Verify.Breaker
import Observatory.Verify.Reclaim
import Observatory.Verify.Poison
import Observatory.Verify.ToolRegistry
import Observatory.Verify.OutboxKeys
import Observatory.Verify.Creation
import Observatory.Verify.SecretScan
import Observatory.Verify.Settings
import Observatory.Verify.Sessions
import Observatory.Verify.Rooms
import Observatory.Verify.Starts
import Observatory.Verify.Polling
import Observatory.Verify.Signing
import Observatory.Verify.Bot
import Observatory.Verify.Github
import Observatory.Verify.Alerts
import Observatory.Verify.Evaluations
import Observatory.Verify.StaticFiles
import Observatory.Verify.Guard
