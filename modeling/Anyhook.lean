import Anyhook.Lib.Program
import Anyhook.Lib.Interleave
import Anyhook.Lib.OrderedMap
import Anyhook.Lib.Run
import Anyhook.Lib.Regex
import Anyhook.Lib.Padded
import Anyhook.Lib.CodeUnits
import Anyhook.Lib.Sorted
import Anyhook.Lib.Joined
import Anyhook.Lib.JsonText
import Anyhook.Lib.Scan
import Anyhook.Lib.TokenBucket
import Anyhook.Lib.Tickets
import Anyhook.Core.Types
import Anyhook.Core.Ports
import Anyhook.Core.Policy
import Anyhook.Core.JsNumber
import Anyhook.Core.Fanout
import Anyhook.Core.Engine
import Anyhook.Testing.MemoryState
import Anyhook.Testing.StateStore
import Anyhook.Testing.World
import Anyhook.Testing.Card
import Anyhook.Go.Engine
import Anyhook.Testing.Pool
import Anyhook.Go.Mirrors
import Anyhook.Go.IdempotencyKey
import Anyhook.Aws.StateDynamo
import Anyhook.Breaker.Stage
import Anyhook.Breaker.Concurrent
import Anyhook.Breaker.FalseTrip
import Anyhook.Breaker.Sequential
import Anyhook.Delivery.Phase
import Anyhook.Delivery.Sequential
import Anyhook.Delivery.Isolation
import Anyhook.Aws.TransportSqs
import Anyhook.Aws.Scheduler
import Anyhook.Aws.Retries
import Anyhook.Aws.NeverEarly
import Anyhook.Aws.Lease
import Anyhook.Aws.QueueSize
import Anyhook.Aws.Table
import Anyhook.Aws.DynamoStore
import Anyhook.Aws.Idempotency
import Anyhook.Aws.Rotation
import Anyhook.Aws.Keys
import Anyhook.Aws.Contents
import Anyhook.Aws.Holds
import Anyhook.Aws.SameStore
import Anyhook.Aws.Logs
import Anyhook.Aws.Recovery
import Anyhook.Cloudflare.Schedule
import Anyhook.Cloudflare.Alarm
import Anyhook.Cloudflare.Drains
import Anyhook.Cloudflare.Kept
import Anyhook.Cloudflare.StateDo
import Anyhook.Cloudflare.Slots
import Anyhook.Cloudflare.Held
import Anyhook.Cloudflare.Represents
import Anyhook.Cloudflare.Agrees
import Anyhook.Cloudflare.SameStore
import Anyhook.Cloudflare.Writes
import Anyhook.Cloudflare.Tenants
import Anyhook.Cloudflare.Listing
import Anyhook.Security.UrlPolicy
import Anyhook.Security.Ipv6
import Anyhook.Security.Literals
import Anyhook.Security.Spelling
import Anyhook.Go.UrlPolicy
import Anyhook.Security.InetAton
import Anyhook.Security.HostNames
import Anyhook.Go.Spellings
import Anyhook.Delivery.NoLoss
import Anyhook.Delivery.Waits
import Anyhook.Delivery.Handled
import Anyhook.Delivery.Quiesces
import Anyhook.Delivery.Wire
import Anyhook.Delivery.Books
import Anyhook.Delivery.Duplicates
import Anyhook.Delivery.Accept
import Anyhook.Delivery.Claim
import Anyhook.Delivery.FanoutOnce
import Anyhook.Delivery.Machine
import Anyhook.Delivery.Replay
import Anyhook.Delivery.RetrySafe
import Anyhook.Delivery.RetryAfter
import Anyhook.RateLimit.Window
import Anyhook.RateLimit.Polls
import Anyhook.RateLimit.Concurrent
import Anyhook.Portal.Store
import Anyhook.Portal.Router
import Anyhook.Portal.Authority
import Anyhook.Portal.Secrets
import Anyhook.Portal.Sends
import Anyhook.Portal.Malformed
import Anyhook.Lib.Base64
import Anyhook.Signing.Signature
import Anyhook.Go.Numbers
import Anyhook.Go.Signing
import Anyhook.Signing.RoundTrip
import Anyhook.Signing.Authentic
import Anyhook.Signing.Agreement
import Anyhook.Lib.Agenda
import Anyhook.Testing.Harness
import Anyhook.Delivery.Sessions
import Anyhook.Lib.Until
import Anyhook.Testing.Backed
import Anyhook.Delivery.Deployed
import Anyhook.Aws.Deployed
import Anyhook.Cloudflare.Deployed
import Anyhook.Aws.GoStore
