import Anyhook.Lib.CodeUnits
import Mathlib.Data.Rat.Defs

/-! The domain types of packages/core/src/types, shared by both engines. Times are
epoch milliseconds and arithmetic is exact, so a time may have a fractional part
(a jittered retry). A payload is carried as its JSON text. -/
namespace Anyhook.Core
open Anyhook.Lib.CodeUnits

/-- Epoch milliseconds, or a duration in milliseconds. -/
abbrev Time := ℚ

inductive MessageStatus where
  | pending | delivering | delivered | retrying | blocked | dead
  deriving DecidableEq, Repr

/-- One (event × endpoint) delivery obligation. `attemptNo` indexes the retry schedule. -/
structure Message where
  messageId : String
  tenant : String
  endpointId : String
  eventId : String
  eventType : String
  payload : String
  attemptNo : Int
  status : MessageStatus
  nextAttemptAt : Option Time
  createdAt : Time
  deriving DecidableEq, Repr

inductive AttemptStatus where
  | code (n : Int)
  | timeout
  | network
  deriving DecidableEq, Repr

inductive AttemptOutcome where
  | delivered | retried | dead
  deriving DecidableEq, Repr

structure Attempt where
  messageId : String
  endpointId : String
  tenant : String
  eventType : String
  attemptNo : Int
  status : AttemptStatus
  latencyMs : Time
  respSnippet : Slice
  ts : Time
  outcome : AttemptOutcome
  deriving DecidableEq, Repr

/-- `circuitOpenExpired` is reserved by the source and never emitted. -/
inductive DlqReason where
  | exhaustedRetries | permanent4xx | blockedSsrf | endpointGone | circuitOpenExpired
  deriving DecidableEq, Repr

structure DlqRow where
  message : Message
  reason : DlqReason
  deriving DecidableEq, Repr

structure Endpoint where
  endpointId : String
  tenant : String
  url : String
  eventTypes : List String
  description : Option String
  disabled : Bool
  rateLimit : Option ℚ
  createdAt : Time
  secrets : List String
  deriving DecidableEq, Repr

inductive CircuitState where
  | closed | opened | halfOpen
  deriving DecidableEq, Repr

structure CircuitRecord where
  state : CircuitState
  consecutiveFailures : Nat
  openedAt : Option Time
  cooldownMs : Time
  deriving DecidableEq, Repr

structure RateBucket where
  tokens : ℚ
  lastRefillMs : Time
  deriving DecidableEq, Repr

structure RetryConfig where
  scheduleMs : List Time

/-- A threshold of zero opens the circuit at the first failure, as any threshold
not above one does. -/
structure CircuitConfig where
  failureThreshold : Nat
  cooldownMs : Time

structure SendEvent where
  type : String
  tenant : String
  payload : String
  idempotencyKey : Option String
  deriving DecidableEq, Repr

structure Receipt where
  eventId : String
  accepted : Bool
  messageCount : Nat
  deriving DecidableEq, Repr

/-- What names a message in a store. -/
def Message.key (m : Message) : String × String := (m.tenant, m.messageId)

/-- What names the endpoint a message is for. -/
def Message.target (m : Message) : String × String := (m.tenant, m.endpointId)

end Anyhook.Core
