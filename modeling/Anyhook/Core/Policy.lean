import Anyhook.Core.Ports
import Mathlib.Algebra.Order.Floor.Ring
import Mathlib.Data.Rat.Floor

/-! The policies of packages/core/src/policy: circuit breaker, retry schedule,
outcome classes and the token bucket. All are pure; the engine reads and writes
the records they work on through its ports. -/
namespace Anyhook.Core
open Anyhook.Lib.Program

/-! ## Circuit breaker (policy/circuit.ts) -/

def defaultCooldownMs : Time := 30000

def initialCircuit (cooldownMs : Time) : CircuitRecord where
  state := .closed
  consecutiveFailures := 0
  openedAt := none
  cooldownMs := cooldownMs

/-- A failure in half-open re-opens at once, whatever the count. -/
def onFailure (rec : CircuitRecord) (now : Time) (threshold : Nat) : CircuitRecord :=
  if rec.state = .halfOpen then
    { rec with
      state := .opened
      consecutiveFailures := rec.consecutiveFailures + 1
      openedAt := some now }
  else if rec.consecutiveFailures + 1 ≥ threshold then
    { rec with
      state := .opened
      consecutiveFailures := rec.consecutiveFailures + 1
      openedAt := some now }
  else
    { rec with
      state := .closed
      consecutiveFailures := rec.consecutiveFailures + 1
      openedAt := none }

def onSuccess (rec : CircuitRecord) : CircuitRecord :=
  { rec with state := .closed, consecutiveFailures := 0, openedAt := none }

def toHalfOpen (rec : CircuitRecord) : CircuitRecord := { rec with state := .halfOpen }

structure Gate where
  allow : Bool
  probe : Bool
  deriving DecidableEq, Repr

def canAttempt (rec : CircuitRecord) (now : Time) : Gate :=
  match rec.state with
  | .closed => { allow := true, probe := false }
  | .halfOpen => { allow := true, probe := true }
  | .opened =>
    if now - rec.openedAt.getD 0 ≥ rec.cooldownMs then { allow := true, probe := true }
    else { allow := false, probe := false }

@[simp] theorem onFailure_consecutiveFailures (rec : CircuitRecord) (now : Time) (threshold : Nat) :
    (onFailure rec now threshold).consecutiveFailures = rec.consecutiveFailures + 1 := by
  unfold onFailure
  split
  · rfl
  · split <;> rfl

/-- A failure leaves the circuit open or closed, and open exactly from half-open
or at the threshold. -/
theorem onFailure_state (rec : CircuitRecord) (now : Time) (threshold : Nat) :
    (onFailure rec now threshold).state =
      if rec.state = .halfOpen ∨ threshold ≤ rec.consecutiveFailures + 1 then .opened
      else .closed := by
  unfold onFailure
  by_cases hh : rec.state = .halfOpen
  · simp [hh]
  · by_cases ht : threshold ≤ rec.consecutiveFailures + 1 <;> simp [hh, ht]

theorem onFailure_openedAt (rec : CircuitRecord) (now : Time) (threshold : Nat) :
    (onFailure rec now threshold).openedAt =
      if rec.state = .halfOpen ∨ threshold ≤ rec.consecutiveFailures + 1 then some now
      else none := by
  unfold onFailure
  by_cases hh : rec.state = .halfOpen
  · simp [hh]
  · by_cases ht : threshold ≤ rec.consecutiveFailures + 1 <;> simp [hh, ht]

/-- The gate asks for a probe exactly when it lets a circuit that is not closed through. -/
theorem canAttempt_probe (rec : CircuitRecord) (now : Time) :
    (canAttempt rec now).probe = true ↔
      (canAttempt rec now).allow = true ∧ rec.state ≠ .closed := by
  unfold canAttempt
  cases rec.state with
  | closed => simp
  | halfOpen => simp
  | opened => dsimp only; split <;> simp

/-! ## Retry schedule (policy/jitter.ts, policy/retry.ts) -/

def fullJitter (baseMs : Time) : Eng Time := do
  return baseMs * (← port .next)

def retryAfterCapMs : Time := 21600000

/-- `none` when the schedule is exhausted. Only the jitter branch draws. -/
def nextDelayMs (cfg : RetryConfig) (attemptNo : Int) (retryAfterMs : Option Time) :
    Eng (Option Time) :=
  if attemptNo < 0 ∨ attemptNo ≥ cfg.scheduleMs.length then return none
  else match retryAfterMs with
    | some v =>
      if v ≥ 0 then return some (min v retryAfterCapMs)
      else some <$> fullJitter (cfg.scheduleMs.getD attemptNo.toNat 0)
    | none => some <$> fullJitter (cfg.scheduleMs.getD attemptNo.toNat 0)

theorem fullJitter_reads (baseMs : Time) : Reads (fullJitter baseMs) :=
  reads_next.bind fun _ => reads_pure _

theorem nextDelayMs_reads (cfg : RetryConfig) (attemptNo : Int) (retryAfterMs : Option Time) :
    Reads (nextDelayMs cfg attemptNo retryAfterMs) := by
  unfold nextDelayMs
  split
  · exact reads_pure _
  · cases retryAfterMs with
    | none => exact (fullJitter_reads _).bind fun _ => reads_pure _
    | some v =>
      dsimp only
      split
      · exact reads_pure _
      · exact (fullJitter_reads _).bind fun _ => reads_pure _

/-! ## Outcome classes (policy/outcome.ts) -/

inductive Outcome where
  | delivered | retryable | permanent
  deriving DecidableEq, Repr

def classifyOutcome : AttemptStatus → Outcome
  | .timeout => .retryable
  | .network => .retryable
  | .code n =>
    if n ≥ 200 ∧ n < 300 then .delivered
    else if n = 429 then .retryable
    else if n ≥ 300 ∧ n < 500 then .permanent
    else if n ≥ 500 then .retryable
    else .retryable

theorem classifyOutcome_delivered {st : AttemptStatus} :
    classifyOutcome st = .delivered ↔ ∃ n, st = .code n ∧ 200 ≤ n ∧ n < 300 := by
  cases st with
  | timeout => simp [classifyOutcome]
  | network => simp [classifyOutcome]
  | code n =>
    unfold classifyOutcome
    by_cases h : n ≥ 200 ∧ n < 300
    · simp [h]
    · simp only [if_neg h]
      constructor
      · intro hc
        split at hc
        · cases hc
        · split at hc
          · cases hc
          · split at hc <;> cases hc
      · rintro ⟨n', hn, h1, h2⟩
        cases hn
        exact absurd ⟨h1, h2⟩ h

/-! ## Token bucket (policy/ratelimit.ts) -/

def capacityFor (rateLimitPerSec : ℚ) : ℚ := max 1 rateLimitPerSec

def initialBucket (rateLimitPerSec : ℚ) (now : Time) : RateBucket where
  tokens := capacityFor rateLimitPerSec
  lastRefillMs := now

structure RateDecision where
  allowed : Bool
  bucket : RateBucket
  retryAfterMs : Time

def consumeToken (bucket : RateBucket) (rateLimitPerSec : ℚ) (now : Time) : RateDecision :=
  let capacity := capacityFor rateLimitPerSec
  let elapsedSec := max 0 ((now - bucket.lastRefillMs) / 1000)
  let tokens := min capacity (bucket.tokens + elapsedSec * rateLimitPerSec)
  if tokens ≥ 1 then
    { allowed := true, bucket := { tokens := tokens - 1, lastRefillMs := now }, retryAfterMs := 0 }
  else
    { allowed := false
      bucket := { tokens := tokens, lastRefillMs := now }
      retryAfterMs := ⌈(1 - tokens) / rateLimitPerSec * 1000⌉ }

end Anyhook.Core
