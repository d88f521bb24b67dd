import Anyhook.Core.Fanout
import Anyhook.Core.JsNumber

/-! The engine of packages/core/src/engine.ts with the single-attempt delivery of
packages/core/src/deliver.ts, as programs over the ports. `processMessage` is cut
at its gates; each part performs its port calls in the order of the source. -/
namespace Anyhook.Core
open Anyhook.Lib.Program Anyhook.Lib.CodeUnits

/-- The engine's configuration and the pure functions injected into it. -/
structure Engine where
  retry : RetryConfig
  circuitCfg : CircuitConfig
  maxPayloadBytes : Nat
  timeoutMs : Time
  sign : List String → String → String → Time → List (String × String)
  sha256Hex : String → String

/-! ## Accepting an event -/

/-- The fields are joined by NUL characters before hashing. -/
def deriveIdempotencyKey (en : Engine) (e : SendEvent) : String :=
  "idem_" ++ String.ofList
    ((en.sha256Hex (e.tenant ++ "\x00" ++ e.type ++ "\x00" ++ e.payload)).toList.take 32)

def enqueueAll : List Message → Eng Unit
  | [] => return ()
  | m :: rest => do
    port (.putMessage m)
    port (.transportSend m)
    enqueueAll rest

/-- Fan a newly recorded event out: enqueue its messages and finalize its record. -/
def distribute (fan : SendEvent → String → Time → List Endpoint → Eng (List Message))
    (event : SendEvent) (eventId idemKey : String) : Eng Receipt := do
  let endpoints ← port (.matchEndpoints event.tenant event.type)
  let now ← port .now
  let messages ← fan event eventId now endpoints
  enqueueAll messages
  port (.finalizeEvent event.tenant idemKey eventId messages.length)
  return { eventId := eventId, accepted := true, messageCount := messages.length }

/-- What `send` does once the event passed its checks. The id generator and the fan-out
are the engine's own. -/
def acceptWith (eventId : Eng String)
    (fan : SendEvent → String → Time → List Endpoint → Eng (List Message))
    (event : SendEvent) (idemKey : String) : Eng Receipt := do
  let eventId ← eventId
  let rec ← port (.recordEvent event.tenant eventId idemKey)
  if rec.isNew then
    distribute fan event eventId idemKey
  else
    return { eventId := rec.eventId, accepted := true, messageCount := rec.messageCount }

/-- The checks of `send`, before any port is touched. -/
def sendError (en : Engine) (event : SendEvent) : Option String :=
  if event.type = "" then some "send: event.type is required"
  else if event.tenant = "" then some "send: event.tenant is required"
  else if event.payload.utf8ByteSize > en.maxPayloadBytes then
    some ("send: payload exceeds maxPayloadBytes (" ++ toString en.maxPayloadBytes ++ ")")
  else none

/-- A missing key is derived; an empty one is used as it is. -/
def keyOf (en : Engine) (event : SendEvent) : String :=
  event.idempotencyKey.getD (deriveIdempotencyKey en event)

def send (en : Engine) (event : SendEvent) : Eng Receipt :=
  match sendError en event with
  | some e => .throw e
  | none => acceptWith (newId "evt") fanout event (keyOf en event)

/-! ## One delivery POST (deliver.ts) -/

structure DeliveryResult where
  status : AttemptStatus
  outcome : Outcome
  latencyMs : Time
  respSnippet : Slice
  retryAfterMs : Option Time
  blockedBySsrf : Bool

/-- Whole or fractional seconds; the HTTP-date form is ignored. -/
def parseRetryAfterMs (headers : Option (List (String × String))) : Option Time :=
  match headers.bind fun hs => hs.lookup "retry-after" with
  | none => none
  | some raw =>
    if raw = "" then none
    else match jsNumber raw with
      | none => none
      | some secs => if secs < 0 then none else some (secs * 1000)

def snippetLimit : Nat := 512

/-- What the classified response of one POST amounts to. -/
def deliveryResultOf (res : HttpResult) (latencyMs : Time) : DeliveryResult :=
  match res with
  | .timeout => {
      status := .timeout, outcome := .retryable, latencyMs, respSnippet := "timeout"
      retryAfterMs := none, blockedBySsrf := false }
  | .network => {
      status := .network, outcome := .retryable, latencyMs, respSnippet := "network"
      retryAfterMs := none, blockedBySsrf := false }
  | .response status body headers => {
      status := .code status, outcome := classifyOutcome (.code status), latencyMs
      respSnippet := slice utf16 snippetLimit body
      retryAfterMs := if status = 429 ∨ status = 503 then parseRetryAfterMs headers else none
      blockedBySsrf := false }

/-- The outcome class of a response. -/
def outcomeOf : HttpResult → Outcome
  | .response status _ _ => classifyOutcome (.code status)
  | .timeout => .retryable
  | .network => .retryable

/-- A target the URL policy refused, before any POST. -/
def refused (ssrf : Verdict) : DeliveryResult where
  status := .network
  outcome := .permanent
  latencyMs := 0
  respSnippet := ("ssrf_blocked:" ++ ssrf.reason.getD "denied" : String)
  retryAfterMs := none
  blockedBySsrf := true

/-- Where the two engines differ in processing a message: the wait of a throttled message, the
wake-up time of a parked one, what they make of a verdict or a response, and the retry delay. -/
structure Dialect where
  throttleWait : Time → Time
  wakeAt : CircuitRecord → Eng Time
  refused : Verdict → DeliveryResult
  resultOf : HttpResult → Time → DeliveryResult
  nextDelayMs : RetryConfig → Int → Option Time → Eng (Option Time)
  wakeAt_reads : ∀ c, Reads (wakeAt c)
  refused_outcome : ∀ v, (refused v).outcome = .permanent
  resultOf_outcome : ∀ res l, (resultOf res l).outcome = outcomeOf res
  nextDelayMs_reads : ∀ cfg n r, Reads (nextDelayMs cfg n r)
  nextDelayMs_exhausted : ∀ cfg n r, n < 0 ∨ n ≥ cfg.scheduleMs.length →
    nextDelayMs cfg n r = pure none

def deliverWith (d : Dialect) (en : Engine) (m : Message) (endpoint : Endpoint) :
    Eng DeliveryResult := do
  let ssrf ← port (.check endpoint.url)
  if ssrf.allowed then
    let signedAt ← port .now
    let headers := ("content-type", "application/json") ::
      en.sign endpoint.secrets m.messageId m.payload signedAt
    let start ← port .now
    let res ← port (.post endpoint.url m.payload headers en.timeoutMs)
    let stop ← port .now
    return d.resultOf res (max 0 (stop - start))
  else
    return d.refused ssrf

/-! ## Processing a message -/

/-- Persist an attempt and hand it to the telemetry sink. -/
def record (attempt : Attempt) : Eng Unit := do
  port (.appendAttempt attempt)
  port (.recordAttempt attempt)

def dlq (m : Message) (attempt : Attempt) (reason : DlqReason) : Eng Unit := do
  port (.putMessage { m with status := .dead })
  record { attempt with outcome := .dead }
  port (.addToDlq m reason)

/-- The attempt log entry of one pass over `m`. -/
def attemptOf (m : Message) (status : AttemptStatus) (latencyMs : Time) (respSnippet : Slice)
    (ts : Time) (outcome : AttemptOutcome) : Attempt where
  messageId := m.messageId
  endpointId := m.endpointId
  tenant := m.tenant
  eventType := m.eventType
  attemptNo := m.attemptNo
  status := status
  latencyMs := latencyMs
  respSnippet := respSnippet
  ts := ts
  outcome := outcome

/-- The endpoint was deleted or disabled after the message was enqueued. -/
def endpointGone (m : Message) : Eng Unit := do
  let ts ← port .now
  dlq m (attemptOf m .network 0 "endpoint_gone" ts .dead) .endpointGone

/-- The rate-limit gate. `true` when the message was throttled and rescheduled. -/
def rateLimitGate (d : Dialect) (m : Message) (endpoint : Endpoint) : Eng Bool :=
  match endpoint.rateLimit with
  | none => return false
  | some rate =>
    if rate > 0 then do
      let now ← port .now
      let stored ← port (.getRateBucket m.tenant m.endpointId)
      let decision := consumeToken (stored.getD (initialBucket rate now)) rate now
      port (.putRateBucket m.tenant m.endpointId decision.bucket)
      if decision.allowed then return false
      else
        let atMs := now + d.throttleWait decision.retryAfterMs
        port (.putMessage { m with status := .retrying, nextAttemptAt := some atMs })
        port (.scheduleRetry m atMs)
        return true
    else return false

/-- `circuit.openedAt ?? clock.now()`. -/
def openingTime (circuit : CircuitRecord) : Eng Time :=
  match circuit.openedAt with
  | some t => return t
  | none => port .now

/-- When a parked message is tried again: a jittered cooldown after the one running. -/
def wakeAt (circuit : CircuitRecord) : Eng Time := do
  let openedAt ← openingTime circuit
  let jitter ← fullJitter circuit.cooldownMs
  return openedAt + circuit.cooldownMs + jitter

theorem wakeAt_reads (circuit : CircuitRecord) : Reads (wakeAt circuit) := by
  refine Reads.bind ?_ fun _ => (fullJitter_reads _).bind fun _ => reads_pure _
  unfold openingTime
  cases circuit.openedAt with
  | none => exact reads_now
  | some t => exact reads_pure t

theorem deliveryResultOf_outcome (res : HttpResult) (latencyMs : Time) :
    (deliveryResultOf res latencyMs).outcome = outcomeOf res := by cases res <;> rfl

/-- `slice(0, 512)`. -/
theorem deliveryResultOf_snippet (status : Int) (body : String)
    (headers : Option (List (String × String))) (latencyMs : Time) :
    (deliveryResultOf (.response status body headers) latencyMs).respSnippet.inUnits utf16 =
      (body.toList.flatMap utf16).take 512 := slice_units 512 body

def dialect : Dialect where
  throttleWait := id
  wakeAt := wakeAt
  refused := refused
  resultOf := deliveryResultOf
  nextDelayMs := nextDelayMs
  wakeAt_reads := wakeAt_reads
  refused_outcome := fun _ => rfl
  resultOf_outcome := deliveryResultOf_outcome
  nextDelayMs_reads := nextDelayMs_reads
  nextDelayMs_exhausted := fun _ _ _ h => if_pos h

/-- Park a message behind an open circuit. Not an attempt. -/
def park (d : Dialect) (m : Message) (circuit : CircuitRecord) : Eng Unit := do
  port (.putMessage { m with status := .blocked })
  let probeAt ← d.wakeAt circuit
  port (.scheduleRetry m probeAt)

/-- The circuit gate. `none` when the message was parked, else the circuit the
delivery is counted against. -/
def circuitGate (d : Dialect) (en : Engine) (m : Message) : Eng (Option CircuitRecord) := do
  let stored ← port (.getCircuit m.tenant m.endpointId)
  let circuit := { stored with cooldownMs := en.circuitCfg.cooldownMs }
  let now ← port .now
  let gate := canAttempt circuit now
  if gate.allow then
    if gate.probe then
      port (.putCircuit m.tenant m.endpointId (toHalfOpen circuit))
      return some (toHalfOpen circuit)
    else return some circuit
  else
    park d m circuit
    return none

def onDelivered (m : Message) (circuit : CircuitRecord) (attempt : Attempt) : Eng Unit := do
  port (.putCircuit m.tenant m.endpointId (onSuccess circuit))
  port (.putMessage { m with status := .delivered })
  record { attempt with outcome := .delivered }

def onPermanent (en : Engine) (m : Message) (circuit : CircuitRecord) (attempt : Attempt)
    (result : DeliveryResult) : Eng Unit := do
  let now ← port .now
  port (.putCircuit m.tenant m.endpointId
    (onFailure circuit now en.circuitCfg.failureThreshold))
  dlq m attempt (if result.blockedBySsrf then .blockedSsrf else .permanent4xx)

def onRetryable (d : Dialect) (en : Engine) (m : Message) (circuit : CircuitRecord)
    (attempt : Attempt) (result : DeliveryResult) : Eng Unit := do
  let now ← port .now
  port (.putCircuit m.tenant m.endpointId
    (onFailure circuit now en.circuitCfg.failureThreshold))
  let delay ← d.nextDelayMs en.retry m.attemptNo result.retryAfterMs
  match delay with
  | none => dlq m attempt .exhaustedRetries
  | some delay =>
    record attempt
    let base ← port .now
    let next := { m with
      attemptNo := m.attemptNo + 1, status := .retrying, nextAttemptAt := some (base + delay) }
    port (.putMessage next)
    port (.scheduleRetry next (base + delay))

/-- Deliver and advance the message's own retry, circuit and DLQ state. -/
def attemptDelivery (d : Dialect) (en : Engine) (m : Message) (endpoint : Endpoint)
    (circuit : CircuitRecord) : Eng Unit := do
  port (.putMessage { m with status := .delivering })
  let result ← deliverWith d en m endpoint
  let ts ← port .now
  let attempt := attemptOf m result.status result.latencyMs result.respSnippet ts .retried
  match result.outcome with
  | .delivered => onDelivered m circuit attempt
  | .permanent => onPermanent en m circuit attempt result
  | .retryable => onRetryable d en m circuit attempt result

/-- Both engines take the same path through their ports: endpoint, rate limit,
circuit, delivery. -/
def processWith (d : Dialect) (en : Engine) (m : Message) : Eng Unit := do
  let endpoint ← port (.getEndpoint m.tenant m.endpointId)
  match endpoint with
  | none => endpointGone m
  | some endpoint =>
    if endpoint.disabled then endpointGone m
    else
      let throttled ← rateLimitGate d m endpoint
      if throttled then return ()
      else
        let circuit ← circuitGate d en m
        match circuit with
        | none => return ()
        | some circuit => attemptDelivery d en m endpoint circuit

def deliverOnce : Engine → Message → Endpoint → Eng DeliveryResult := deliverWith dialect

def processMessage : Engine → Message → Eng Unit := processWith dialect

end Anyhook.Core
