import Anyhook.Portal.Store
import Anyhook.Core.JsNumber

/-! The portal: packages/core/src/portal/http.ts with the endpoint and delivery handlers
it calls, and the engine's `send` on an event whose fields are JSON values. -/
namespace Anyhook.Portal
open Anyhook.Core Anyhook.Testing Anyhook.Lib.Program Anyhook.Lib.OrderedMap

/-- What a handler throws: an HTTP status of its own, a body that is no JSON, any other
error with its message. -/
inductive PortalError where
  | http (status : Nat) (message : String)
  | syntaxError
  | error (message : String)

abbrev Handler (A : Type) := Prog PortalOp (PortalRes A) PortalError

variable {A : Type}

/-- The value of a computation that may throw. -/
def settle {α : Type} : Except String α → Handler A α
  | .ok v => .pure v
  | .error e => .throw (.error e)

/-- Perform a port operation. -/
def port (op : PortalOp) : Handler A (PortalAns A op) := do
  let answer ← Prog.perform op
  settle answer

/-! ## Accepting an event (engine.ts, fanout.ts, id.ts) -/

structure JsEvent where
  type : Json
  tenant : String
  payload : Option Json
  idempotencyKey : Option Json

def draws : Nat → Handler A (List ℚ)
  | 0 => return []
  | n + 1 => do
    let draw ← port .next
    let rest ← draws n
    return draw :: rest

def newId (pre : String) : Handler A String := do
  let ds ← draws 20
  return pre ++ "_" ++ String.ofList (ds.map idChar)

section Send
variable (p : Platform)

def deriveIdempotencyKey (event : JsEvent) (payload : Json) : Except String Json :=
  match p.toText event.type with
  | .error e => .error e
  | .ok type => .ok (.str ("idem_" ++ String.ofList ((p.sha256Hex
      (event.tenant ++ "\x00" ++ type ++ "\x00" ++ p.stringify payload)).toList.take 32)))

/-- `event.idempotencyKey ?? deriveIdempotencyKey(event)`. -/
def keyOf (event : JsEvent) (payload : Json) : Except String Json :=
  match event.idempotencyKey with
  | none | some .null => deriveIdempotencyKey p event payload
  | some key => .ok key

def freshMessage (event : JsEvent) (payload : Json) (eventId : String) (now : Time)
    (e : JsEndpoint) (messageId : String) : JsMessage where
  messageId := messageId
  tenant := event.tenant
  endpointId := e.endpointId
  eventId := eventId
  eventType := event.type
  payload := payload
  attemptNo := 0
  status := .pending
  nextAttemptAt := none
  createdAt := now

def messagesFor (event : JsEvent) (payload : Json) (eventId : String) (now : Time) :
    List JsEndpoint → Handler A (List JsMessage)
  | [] => return []
  | e :: rest => do
    let id ← newId "msg"
    let messages ← messagesFor event payload eventId now rest
    return freshMessage event payload eventId now e id :: messages

def fanout (event : JsEvent) (payload : Json) (eventId : String) (now : Time)
    (endpoints : List JsEndpoint) : Handler A (List JsMessage) := do
  let wanting ← settle (filterM
    (fun e => if e.disabled.truthy then .ok false else subscribes p e event.type) endpoints)
  messagesFor event payload eventId now wanting

def enqueueAll : List JsMessage → Handler A Unit
  | [] => return ()
  | m :: rest => do
    port (.putMessage m)
    port (.transportSend m)
    enqueueAll rest

/-- `send` after its checks. -/
def accept (event : JsEvent) (payload : Json) : Handler A Receipt := do
  let idemKey ← settle (keyOf p event payload)
  let eventId ← newId "evt"
  let rec ← port (.recordEvent event.tenant eventId idemKey)
  if rec.isNew then
    let endpoints ← port (.matchEndpoints event.tenant event.type)
    let now ← port .now
    let messages ← fanout p event payload eventId now endpoints
    enqueueAll messages
    port (.finalizeEvent event.tenant idemKey eventId messages.length)
    return { eventId := eventId, accepted := true, messageCount := messages.length }
  else
    return { eventId := rec.eventId, accepted := true, messageCount := rec.messageCount }

/-- An undefined payload has no JSON text to measure. -/
def send (maxPayloadBytes : Nat) (event : JsEvent) : Handler A Receipt :=
  if !event.type.truthy then .throw (.error "send: event.type is required")
  else if event.tenant = "" then .throw (.error "send: event.tenant is required")
  else match event.payload with
    | none => .throw (.error p.byteLengthError)
    | some payload =>
      if (p.stringify payload).utf8ByteSize > maxPayloadBytes then
        .throw (.error
          ("send: payload exceeds maxPayloadBytes (" ++ toString maxPayloadBytes ++ ")"))
      else accept p event payload

end Send

/-! ## Endpoint handlers (endpoints.ts) -/

/-- An endpoint without its signing secrets. -/
structure PublicEndpoint where
  endpointId : String
  tenant : String
  url : Json
  eventTypes : List Json
  description : Option Json
  disabled : Json
  rateLimit : Option Json
  createdAt : Time

def redact (e : JsEndpoint) : PublicEndpoint where
  endpointId := e.endpointId
  tenant := e.tenant
  url := e.url
  eventTypes := e.eventTypes
  description := e.description
  disabled := e.disabled
  rateLimit := e.rateLimit
  createdAt := e.createdAt

def createEndpoint (i : JsCreate) : Handler A (String × String) := do
  let created ← port (.createEndpoint i)
  return (created.1.endpointId, created.2)

def listEndpoints (tenant : String) : Handler A (List PublicEndpoint) := do
  let endpoints ← port (.listEndpoints tenant)
  return endpoints.map redact

def getEndpoint (tenant endpointId : String) : Handler A (Option PublicEndpoint) := do
  let endpoint ← port (.getEndpoint tenant endpointId)
  return endpoint.map redact

/-- The argument of `update`. -/
structure UpdateInput where
  tenant : Json
  endpointId : Json
  url : Option Json
  eventTypes : Option Json
  disabled : Option Json

def update (i : UpdateInput) : Handler A PublicEndpoint := do
  let updated ← port (.updateEndpoint i.tenant i.endpointId
    { url := i.url, eventTypes := i.eventTypes, disabled := i.disabled })
  return redact updated

/-! ## Delivery handlers (deliveries.ts) -/

abbrev DeliveryRecord (A : Type) := JsMessage × List A

/-- The messageId stays; a replay is the same logical delivery. -/
def reenqueue (m : JsMessage) : Handler A Unit := do
  let now ← port .now
  let fresh := { m with
    attemptNo := 0, status := .pending, nextAttemptAt := none, createdAt := now }
  port (.putMessage fresh)
  port (.transportSend fresh)

def listDeliveryRecords (q : DeliveryQuery) : Handler A (List (DeliveryRecord A)) := do
  let rows ← port (.listDeliveries q)
  return rows.map fun r => (r.1.1, r.2)

def everything (tenant : String) : DeliveryQuery where
  tenant := tenant
  endpointId := none
  eventType := none
  status := none
  before := none
  after := none
  limit := none

def getDelivery (tenant messageId : String) : Handler A (Option (DeliveryRecord A)) := do
  let rows ← listDeliveryRecords (everything tenant)
  return rows.find? fun r => r.1.messageId = messageId

def replay (tenant messageId : String) : Handler A Bool := do
  let m ← port (.getMessage tenant messageId)
  match m with
  | none => return false
  | some m =>
    reenqueue m.1
    return true

def reenqueueAll {tenant : String} : List (TenantMessage tenant) → Handler A Unit
  | [] => return ()
  | m :: rest => do
    reenqueue m.1
    reenqueueAll rest

def replayEndpoint (tenant endpointId : String) (since : Option Time) : Handler A Nat := do
  let dead ← port (.listDlq tenant endpointId)
  let selected := dead.filter fun d => since.all fun t => d.1.1.createdAt ≥ t
  reenqueueAll (selected.map Prod.fst)
  return selected.length

/-! ## Requests and responses (http.ts) -/

/-- Header names are in lower case. `body` is what `req.json()` gives, `none` when the
body is no JSON. -/
structure Request where
  method : String
  pathname : String
  query : List (String × String)
  headers : List (String × String)
  body : Option Json

/-- What a response carries as JSON. -/
inductive Reply (A : Type) where
  | error (message : String)
  | receipt (r : Receipt)
  | created (endpointId secret : String)
  | endpoints (es : List PublicEndpoint)
  | endpoint (e : PublicEndpoint)
  | deleted
  | secret (s : String)
  | count (n : Nat)
  | deliveries (rows : List (DeliveryRecord A))
  | delivery (row : DeliveryRecord A)
  | replayed (b : Bool)

structure Response (A : Type) where
  status : Nat
  reply : Reply A

structure Config where
  basePath : String
  resolveTenant : Request → Option String
  platform : Platform
  maxPayloadBytes : Nat

/-- The default: a header that the producer's own auth sets. -/
def tenantHeader (req : Request) : Option String := req.headers.lookup "x-anyhook-tenant"

def parseLimit (raw : Option String) : Option ℚ :=
  match raw with
  | none => none
  | some raw =>
    if raw = "" then none
    else (jsNumber raw).filter fun n => n.den = 1 ∧ n > 0

def parseTs (raw : Option String) : Option Time :=
  match raw with
  | none => none
  | some raw => if raw = "" then none else jsNumber raw

def splitSlash : List Char → List (List Char)
  | [] => [[]]
  | c :: rest =>
    if c = '/' then [] :: splitSlash rest
    else match splitSlash rest with
      | [] => [[c]]
      | seg :: segs => (c :: seg) :: segs

/-- The path's segments below the base, without the empty ones. -/
def segments (basePath pathname : String) : List String :=
  ((splitSlash (pathname.toList.drop (basePath.toList.length + 1))).filter (· ≠ [])).map
    String.ofList

inductive Route where
  | ingest
  | createEndpoint
  | listEndpoints
  | getEndpoint (endpointId : String)
  | updateEndpoint (endpointId : String)
  | deleteEndpoint (endpointId : String)
  | rotateSecret (endpointId : String)
  | replayEndpoint (endpointId : String)
  | listDeliveries
  | getDelivery (messageId : String)
  | replayDelivery (messageId : String)
  deriving DecidableEq

def routeOf (method : String) (segs : List String) : Option Route :=
  match method, segs with
  | "POST", ["events"] => some .ingest
  | "POST", ["endpoints"] => some .createEndpoint
  | "GET", ["endpoints"] => some .listEndpoints
  | "GET", ["endpoints", id] => some (.getEndpoint id)
  | "PATCH", ["endpoints", id] => some (.updateEndpoint id)
  | "DELETE", ["endpoints", id] => some (.deleteEndpoint id)
  | "POST", ["endpoints", id, "rotate-secret"] => some (.rotateSecret id)
  | "POST", ["endpoints", id, "replay"] => some (.replayEndpoint id)
  | "GET", ["deliveries"] => some .listDeliveries
  | "GET", ["deliveries", id] => some (.getDelivery id)
  | "POST", ["deliveries", id, "replay"] => some (.replayDelivery id)
  | _, _ => none

def readJson (req : Request) : Handler A Json :=
  match req.body with
  | some body => .pure body
  | none => .throw .syntaxError

/-! ## Handlers of the routes -/

section Routes
variable (cfg : Config) (tenant : String) (req : Request)

def ingest : Handler A (Response A) := do
  let body ← readJson req
  match body.field "type" with
  | none => .throw (.http 400 "type is required")
  | some type =>
    if !type.truthy then .throw (.http 400 "type is required")
    else
      let receipt ← send cfg.platform cfg.maxPayloadBytes {
        type := type, tenant := tenant, payload := body.field "payload"
        idempotencyKey := body.field "idempotencyKey" }
      return { status := 202, reply := .receipt receipt }

def postEndpoint : Handler A (Response A) := do
  let body ← readJson req
  match body.field "url", body.field "eventTypes" with
  | some url, some (.arr eventTypes) =>
    if !url.truthy then .throw (.http 400 "url and eventTypes are required")
    else
      let created ← createEndpoint {
        tenant := tenant, url := url, eventTypes := eventTypes
        description := body.field "description", rateLimit := body.field "rateLimit" }
      return { status := 201, reply := .created created.1 created.2 }
  | _, _ => .throw (.http 400 "url and eventTypes are required")

/-- `{ tenant, endpointId, ...body }`: a key of the body comes last. -/
def merged (endpointId : String) (body : Json) : UpdateInput where
  tenant := (body.field "tenant").getD (.str tenant)
  endpointId := (body.field "endpointId").getD (.str endpointId)
  url := body.field "url"
  eventTypes := body.field "eventTypes"
  disabled := body.field "disabled"

def patchEndpoint (endpointId : String) : Handler A (Response A) := do
  let body ← readJson req
  let endpoint ← update (merged tenant endpointId body)
  return { status := 200, reply := .endpoint endpoint }

def oneEndpoint (endpointId : String) : Handler A (Response A) := do
  let endpoint ← getEndpoint tenant endpointId
  match endpoint with
  | none => .throw (.http 404 "endpoint not found")
  | some e => return { status := 200, reply := .endpoint e }

def deliveryQuery : DeliveryQuery where
  tenant := tenant
  endpointId := req.query.lookup "endpointId"
  eventType := req.query.lookup "eventType"
  status := req.query.lookup "status"
  before := parseTs (req.query.lookup "before")
  after := parseTs (req.query.lookup "after")
  limit := parseLimit (req.query.lookup "limit")

def oneDelivery (messageId : String) : Handler A (Response A) := do
  let row ← getDelivery tenant messageId
  match row with
  | none => .throw (.http 404 "message not found")
  | some r => return { status := 200, reply := .delivery r }

def serve : Route → Handler A (Response A)
  | .ingest => ingest cfg tenant req
  | .createEndpoint => postEndpoint tenant req
  | .listEndpoints => do
    let es ← listEndpoints tenant
    return { status := 200, reply := .endpoints es }
  | .getEndpoint id => oneEndpoint tenant id
  | .updateEndpoint id => patchEndpoint tenant req id
  | .deleteEndpoint id => do
    port (.deleteEndpoint tenant id)
    return { status := 200, reply := .deleted }
  | .rotateSecret id => do
    let secret ← port (.rotateSecret tenant id)
    return { status := 200, reply := .secret secret }
  | .replayEndpoint id => do
    let count ← replayEndpoint tenant id (parseTs (req.query.lookup "since"))
    return { status := 202, reply := .count count }
  | .listDeliveries => do
    let rows ← listDeliveryRecords (deliveryQuery tenant req)
    return { status := 200, reply := .deliveries rows }
  | .getDelivery id => oneDelivery tenant id
  | .replayDelivery id => do
    let replayed ← replay tenant id
    return { status := if replayed then 202 else 404, reply := .replayed replayed }

end Routes

/-- `/not found/i.test(msg)`. -/
def mentionsNotFound (msg : String) : Bool :=
  (msg.toList.map Char.toLower).tails.any fun t => "not found".toList.isPrefixOf t

def respondTo : PortalError → Response A
  | .http status message => { status := status, reply := .error message }
  | .syntaxError => { status := 400, reply := .error "invalid JSON body" }
  | .error msg =>
    if mentionsNotFound msg then { status := 404, reply := .error msg }
    else { status := 500, reply := .error msg }

/-- The handler that `createPortalRouter` builds. -/
def handle (cfg : Config) (req : Request) : Handler A (Response A) :=
  if !((cfg.basePath ++ "/").toList.isPrefixOf req.pathname.toList) then
    return { status := 404, reply := .error "not found" }
  else match cfg.resolveTenant req with
    | none => return { status := 401, reply := .error "unauthenticated: missing tenant" }
    | some tenant =>
      if tenant = "" then
        return { status := 401, reply := .error "unauthenticated: missing tenant" }
      else match routeOf req.method.toUpper (segments cfg.basePath req.pathname) with
        | none => return { status := 404, reply := .error "not found" }
        | some route => (serve cfg tenant req route).tryCatch fun e => .pure (respondTo e)

end Anyhook.Portal
