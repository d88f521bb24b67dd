import Anyhook.Lib.Program
import Anyhook.Testing.MemoryState
import Mathlib.Data.Nat.Digits.Defs

/-! The ports as the portal reaches them. A request body is any JSON value, and nothing
checks the types of its fields, so fields of stored endpoints, events and messages
that come from a body are JSON values here, and a method of the store throws where
JavaScript would. The store is the in-memory one of packages/testing; each of its
methods goes to one tenant's data first. -/
namespace Anyhook.Portal
open Anyhook.Core Anyhook.Testing Anyhook.Lib.Program Anyhook.Lib.OrderedMap

/-! ## Values -/

/-- What `req.json()` can give. A parsed object has one entry for each key. -/
inductive Json where
  | null
  | bool (b : Bool)
  | num (q : ℚ)
  | str (s : String)
  | arr (items : List Json)
  | obj (fields : List (String × Json))

namespace Json

def truthy : Json → Bool
  | .null => false
  | .bool b => b
  | .num q => q ≠ 0
  | .str s => s ≠ ""
  | .arr _ | .obj _ => true

/-- `v?.key`, where `key` is no property of a built-in prototype. `none` is undefined. -/
def field (v : Json) (key : String) : Option Json :=
  match v with
  | .obj fields => fields.lookup key
  | _ => none

/-- `===`, and the key equality of a Map. Arrays and objects are equal by identity only,
and two parsed values never share one. -/
def same : Json → Json → Bool
  | .null, .null => true
  | .bool a, .bool b => a = b
  | .num a, .num b => a = b
  | .str a, .str b => a = b
  | _, _ => false

end Json

/-- What the JavaScript platform computes: conversions, hashing, the messages of its own
errors. `toText` is `${v}`, which may throw. -/
structure Platform where
  stringify : Json → String
  toText : Json → Except String String
  typeError : String → Json → String
  byteLengthError : String
  sha256Hex : String → String

/-! ## Data -/

structure JsEndpoint where
  endpointId : String
  tenant : String
  url : Json
  eventTypes : List Json
  description : Option Json
  disabled : Json
  rateLimit : Option Json
  createdAt : Time
  secrets : List String

structure JsMessage where
  messageId : String
  tenant : String
  endpointId : String
  eventId : String
  eventType : Json
  payload : Json
  attemptNo : Int
  status : MessageStatus
  nextAttemptAt : Option Time
  createdAt : Time

/-- A message of one tenant. -/
abbrev TenantMessage (tenant : String) := { m : JsMessage // m.tenant = tenant }

/-- The data of one tenant. Attempts are shown and never looked into. -/
structure JsTenant (A : Type) (tenant : String) where
  events : List (Json × EventRecord)
  endpoints : OMap String JsEndpoint
  messages : OMap String (TenantMessage tenant)
  attempts : OMap String (List A)
  circuits : OMap String CircuitRecord
  rateBuckets : OMap String RateBucket
  dlq : List (TenantMessage tenant × DlqReason)

/-- The store, and the transport's queue. -/
structure JsWorld (A : Type) where
  tenants : (tenant : String) → JsTenant A tenant
  queue : List JsMessage

/-! ## Operations -/

structure JsCreate where
  tenant : String
  url : Json
  eventTypes : List Json
  description : Option Json
  rateLimit : Option Json

structure JsPatch where
  url : Option Json
  eventTypes : Option Json
  disabled : Option Json

structure DeliveryQuery where
  tenant : String
  endpointId : Option String
  eventType : Option String
  status : Option String
  before : Option Time
  after : Option Time
  limit : Option ℚ

/-- Only `updateEndpoint` takes its tenant and endpoint from a merged object. -/
inductive PortalOp where
  | recordEvent (tenant eventId : String) (idemKey : Json)
  | finalizeEvent (tenant : String) (idemKey : Json) (eventId : String) (messageCount : Nat)
  | createEndpoint (input : JsCreate)
  | getEndpoint (tenant endpointId : String)
  | listEndpoints (tenant : String)
  | matchEndpoints (tenant : String) (eventType : Json)
  | updateEndpoint (tenant endpointId : Json) (patch : JsPatch)
  | rotateSecret (tenant endpointId : String)
  | deleteEndpoint (tenant endpointId : String)
  | putMessage (m : JsMessage)
  | getMessage (tenant messageId : String)
  | listDeliveries (q : DeliveryQuery)
  | listDlq (tenant endpointId : String)
  | transportSend (m : JsMessage)
  | now
  | next

@[reducible] def PortalAns (A : Type) : PortalOp → Type
  | .recordEvent .. => EventRecordResult
  | .createEndpoint _ => JsEndpoint × String
  | .getEndpoint .. => Option JsEndpoint
  | .listEndpoints _ | .matchEndpoints .. => List JsEndpoint
  | .updateEndpoint .. => JsEndpoint
  | .rotateSecret .. => String
  | .getMessage tenant _ => Option (TenantMessage tenant)
  | .listDeliveries q => List (TenantMessage q.tenant × List A)
  | .listDlq tenant _ => List (TenantMessage tenant × DlqReason)
  | .now => Time
  | .next => ℚ
  | .finalizeEvent .. | .deleteEndpoint .. | .putMessage _ | .transportSend _ => Unit

/-- A port answers, or throws an error with a message. -/
@[reducible] def PortalRes (A : Type) (op : PortalOp) : Type := Except String (PortalAns A op)

/-! ## Subscription matching on JSON values -/

section Match
variable (p : Platform)

/-- One pattern. A pattern that is no string has no `endsWith`. -/
def patternMatches (pattern eventType : Json) : Except String Bool :=
  if pattern.same (.str "*") || pattern.same eventType then .ok true
  else match pattern with
    | .str s =>
      if ".*".toList.isSuffixOf s.toList then match eventType with
        | .str ty => .ok (s.toList.dropLast.isPrefixOf ty.toList)
        | v => .error (p.typeError "startsWith" v)
      else .ok false
    | v => .error (p.typeError "endsWith" v)

/-- `eventTypes.some`: left to right, until one matches or throws. -/
def anyMatches (eventType : Json) : List Json → Except String Bool
  | [] => .ok false
  | pattern :: rest => match patternMatches p pattern eventType with
    | .ok true => .ok true
    | .ok false => anyMatches eventType rest
    | .error e => .error e

def subscribes (e : JsEndpoint) (eventType : Json) : Except String Bool :=
  anyMatches p eventType e.eventTypes

/-- `Array.prototype.filter` with a predicate that may throw. -/
def filterM {α : Type} (f : α → Except String Bool) : List α → Except String (List α)
  | [] => .ok []
  | a :: rest => match f a, filterM f rest with
    | .ok true, .ok kept => .ok (a :: kept)
    | .ok false, .ok kept => .ok kept
    | .ok _, .error e => .error e
    | .error e, _ => .error e

end Match

/-! ## The store's methods -/

/-- What an operation takes from outside the store: the clock, the random draws, the
generated secret and the endpoint counter of the process. -/
structure Ambient where
  now : Time
  createdAt : Time
  draw : ℚ
  secret : String
  endpointCounter : Nat

/-- `toString(36)` of a natural number. -/
def base36 (n : Nat) : String :=
  if n = 0 then "0"
  else String.ofList ((Nat.digits 36 n).reverse.map fun d =>
    "0123456789abcdefghijklmnopqrstuvwxyz".toList.getD d '0')

section Methods
variable {A : Type} (p : Platform) {tenant : String} (d : JsTenant A tenant)

def findEvent (idemKey : Json) : List (Json × EventRecord) → Option EventRecord
  | [] => none
  | (k, rec) :: rest => if k.same idemKey then some rec else findEvent idemKey rest

def setEvent (idemKey : Json) (rec : EventRecord) :
    List (Json × EventRecord) → List (Json × EventRecord)
  | [] => [(idemKey, rec)]
  | (k, old) :: rest =>
    if k.same idemKey then (k, rec) :: rest else (k, old) :: setEvent idemKey rec rest

def recordEvent (eventId : String) (idemKey : Json) : EventRecordResult × JsTenant A tenant :=
  match findEvent idemKey d.events with
  | some existing =>
    ({ isNew := false, eventId := existing.eventId, messageCount := existing.messageCount }, d)
  | none =>
    ({ isNew := true, eventId := eventId, messageCount := 0 },
      { d with events := setEvent idemKey { eventId := eventId, messageCount := 0 } d.events })

def createdEndpoint (a : Ambient) (e : JsCreate) : JsEndpoint where
  endpointId := "ep_" ++ base36 a.endpointCounter ++ base36 ⌊a.now⌋.toNat
  tenant := e.tenant
  url := e.url
  eventTypes := e.eventTypes
  description := e.description
  disabled := .bool false
  rateLimit := e.rateLimit
  createdAt := a.createdAt
  secrets := [a.secret]

/-- `[...v]`: the items of an array, the characters of a string; nothing else iterates. -/
def spread (v : Json) : Except String (List Json) :=
  match v with
  | .arr items => .ok items
  | .str s => .ok (s.toList.map fun c => .str (String.singleton c))
  | v => .error (p.typeError "Symbol.iterator" v)

def JsPatch.apply (patch : JsPatch) (e : JsEndpoint) : Except String JsEndpoint :=
  match patch.eventTypes with
  | none => .ok { e with
      url := patch.url.getD e.url
      disabled := patch.disabled.getD e.disabled }
  | some v => match spread p v with
    | .error x => .error x
    | .ok items => .ok { e with
        url := patch.url.getD e.url
        eventTypes := items
        disabled := patch.disabled.getD e.disabled }

def notFound (endpointId : Json) : String :=
  match p.toText endpointId with
  | .ok text => "endpoint not found: " ++ text
  | .error e => e

/-- An endpoint id that is no string is no key of the map. -/
def updateEndpoint (endpointId : Json) (patch : JsPatch) :
    Except String JsEndpoint × JsTenant A tenant :=
  match endpointId with
  | .str id => match d.endpoints.get id with
    | none => (.error (notFound p (.str id)), d)
    | some existing => match patch.apply p existing with
      | .error e => (.error e, d)
      | .ok updated => (.ok updated, { d with endpoints := d.endpoints.set id updated })
  | v => (.error (notFound p v), d)

def rotateSecret (a : Ambient) (endpointId : String) : Except String String × JsTenant A tenant :=
  match d.endpoints.get endpointId with
  | none => (.error ("endpoint not found: " ++ endpointId), d)
  | some existing =>
    let rotated := { existing with secrets := a.secret :: existing.secrets.take 1 }
    (.ok a.secret, { d with endpoints := d.endpoints.set endpointId rotated })

def statusText : MessageStatus → String
  | .pending => "pending"
  | .delivering => "delivering"
  | .delivered => "delivered"
  | .retrying => "retrying"
  | .blocked => "blocked"
  | .dead => "dead"

/-- A filter that an absent or empty string turns off. -/
def passes (wanted : Option String) (actual : String → Bool) : Bool :=
  wanted.all fun w => w = "" || actual w

def listDeliveries (q : DeliveryQuery) (d : JsTenant A q.tenant) :
    List (TenantMessage q.tenant × List A) :=
  let rows := d.messages.values.filter fun m =>
    passes q.endpointId (fun w => m.1.endpointId = w) &&
    passes q.eventType (fun w => m.1.eventType.same (.str w)) &&
    passes q.status (fun w => statusText m.1.status = w) &&
    q.before.all (fun t => m.1.createdAt < t) && q.after.all (fun t => m.1.createdAt > t)
  let sorted := rows.mergeSort fun a b => b.1.createdAt ≤ a.1.createdAt
  let limited := match q.limit with
    | some n => sorted.take ⌊n⌋.toNat
    | none => sorted
  limited.map fun m => (m, (d.attempts.get m.1.messageId).getD [])

def listDlq (endpointId : String) : List (TenantMessage tenant × DlqReason) :=
  if endpointId = "" then d.dlq else d.dlq.filter fun r => r.1.1.endpointId = endpointId

end Methods

/-! ## Running an operation -/

section Exec
variable {A : Type} (p : Platform) (a : Ambient)

/-- Change the data of one tenant. -/
def JsWorld.modify (w : JsWorld A) (tenant : String) (d : JsTenant A tenant) : JsWorld A :=
  { w with tenants := Function.update w.tenants tenant d }

def exec : (op : PortalOp) → JsWorld A → PortalRes A op × JsWorld A
  | .recordEvent t eventId idemKey, w =>
    (.ok (recordEvent (w.tenants t) eventId idemKey).1,
      w.modify t (recordEvent (w.tenants t) eventId idemKey).2)
  | .finalizeEvent t idemKey eventId n, w =>
    (.ok (), w.modify t { w.tenants t with
      events := setEvent idemKey { eventId := eventId, messageCount := n } (w.tenants t).events })
  | .createEndpoint e, w =>
    (.ok (createdEndpoint a e, a.secret), w.modify e.tenant { w.tenants e.tenant with
      endpoints := (w.tenants e.tenant).endpoints.set (createdEndpoint a e).endpointId
        (createdEndpoint a e) })
  | .getEndpoint t id, w => (.ok ((w.tenants t).endpoints.get id), w)
  | .listEndpoints t, w => (.ok (w.tenants t).endpoints.values, w)
  | .matchEndpoints t ty, w =>
    (filterM (fun e => subscribes p e ty) (w.tenants t).endpoints.values, w)
  | .updateEndpoint (.str t) id patch, w =>
    ((updateEndpoint p (w.tenants t) id patch).1,
      w.modify t (updateEndpoint p (w.tenants t) id patch).2)
  | .updateEndpoint _ id _, w => (.error (notFound p id), w)
  | .rotateSecret t id, w =>
    ((rotateSecret (w.tenants t) a id).1, w.modify t (rotateSecret (w.tenants t) a id).2)
  | .deleteEndpoint t id, w =>
    (.ok (), w.modify t { w.tenants t with endpoints := (w.tenants t).endpoints.delete id })
  | .putMessage m, w =>
    (.ok (), w.modify m.tenant { w.tenants m.tenant with
      messages := (w.tenants m.tenant).messages.set m.messageId ⟨m, rfl⟩ })
  | .getMessage t id, w => (.ok ((w.tenants t).messages.get id), w)
  | .listDeliveries q, w => (.ok (listDeliveries q (w.tenants q.tenant)), w)
  | .listDlq t id, w => (.ok (listDlq (w.tenants t) id), w)
  | .transportSend m, w => (.ok (), { w with queue := w.queue ++ [m] })
  | .now, w => (.ok a.now, w)
  | .next, w => (.ok a.draw, w)

end Exec
end Anyhook.Portal
