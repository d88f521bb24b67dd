import Anyhook.Lib.OrderedMap
import Anyhook.Core.Fanout
import Mathlib.Data.List.Sort

/-! The in-memory StateStore of packages/testing/src/memory-state.ts. Every method
goes through the tenant's own data first, so a method can only see and change the
tenant it is given. A tenant never touched is the empty one. -/
namespace Anyhook.Testing
open Anyhook.Core Anyhook.Lib.OrderedMap

structure EventRecord where
  eventId : String
  messageCount : Nat
  deriving DecidableEq, Repr

structure TenantData where
  events : OMap String EventRecord
  endpoints : KMap Endpoint.endpointId
  messages : OMap String Message
  attempts : OMap String (List Attempt)
  circuits : OMap String CircuitRecord
  rateBuckets : OMap String RateBucket
  dlq : List DlqRow

def newTenant : TenantData where
  events := .empty
  endpoints := .empty
  messages := .empty
  attempts := .empty
  circuits := .empty
  rateBuckets := .empty
  dlq := []

/-! ## Delivery listings -/

structure DeliveryQuery where
  tenant : String
  endpointId : Option String
  eventType : Option String
  status : Option MessageStatus
  before : Option Time
  after : Option Time
  limit : Option ℚ

namespace DeliveryQuery

/-- An empty endpoint id does not filter. -/
def ofEndpoint (q : DeliveryQuery) (m : Message) : Bool :=
  q.endpointId.all fun id => id = "" || m.endpointId = id

/-- The filters other than the endpoint's. An empty event type does not filter. -/
def passes (q : DeliveryQuery) (m : Message) : Bool :=
  q.eventType.all (fun t => t = "" || m.eventType = t) && q.status.all (fun s => m.status = s) &&
    q.before.all (fun t => m.createdAt < t) && q.after.all (fun t => t < m.createdAt)

/-- `rows.slice(0, limit)` keeps this many of `n` rows: the limit is truncated toward zero,
and if it is then negative it counts from the end. -/
def kept (q : DeliveryQuery) (n : Nat) : Nat :=
  match q.limit with
  | none => n
  | some limit =>
    let stop := if 0 ≤ limit then ⌊limit⌋ else ⌈limit⌉
    if 0 ≤ stop then stop.toNat else (n + stop).toNat

/-- The newest rows, as many as the limit asks for. -/
def newest {α : Type} (q : DeliveryQuery) (createdAt : α → Time) (rows : List α) : List α :=
  (rows.insertionSort fun a b => createdAt b ≤ createdAt a).take (q.kept rows.length)

end DeliveryQuery

/-! ## The store -/

structure MemoryStateStore where
  tenants : String → TenantData

namespace MemoryStateStore

def empty : MemoryStateStore := ⟨fun _ => newTenant⟩

/-- Change one tenant's data. -/
def modify (s : MemoryStateStore) (tenant : String) (f : TenantData → TenantData) :
    MemoryStateStore :=
  ⟨Function.update s.tenants tenant (f (s.tenants tenant))⟩

@[simp] theorem modify_self (s : MemoryStateStore) (t : String) (f : TenantData → TenantData) :
    (s.modify t f).tenants t = f (s.tenants t) := by simp [modify]

theorem modify_other (s : MemoryStateStore) {t u : String} (h : u ≠ t)
    (f : TenantData → TenantData) : (s.modify t f).tenants u = s.tenants u := by
  simp [modify, h]

def recordEvent (s : MemoryStateStore) (tenant eventId idemKey : String) :
    EventRecordResult × MemoryStateStore :=
  match (s.tenants tenant).events.get idemKey with
  | some existing =>
    ({ isNew := false, eventId := existing.eventId, messageCount := existing.messageCount }, s)
  | none =>
    ({ isNew := true, eventId := eventId, messageCount := 0 },
      s.modify tenant fun d =>
        { d with events := d.events.set idemKey { eventId := eventId, messageCount := 0 } })

def finalizeEvent (s : MemoryStateStore) (tenant idemKey eventId : String) (messageCount : Nat) :
    MemoryStateStore :=
  s.modify tenant fun d =>
    { d with events := d.events.set idemKey { eventId := eventId, messageCount := messageCount } }

/-- What the caller of `createEndpoint` supplies. -/
structure CreateInput where
  tenant : String
  url : String
  eventTypes : List String
  description : Option String
  rateLimit : Option ℚ

def CreateInput.endpoint (e : CreateInput) (endpointId secret : String) (now : Time) :
    Endpoint where
  endpointId := endpointId
  tenant := e.tenant
  url := e.url
  eventTypes := e.eventTypes
  description := e.description
  disabled := false
  rateLimit := e.rateLimit
  createdAt := now
  secrets := [secret]

/-- `endpointId` and `secret` are generated by the store. -/
def createEndpoint (s : MemoryStateStore) (e : CreateInput) (endpointId secret : String)
    (now : Time) : MemoryStateStore :=
  s.modify e.tenant fun d =>
    { d with endpoints := d.endpoints.set endpointId (e.endpoint endpointId secret now) rfl }

def getEndpoint (s : MemoryStateStore) (tenant endpointId : String) : Option Endpoint :=
  (s.tenants tenant).endpoints.get endpointId

def listEndpoints (s : MemoryStateStore) (tenant : String) : List Endpoint :=
  (s.tenants tenant).endpoints.values

def matchEndpoints (s : MemoryStateStore) (tenant eventType : String) : List Endpoint :=
  (s.tenants tenant).endpoints.values.filter fun e => subscribes e eventType

structure EndpointPatch where
  url : Option String
  eventTypes : Option (List String)
  disabled : Option Bool

def EndpointPatch.apply (p : EndpointPatch) (e : Endpoint) : Endpoint :=
  { e with
    url := p.url.getD e.url
    eventTypes := p.eventTypes.getD e.eventTypes
    disabled := p.disabled.getD e.disabled }

theorem EndpointPatch.apply_key (p : EndpointPatch) {t : KMap Endpoint.endpointId} {id : String}
    {e : Endpoint} (h : t.get id = some e) : (p.apply e).endpointId = id :=
  (show (p.apply e).endpointId = e.endpointId from rfl).trans (KMap.key_of_get h)

/-- Throws, and changes nothing, when the endpoint does not exist. -/
def updateEndpoint (s : MemoryStateStore) (tenant endpointId : String) (patch : EndpointPatch) :
    Except String Endpoint × MemoryStateStore :=
  match h : (s.tenants tenant).endpoints.get endpointId with
  | none => (.error ("endpoint not found: " ++ endpointId), s)
  | some existing =>
    (.ok (patch.apply existing), s.modify tenant fun d =>
      { d with endpoints :=
          d.endpoints.set endpointId (patch.apply existing) (patch.apply_key h) })

/-- The dual-secret window: the new primary, and the primary before it. -/
def rotated (e : Endpoint) (secret : String) : Endpoint :=
  { e with secrets := secret :: e.secrets.take 1 }

theorem rotated_key (secret : String) {t : KMap Endpoint.endpointId} {id : String} {e : Endpoint}
    (h : t.get id = some e) : (rotated e secret).endpointId = id :=
  (show (rotated e secret).endpointId = e.endpointId from rfl).trans (KMap.key_of_get h)

/-- Throws, and changes nothing, when the endpoint does not exist. -/
def rotateSecret (s : MemoryStateStore) (tenant endpointId secret : String) :
    Except String String × MemoryStateStore :=
  match h : (s.tenants tenant).endpoints.get endpointId with
  | none => (.error ("endpoint not found: " ++ endpointId), s)
  | some existing =>
    (.ok secret, s.modify tenant fun d =>
      { d with endpoints :=
          d.endpoints.set endpointId (rotated existing secret) (rotated_key secret h) })

theorem getEndpoint_updateEndpoint {s : MemoryStateStore} {tenant endpointId : String}
    {e : Endpoint} (h : s.getEndpoint tenant endpointId = some e) (patch : EndpointPatch) :
    (s.updateEndpoint tenant endpointId patch).2.getEndpoint tenant endpointId =
      some (patch.apply e) := by
  unfold updateEndpoint
  split
  · rename_i hnone
    cases hnone.symm.trans h
  · rename_i existing hsome
    obtain rfl := Option.some.inj (hsome.symm.trans h)
    simp [getEndpoint, KMap.set]

theorem getEndpoint_rotateSecret {s : MemoryStateStore} {tenant endpointId : String}
    {e : Endpoint} (h : s.getEndpoint tenant endpointId = some e) (secret : String) :
    (s.rotateSecret tenant endpointId secret).1 = .ok secret ∧
      (s.rotateSecret tenant endpointId secret).2.getEndpoint tenant endpointId =
        some (rotated e secret) := by
  unfold rotateSecret
  split
  · rename_i hnone
    cases hnone.symm.trans h
  · rename_i existing hsome
    obtain rfl := Option.some.inj (hsome.symm.trans h)
    simp [getEndpoint, KMap.set]

def deleteEndpoint (s : MemoryStateStore) (tenant endpointId : String) : MemoryStateStore :=
  s.modify tenant fun d => { d with endpoints := d.endpoints.delete endpointId }

def putMessage (s : MemoryStateStore) (m : Message) : MemoryStateStore :=
  s.modify m.tenant fun d => { d with messages := d.messages.set m.messageId m }

def getMessage (s : MemoryStateStore) (tenant messageId : String) : Option Message :=
  (s.tenants tenant).messages.get messageId

/-- The attempt log of a message. -/
def attemptsOf (s : MemoryStateStore) (tenant messageId : String) : List Attempt :=
  ((s.tenants tenant).attempts.get messageId).getD []

def appendAttempt (s : MemoryStateStore) (a : Attempt) : MemoryStateStore :=
  s.modify a.tenant fun d =>
    { d with attempts := d.attempts.set a.messageId ((d.attempts.get a.messageId).getD [] ++ [a]) }

def getCircuit (s : MemoryStateStore) (tenant endpointId : String) : CircuitRecord :=
  ((s.tenants tenant).circuits.get endpointId).getD (initialCircuit defaultCooldownMs)

def putCircuit (s : MemoryStateStore) (tenant endpointId : String) (rec : CircuitRecord) :
    MemoryStateStore :=
  s.modify tenant fun d => { d with circuits := d.circuits.set endpointId rec }

def getRateBucket (s : MemoryStateStore) (tenant endpointId : String) : Option RateBucket :=
  (s.tenants tenant).rateBuckets.get endpointId

def putRateBucket (s : MemoryStateStore) (tenant endpointId : String) (bucket : RateBucket) :
    MemoryStateStore :=
  s.modify tenant fun d => { d with rateBuckets := d.rateBuckets.set endpointId bucket }

def addToDlq (s : MemoryStateStore) (m : Message) (reason : DlqReason) : MemoryStateStore :=
  s.modify m.tenant fun d => { d with dlq := d.dlq ++ [{ message := m, reason := reason }] }

/-- A delivery listing with its attempt logs, newest message first. -/
def listDeliveries (s : MemoryStateStore) (q : DeliveryQuery) : List (Message × List Attempt) :=
  let rows := (s.tenants q.tenant).messages.values.filter fun m => q.ofEndpoint m && q.passes m
  (q.newest Message.createdAt rows).map fun m => (m, s.attemptsOf q.tenant m.messageId)

/-- The tenant's DLQ rows, of one endpoint when it is given and not empty. -/
def listDlq (s : MemoryStateStore) (tenant : String) (endpointId : Option String) : List DlqRow :=
  let rows := (s.tenants tenant).dlq
  match endpointId with
  | some id => if id = "" then rows else rows.filter fun r => r.message.endpointId = id
  | none => rows

end MemoryStateStore
end Anyhook.Testing
