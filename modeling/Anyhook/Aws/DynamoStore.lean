import Anyhook.Aws.Scheduler
import Anyhook.Aws.StateDynamo
import Anyhook.Aws.Table
import Anyhook.Lib.Padded

/-! DynamoStateStore of packages/aws/src/state-dynamo.ts, with the key helpers of
config.ts: each method is a program over the table's commands. RecordEvent of
go/aws/state_dynamo.go reads back without ConsistentRead; the Go methods that change an
endpoint send the same commands as the TypeScript ones. -/
namespace Anyhook.Aws.Store
open Anyhook.Core Anyhook.Testing Anyhook.Lib.Program Anyhook.Lib.Padded

/-! ## Keys -/

def endpointSk (endpointId : String) : String := "EP#" ++ endpointId
def messageSk (messageId : String) : String := "MSG#" ++ messageId
def messageIndexSk (messageId : String) : String := "MIDX#" ++ messageId
def attemptSkPrefix (messageId : String) : String := "ATT#" ++ messageId ++ "#"
def attemptSk (messageId : String) (seq : Nat) : String :=
  attemptSkPrefix messageId ++ padStart 10 seq
def attemptCounterSk (messageId : String) : String := "ATTCOUNT#" ++ messageId
def circuitSk (endpointId : String) : String := "CIRCUIT#" ++ endpointId
def rateSk (endpointId : String) : String := "RATE#" ++ endpointId
def dlqSk (seq : Nat) : String := "DLQ#" ++ padStart 16 seq
def dlqCounterSk : String := "DLQSEQ"
def idemSk (idemKey : String) : String := "IDEM#" ++ idemKey

/-- An unconditional put of a domain object. -/
def putRow (tenant sk : String) (attrs : Attrs) : Ddb Unit := do
  let row := { pk := tenantPk tenant, sk := sk, attrs := attrs, version := none }
  let _ ← command (.putItem row .none)
  return ()

/-! ## Reading items back -/

/-- `stripKeys<T>` keeps the attributes only. An item of another family has not the
fields of a `T`; using it as one is an error. -/
def stripKeys {α : Type} (pick : Attrs → Option α) (row : Row) : Ddb α :=
  match pick row.attrs with
  | some a => return a
  | none => .throw "TypeError"

def stripAll {α : Type} (pick : Attrs → Option α) : List Row → Ddb (List α)
  | [] => return []
  | row :: rest => do
    let a ← stripKeys pick row
    let more ← stripAll pick rest
    return a :: more

def Attrs.event? : Attrs → Option EventRecord
  | .event rec => some rec
  | _ => none

def Attrs.endpoint? : Attrs → Option Endpoint
  | .endpoint e => some e
  | _ => none

def Attrs.message? : Attrs → Option Message
  | .message m => some m
  | _ => none

def Attrs.attempt? : Attrs → Option Attempt
  | .attempt a => some a
  | _ => none

def Attrs.circuit? : Attrs → Option CircuitRecord
  | .circuit rec => some rec
  | _ => none

def Attrs.rate? : Attrs → Option RateBucket
  | .rate bucket => some bucket
  | _ => none

def Attrs.dead? : Attrs → Option DlqRow
  | .dead row => some row
  | _ => none

/-- `GetItem`, its item stripped. -/
def getRow {α : Type} (pick : Attrs → Option α) (tenant sk : String) (consistentRead : Bool) :
    Ddb (Option α) := do
  let item ← command (.getItem (tenantPk tenant, sk) consistentRead)
  match item with
  | none => return none
  | some row => some <$> stripKeys pick row

/-- `pages` bounds how many pages the loop reads before its host stops it. -/
def queryAll (pk skPrefix : String) : (pages : Nat) → Option String → Ddb (List Row)
  | 0, _ => .throw "stopped"
  | pages + 1, exclusiveStartKey => do
    let page ← command (.query pk skPrefix exclusiveStartKey)
    match page.lastEvaluatedKey with
    | none => return page.items
    | some key =>
      let rest ← queryAll pk skPrefix pages (some key)
      return page.items ++ rest

/-! ## Idempotency -/

/-- A refused put means that the row exists; it is read back for the receipt. -/
def recordEventWith (consistentRead : Bool) (tenant eventId idemKey : String) :
    Ddb EventRecordResult := do
  let row := { pk := tenantPk tenant, sk := idemSk idemKey
               attrs := .event { eventId := eventId, messageCount := 0 }, version := none }
  let won ← command (.putItem row .skAbsent)
  if won then return { isNew := true, eventId := eventId, messageCount := 0 }
  else
    let existing ← getRow Attrs.event? tenant (idemSk idemKey) consistentRead
    match existing with
    | none => return { isNew := true, eventId := eventId, messageCount := 0 }
    | some rec =>
      return { isNew := false, eventId := rec.eventId, messageCount := rec.messageCount }

def recordEvent : String → String → String → Ddb EventRecordResult := recordEventWith true
def goRecordEvent : String → String → String → Ddb EventRecordResult := recordEventWith false

def finalizeEvent (tenant idemKey eventId : String) (messageCount : Nat) : Ddb Unit :=
  putRow tenant (idemSk idemKey) (.event { eventId := eventId, messageCount := messageCount })

/-! ## Endpoints -/

def putEndpointItem (e : Endpoint) : Ddb Unit :=
  putRow e.tenant (endpointSk e.endpointId) (.endpoint e)

def createEndpoint (e : MemoryStateStore.CreateInput) (endpointId secret : String) (now : Time) :
    Ddb Endpoint := do
  let endpoint := e.endpoint endpointId secret now
  putEndpointItem endpoint
  return endpoint

def getEndpoint (tenant endpointId : String) : Ddb (Option Endpoint) :=
  getRow Attrs.endpoint? tenant (endpointSk endpointId) false

def updateEndpoint (tenant endpointId : String) (patch : MemoryStateStore.EndpointPatch) :
    Ddb Endpoint := do
  let existing ← getEndpoint tenant endpointId
  match existing with
  | none => .throw ("endpoint not found: " ++ endpointId)
  | some existing =>
    putEndpointItem (patch.apply existing)
    return patch.apply existing

def rotateSecret (tenant endpointId secret : String) : Ddb String := do
  let existing ← getEndpoint tenant endpointId
  match existing with
  | none => .throw ("endpoint not found: " ++ endpointId)
  | some existing =>
    putEndpointItem (MemoryStateStore.rotated existing secret)
    return secret

def deleteEndpoint (tenant endpointId : String) : Ddb Unit :=
  command (.deleteItem (tenantPk tenant, endpointSk endpointId))

/-! ## Messages, circuits and rate limits -/

def putMessage (m : Message) : Ddb Unit := do
  putRow m.tenant (messageSk m.messageId) (.message m)
  putRow m.tenant (messageIndexSk m.messageId) (.index m.endpointId)

def getMessage (tenant messageId : String) : Ddb (Option Message) :=
  getRow Attrs.message? tenant (messageSk messageId) false

def nextSeq (tenant sk : String) : Ddb Nat := command (.updateItem (tenantPk tenant, sk))

def appendAttempt (a : Attempt) : Ddb Unit := do
  let seq ← nextSeq a.tenant (attemptCounterSk a.messageId)
  putRow a.tenant (attemptSk a.messageId seq) (.attempt a)

def getCircuit (tenant endpointId : String) : Ddb CircuitRecord := do
  let found ← getRow Attrs.circuit? tenant (circuitSk endpointId) true
  return found.getD (initialCircuit defaultCooldownMs)

def putCircuit (tenant endpointId : String) (rec : CircuitRecord) : Ddb Unit := do
  let current ← command (.getItem (tenantPk tenant, circuitSk endpointId) true)
  let expectedVersion := current.bind Row.version
  let row := { pk := tenantPk tenant, sk := circuitSk endpointId, attrs := .circuit rec
               version := some (expectedVersion.getD 0 + 1) }
  let written ← command (.putItem row (.versionIs expectedVersion))
  if written then return ()
  else .throw (conflictError tenant endpointId)

def getRateBucket (tenant endpointId : String) : Ddb (Option RateBucket) :=
  getRow Attrs.rate? tenant (rateSk endpointId) false

def putRateBucket (tenant endpointId : String) (bucket : RateBucket) : Ddb Unit :=
  putRow tenant (rateSk endpointId) (.rate bucket)

def addToDlq (m : Message) (reason : DlqReason) : Ddb Unit := do
  let seq ← nextSeq m.tenant dlqCounterSk
  putRow m.tenant (dlqSk seq) (.dead { message := m, reason := reason })

/-! ## Listings -/

section Listings
variable (pages : Nat)

def listEndpoints (tenant : String) : Ddb (List Endpoint) := do
  let items ← queryAll (tenantPk tenant) (endpointSk "") pages none
  stripAll Attrs.endpoint? items

def matchEndpoints (tenant eventType : String) : Ddb (List Endpoint) := do
  let all ← listEndpoints pages tenant
  return all.filter fun e => subscribes e eventType

def listAttempts (tenant messageId : String) : Ddb (List Attempt) := do
  let items ← queryAll (tenantPk tenant) (attemptSkPrefix messageId) pages none
  stripAll Attrs.attempt? items

def attachAttempts (tenant : String) : List Message → Ddb (List (Message × List Attempt))
  | [] => return []
  | m :: rest => do
    let attempts ← listAttempts pages tenant m.messageId
    let more ← attachAttempts tenant rest
    return (m, attempts) :: more

def listDeliveries (q : DeliveryQuery) : Ddb (List (Message × List Attempt)) := do
  let items ← queryAll (tenantPk q.tenant) (messageSk "") pages none
  let all ← stripAll Attrs.message? items
  let rows := all.filter fun m => q.ofEndpoint m && q.passes m
  attachAttempts pages q.tenant (q.newest Message.createdAt rows)

def listDlq (tenant : String) (endpointId : Option String) : Ddb (List DlqRow) := do
  let items ← queryAll (tenantPk tenant) "DLQ#" pages none
  let rows ← stripAll Attrs.dead? items
  match endpointId with
  | some id => return if id = "" then rows else rows.filter fun r => r.message.endpointId = id
  | none => return rows

end Listings
end Anyhook.Aws.Store
