import Anyhook.Lib.Padded
import Anyhook.Lib.Program
import Anyhook.Testing.StateStore

/-! DoStateStore of packages/cloudflare/src/state-do.ts, over the two classes of Durable
Objects it routes to (tenant-do.ts, endpoint-do.ts). Each method is a program over the
storage of named objects. The `sched:` rows and the alarm of an endpoint's object belong
to its scheduler and are left to `Schedule`. -/
namespace Anyhook.Cloudflare.Store
open Anyhook.Core Anyhook.Testing Anyhook.Lib.Program Anyhook.Lib.OrderedMap Anyhook.Lib.Padded

/-! ## Objects and their storage -/

/-- An object of one of the two namespaces, by the name its id is derived from. -/
inductive Stub where
  | tenantIndex (name : String)
  | endpoint (name : String)
  deriving DecidableEq

/-- The values the two classes store. -/
inductive Val where
  | endpoint (e : Endpoint)
  | event (rec : EventRecord)
  | endpointId (id : String)
  | message (m : Message)
  | attempts (log : List Attempt)
  | circuit (rec : CircuitRecord)
  | rate (bucket : RateBucket)
  | dead (row : DlqRow)
  | seq (n : Nat)

inductive DoOp where
  | get (o : Stub) (key : String)
  | put (o : Stub) (key : String) (v : Val)
  | delete (o : Stub) (key : String)
  | list (o : Stub) (keyStart : String)

@[reducible] def DoRes : DoOp → Type
  | .get .. => Option Val
  | .put .. | .delete .. => Unit
  | .list .. => List (String × Val)

abbrev Cf := Prog DoOp DoRes String

def storage (op : DoOp) : Cf (DoRes op) := Prog.perform op

abbrev Cloud := Stub → OMap String Val

namespace Cloud

def empty : Cloud := fun _ => .empty

def put (c : Cloud) (o : Stub) (key : String) (v : Val) : Cloud :=
  Function.update c o ((c o).set key v)

def delete (c : Cloud) (o : Stub) (key : String) : Cloud :=
  Function.update c o ((c o).delete key)

/-- The entries whose key starts so, in the order of their keys. -/
def list (c : Cloud) (o : Stub) (keyStart : String) : List (String × Val) :=
  ((c o).entries.filter fun p => keyStart.toList.isPrefixOf p.1.toList).insertionSort
    fun a b => a.1 ≤ b.1

end Cloud

def cloudExec : (op : DoOp) → Cloud → Except String (DoRes op) × Cloud
  | .get o key, c => (.ok ((c o).get key), c)
  | .put o key v, c => (.ok (), c.put o key v)
  | .delete o key, c => (.ok (), c.delete o key)
  | .list o keyStart, c => (.ok (c.list o keyStart), c)

/-! ## Reading values back -/

def Val.endpoint? : Val → Option Endpoint
  | .endpoint e => some e
  | _ => none

def Val.event? : Val → Option EventRecord
  | .event rec => some rec
  | _ => none

def Val.endpointId? : Val → Option String
  | .endpointId id => some id
  | _ => none

def Val.message? : Val → Option Message
  | .message m => some m
  | _ => none

def Val.attempts? : Val → Option (List Attempt)
  | .attempts log => some log
  | _ => none

def Val.circuit? : Val → Option CircuitRecord
  | .circuit rec => some rec
  | _ => none

def Val.rate? : Val → Option RateBucket
  | .rate bucket => some bucket
  | _ => none

def Val.dead? : Val → Option DlqRow
  | .dead row => some row
  | _ => none

def Val.seq? : Val → Option Nat
  | .seq n => some n
  | _ => none

/-- The `T` of `get<T>` and `list<T>`. A value of another family has not its fields; using
it as a `T` is an error. -/
def typed {α : Type} (pick : Val → Option α) (v : Val) : Cf α :=
  match pick v with
  | some a => return a
  | none => .throw "TypeError"

def typedAll {α : Type} (pick : Val → Option α) : List (String × Val) → Cf (List α)
  | [] => return []
  | row :: rest => do
    let a ← typed pick row.2
    let more ← typedAll pick rest
    return a :: more

def storageGet {α : Type} (pick : Val → Option α) (o : Stub) (key : String) : Cf (Option α) := do
  let v ← storage (.get o key)
  match v with
  | none => return none
  | some v => some <$> typed pick v

/-- `[...rows.values()]` of a listing. -/
def storageList {α : Type} (pick : Val → Option α) (o : Stub) (keyStart : String) :
    Cf (List α) := do
  let rows ← storage (.list o keyStart)
  typedAll pick rows

/-! ## One object per tenant -/

namespace TenantIndexDurableObject
variable (o : Stub)

def createEndpoint (e : MemoryStateStore.CreateInput) (endpointId secret : String) (now : Time) :
    Cf Endpoint := do
  let endpoint := e.endpoint endpointId secret now
  storage (.put o ("ep:" ++ endpoint.endpointId) (.endpoint endpoint))
  return endpoint

def getEndpoint (endpointId : String) : Cf (Option Endpoint) :=
  storageGet Val.endpoint? o ("ep:" ++ endpointId)

def listEndpoints : Cf (List Endpoint) := storageList Val.endpoint? o "ep:"

def matchEndpoints (eventType : String) : Cf (List Endpoint) := do
  let all ← listEndpoints o
  return all.filter fun e => subscribes e eventType

def updateEndpoint (endpointId : String) (patch : MemoryStateStore.EndpointPatch) :
    Cf Endpoint := do
  let existing ← getEndpoint o endpointId
  match existing with
  | none => .throw ("endpoint not found: " ++ endpointId)
  | some existing =>
    storage (.put o ("ep:" ++ endpointId) (.endpoint (patch.apply existing)))
    return patch.apply existing

def rotateSecret (endpointId secret : String) : Cf String := do
  let existing ← getEndpoint o endpointId
  match existing with
  | none => .throw ("endpoint not found: " ++ endpointId)
  | some existing =>
    storage (.put o ("ep:" ++ endpointId) (.endpoint (MemoryStateStore.rotated existing secret)))
    return secret

def deleteEndpoint (endpointId : String) : Cf Unit := storage (.delete o ("ep:" ++ endpointId))

def recordEvent (eventId idemKey : String) : Cf EventRecordResult := do
  let existing ← storageGet Val.event? o ("evt:" ++ idemKey)
  match existing with
  | some rec => return { isNew := false, eventId := rec.eventId, messageCount := rec.messageCount }
  | none =>
    storage (.put o ("evt:" ++ idemKey) (.event { eventId := eventId, messageCount := 0 }))
    return { isNew := true, eventId := eventId, messageCount := 0 }

def finalizeEvent (idemKey eventId : String) (messageCount : Nat) : Cf Unit :=
  storage (.put o ("evt:" ++ idemKey) (.event { eventId := eventId, messageCount := messageCount }))

def registerMessage (messageId endpointId : String) : Cf Unit :=
  storage (.put o ("msgidx:" ++ messageId) (.endpointId endpointId))

def lookupMessageEndpoint (messageId : String) : Cf (Option String) :=
  storageGet Val.endpointId? o ("msgidx:" ++ messageId)

end TenantIndexDurableObject

/-! ## One object per endpoint -/

/-- `seq + 1` on a 64-bit float: from 2^53 on the sum rounds back to `seq`. -/
def increment (seq : Nat) : Nat := if seq < 2 ^ 53 then seq + 1 else seq

def dlqKey (seq : Nat) (messageId : String) : String :=
  "dlq:" ++ padStart 16 seq ++ ":" ++ messageId

namespace EndpointDurableObject
variable (o : Stub)

def putMessage (m : Message) : Cf Unit := storage (.put o ("msg:" ++ m.messageId) (.message m))

def getMessage (messageId : String) : Cf (Option Message) :=
  storageGet Val.message? o ("msg:" ++ messageId)

/-- The attempt log of a message, `?? []`. -/
def attempts (messageId : String) : Cf (List Attempt) := do
  let log ← storageGet Val.attempts? o ("att:" ++ messageId)
  return log.getD []

def appendAttempt (a : Attempt) : Cf Unit := do
  let log ← attempts o a.messageId
  storage (.put o ("att:" ++ a.messageId) (.attempts (log ++ [a])))

/-- The last loop of `listDeliveries`. -/
def attachAttempts : List Message → Cf (List (Message × List Attempt))
  | [] => return []
  | m :: rows => do
    let log ← attempts o m.messageId
    let out ← attachAttempts rows
    return (m, log) :: out

/-- The query's endpoint is not looked at. -/
def listDeliveries (q : DeliveryQuery) : Cf (List (Message × List Attempt)) := do
  let rows ← storageList Val.message? o "msg:"
  attachAttempts o (q.newest Message.createdAt (rows.filter q.passes))

def getCircuit : Cf CircuitRecord := do
  let rec ← storageGet Val.circuit? o "circuit"
  return rec.getD (initialCircuit defaultCooldownMs)

def putCircuit (rec : CircuitRecord) : Cf Unit := storage (.put o "circuit" (.circuit rec))

def getRateBucket : Cf (Option RateBucket) := storageGet Val.rate? o "rate"

def putRateBucket (bucket : RateBucket) : Cf Unit := storage (.put o "rate" (.rate bucket))

def addToDlq (m : Message) (reason : DlqReason) : Cf Unit := do
  let last ← storageGet Val.seq? o "dlqSeq"
  let seq := increment (last.getD 0)
  storage (.put o "dlqSeq" (.seq seq))
  storage (.put o (dlqKey seq m.messageId) (.dead { message := m, reason := reason }))

def listDlq (endpointId : Option String) : Cf (List DlqRow) := do
  let rows ← storageList Val.dead? o "dlq:"
  return rows.filter fun r => endpointId.all fun id => id = "" || r.message.endpointId = id

end EndpointDurableObject

/-! ## Routing -/

/-- `s.length` of a JavaScript string: its UTF-16 code units. -/
def jsLength (s : String) : Nat := (s.toList.map fun c => if c.val < 0x10000 then 1 else 2).sum

def endpointDoName (tenant endpointId : String) : String :=
  toString (jsLength tenant) ++ ":" ++ tenant ++ ":" ++ endpointId

def tenantStub (tenant : String) : Stub := .tenantIndex tenant

def endpointStub (tenant endpointId : String) : Stub :=
  .endpoint (endpointDoName tenant endpointId)

namespace DoStateStore
open TenantIndexDurableObject EndpointDurableObject

/-- The rows of every endpoint of the tenant, one endpoint after the other. -/
def fanOut {α : Type} (read : Stub → Cf (List α)) (tenant : String) : List Endpoint → Cf (List α)
  | [] => return []
  | e :: endpoints => do
    let rows ← read (endpointStub tenant e.endpointId)
    let more ← fanOut read tenant endpoints
    return rows ++ more

def putMessage (m : Message) : Cf Unit := do
  EndpointDurableObject.putMessage (endpointStub m.tenant m.endpointId) m
  registerMessage (tenantStub m.tenant) m.messageId m.endpointId

/-- An empty endpoint id is falsy. -/
def getMessage (tenant messageId : String) : Cf (Option Message) := do
  let endpointId ← lookupMessageEndpoint (tenantStub tenant) messageId
  match endpointId with
  | none => return none
  | some id =>
    if id = "" then return none
    else EndpointDurableObject.getMessage (endpointStub tenant id) messageId

def listDeliveries (q : DeliveryQuery) : Cf (List (Message × List Attempt)) :=
  let endpointId := q.endpointId.getD ""
  if endpointId ≠ "" then EndpointDurableObject.listDeliveries (endpointStub q.tenant endpointId) q
  else do
    let endpoints ← listEndpoints (tenantStub q.tenant)
    let rows ← fanOut (EndpointDurableObject.listDeliveries · q) q.tenant endpoints
    return q.newest (fun row => row.1.createdAt) rows

def listDlq (tenant : String) (endpointId : Option String) : Cf (List DlqRow) :=
  let id := endpointId.getD ""
  if id ≠ "" then EndpointDurableObject.listDlq (endpointStub tenant id) none
  else do
    let endpoints ← listEndpoints (tenantStub tenant)
    fanOut (EndpointDurableObject.listDlq · none) tenant endpoints

def perform : (op : StoreOp) → Cf (StoreRes op)
  | .recordEvent t eventId idemKey => recordEvent (tenantStub t) eventId idemKey
  | .finalizeEvent t idemKey eventId n => finalizeEvent (tenantStub t) idemKey eventId n
  | .createEndpoint e endpointId secret now =>
    createEndpoint (tenantStub e.tenant) e endpointId secret now
  | .getEndpoint t id => getEndpoint (tenantStub t) id
  | .listEndpoints t => listEndpoints (tenantStub t)
  | .matchEndpoints t type => matchEndpoints (tenantStub t) type
  | .updateEndpoint t id patch => updateEndpoint (tenantStub t) id patch
  | .rotateSecret t id secret => rotateSecret (tenantStub t) id secret
  | .deleteEndpoint t id => deleteEndpoint (tenantStub t) id
  | .putMessage m => putMessage m
  | .getMessage t id => getMessage t id
  | .appendAttempt a => appendAttempt (endpointStub a.tenant a.endpointId) a
  | .listDeliveries q => listDeliveries q
  | .getCircuit t id => getCircuit (endpointStub t id)
  | .putCircuit t id rec => putCircuit (endpointStub t id) rec
  | .getRateBucket t id => getRateBucket (endpointStub t id)
  | .putRateBucket t id bucket => putRateBucket (endpointStub t id) bucket
  | .addToDlq m reason => addToDlq (endpointStub m.tenant m.endpointId) m reason
  | .listDlq t endpointId => listDlq t endpointId

end DoStateStore
end Anyhook.Cloudflare.Store
