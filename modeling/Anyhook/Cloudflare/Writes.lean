import Anyhook.Cloudflare.Slots

/-! What a call of DoStateStore can do to the storage. Of each of the nineteen methods this
says which slots it writes and with what, which objects it reads and what it deletes; what
every call keeps follows from that. -/
namespace Anyhook.Cloudflare.Store
open Anyhook.Core Anyhook.Testing Anyhook.Lib.Program

def storeTenant : StoreOp → String
  | .recordEvent t _ _ | .finalizeEvent t _ _ _ | .getEndpoint t _ | .listEndpoints t
  | .matchEndpoints t _ | .updateEndpoint t _ _ | .rotateSecret t _ _ | .deleteEndpoint t _
  | .getMessage t _ | .getCircuit t _ | .putCircuit t _ _ | .getRateBucket t _
  | .putRateBucket t _ _ | .listDlq t _ => t
  | .createEndpoint e _ _ _ => e.tenant
  | .putMessage m | .addToDlq m _ => m.tenant
  | .appendAttempt a => a.tenant
  | .listDeliveries q => q.tenant

/-! ## Objects of a tenant -/

/-- The object is one of the tenant's. -/
def Owned (tenant : String) (o : Stub) : Prop :=
  o = tenantStub tenant ∨ ∃ endpointId, o = endpointStub tenant endpointId

theorem owned_index (tenant : String) : Owned tenant (tenantStub tenant) := Or.inl rfl

theorem owned_endpoint (tenant endpointId : String) :
    Owned tenant (endpointStub tenant endpointId) :=
  Or.inr ⟨endpointId, rfl⟩

theorem owned_slot (r : Slot) : Owned r.tenant r.stub := by
  cases r with
  | endpoint t id => exact owned_index t
  | event t key => exact owned_index t
  | index t id => exact owned_index t
  | message t ep id => exact owned_endpoint t ep
  | attempts t ep id => exact owned_endpoint t ep
  | circuit t ep => exact owned_endpoint t ep
  | rate t ep => exact owned_endpoint t ep
  | dead t ep seq id => exact owned_endpoint t ep
  | deadSeq t ep => exact owned_endpoint t ep

/-! ## Writes -/

/-- The slots a call writes, and the values it may write there. -/
inductive Writes : StoreOp → Slot → Val → Prop
  | recordEvent (t eventId idemKey : String) (rec : EventRecord) :
    Writes (.recordEvent t eventId idemKey) (.event t idemKey) (.event rec)
  | finalizeEvent (t idemKey eventId : String) (n : Nat) (rec : EventRecord) :
    Writes (.finalizeEvent t idemKey eventId n) (.event t idemKey) (.event rec)
  | createEndpoint (e : MemoryStateStore.CreateInput) (id secret : String) (now : Time)
    (e' : Endpoint) :
    Writes (.createEndpoint e id secret now) (.endpoint e.tenant id) (.endpoint e')
  | updateEndpoint (t id : String) (patch : MemoryStateStore.EndpointPatch) (e : Endpoint) :
    Writes (.updateEndpoint t id patch) (.endpoint t id) (.endpoint e)
  | rotateSecret (t id secret : String) (e : Endpoint) :
    Writes (.rotateSecret t id secret) (.endpoint t id) (.endpoint e)
  | putMessage (m : Message) :
    Writes (.putMessage m) (.message m.tenant m.endpointId m.messageId) (.message m)
  | registerMessage (m : Message) :
    Writes (.putMessage m) (.index m.tenant m.messageId) (.endpointId m.endpointId)
  | appendAttempt (a : Attempt) (log : List Attempt) :
    Writes (.appendAttempt a) (.attempts a.tenant a.endpointId a.messageId)
      (.attempts (log ++ [a]))
  | putCircuit (t id : String) (rec : CircuitRecord) :
    Writes (.putCircuit t id rec) (.circuit t id) (.circuit rec)
  | putRateBucket (t id : String) (bucket : RateBucket) :
    Writes (.putRateBucket t id bucket) (.rate t id) (.rate bucket)
  | countDlq (m : Message) (reason : DlqReason) (seq : Nat) :
    Writes (.addToDlq m reason) (.deadSeq m.tenant m.endpointId) (.seq seq)
  | addToDlq (m : Message) (reason : DlqReason) (seq : Nat) :
    Writes (.addToDlq m reason) (.dead m.tenant m.endpointId seq m.messageId)
      (.dead { message := m, reason := reason })

theorem Writes.tenant {op : StoreOp} {r : Slot} {v : Val} (h : Writes op r v) :
    r.tenant = storeTenant op := by
  cases h <;> rfl

/-! ## Every operation of a call -/

section Within
variable {P : DoOp → Prop} {o : Stub} {α : Type}

theorem within_typed (pick : Val → Option α) (v : Val) : Within P (typed pick v) := by
  unfold typed
  split
  · exact within_pure _
  · exact within_throw _

theorem within_typedAll (pick : Val → Option α) (rows : List (String × Val)) :
    Within P (typedAll pick rows) := by
  induction rows with
  | nil => exact within_pure _
  | cons row rows ih =>
    refine within_bind (within_typed pick row.2) fun a => ?_
    exact within_bind ih fun more => within_pure _

theorem within_storageGet {key : String} (h : P (.get o key)) (pick : Val → Option α) :
    Within P (storageGet pick o key) := by
  refine within_bind (within_perform h) fun v => ?_
  cases v with
  | none => exact within_pure _
  | some v => exact within_bind (within_typed pick v) fun a => within_pure _

theorem within_storageList {keyStart : String} (h : P (.list o keyStart))
    (pick : Val → Option α) : Within P (storageList pick o keyStart) :=
  within_bind (within_perform h) fun rows => within_typedAll pick rows

/-- The methods that read an endpoint and put it back changed. -/
theorem within_change {endpointId : String} (hget : P (.get o ("ep:" ++ endpointId)))
    (hput : ∀ e, P (.put o ("ep:" ++ endpointId) (.endpoint e))) {change : Endpoint → Endpoint}
    {result : Endpoint → α} {p : Cf α}
    (hp : p = (do
      let existing ← TenantIndexDurableObject.getEndpoint o endpointId
      match existing with
      | none => .throw ("endpoint not found: " ++ endpointId)
      | some e =>
        storage (.put o ("ep:" ++ endpointId) (.endpoint (change e)))
        return result e)) : Within P p := by
  rw [hp]
  refine within_bind (within_storageGet hget _) fun existing => ?_
  cases existing with
  | none => exact within_throw _
  | some e => exact within_bind (within_perform (hput _)) fun _ => within_pure _

theorem within_listDeliveries (hget : ∀ key, P (.get o key)) (hlist : P (.list o "msg:"))
    (q : DeliveryQuery) : Within P (EndpointDurableObject.listDeliveries o q) := by
  refine within_bind (within_storageList hlist _) fun rows => ?_
  generalize q.newest Message.createdAt (rows.filter q.passes) = newest
  induction newest with
  | nil => exact within_pure _
  | cons m newest ih =>
    refine within_bind ?_ fun log => within_bind ih fun out => within_pure _
    exact within_bind (within_storageGet (hget _) _) fun _ => within_pure _

theorem within_listDlq (hlist : P (.list o "dlq:")) (endpointId : Option String) :
    Within P (EndpointDurableObject.listDlq o endpointId) :=
  within_bind (within_storageList hlist _) fun _ => within_pure _

/-- Whatever ids the tenant's endpoints have, their objects are the tenant's. -/
theorem within_fanOut {read : Stub → Cf (List α)} {t : String}
    (hread : ∀ o, Owned t o → Within P (read o)) (endpoints : List Endpoint) :
    Within P (DoStateStore.fanOut read t endpoints) := by
  induction endpoints with
  | nil => exact within_pure _
  | cons e endpoints ih =>
    refine within_bind (hread _ (owned_endpoint t e.endpointId)) fun rows => ?_
    exact within_bind ih fun more => within_pure _

end Within

/-- `P` holds of every operation that `op` may make. -/
structure Permits (P : DoOp → Prop) (op : StoreOp) : Prop where
  get : ∀ o key, Owned (storeTenant op) o → P (.get o key)
  list : ∀ o keyStart, Owned (storeTenant op) o → P (.list o keyStart)
  put : ∀ r v, Writes op r v → P (.put r.stub r.key v)
  delete : ∀ id, P (.delete (tenantStub (storeTenant op)) ("ep:" ++ id))

theorem within_perform_of {P : DoOp → Prop} {op : StoreOp} (h : Permits P op) :
    Within P (DoStateStore.perform op) := by
  cases op with
  | recordEvent t eventId idemKey =>
    refine within_bind (within_storageGet (h.get _ _ (owned_index t)) _) fun existing => ?_
    cases existing with
    | none =>
      exact within_bind (within_perform (h.put _ _ (.recordEvent t eventId idemKey _)))
        fun _ => within_pure _
    | some rec => exact within_pure _
  | finalizeEvent t idemKey eventId n =>
    exact within_perform (h.put _ _ (.finalizeEvent t idemKey eventId n _))
  | createEndpoint e endpointId secret now =>
    exact within_bind (within_perform (h.put _ _ (.createEndpoint e endpointId secret now _)))
      fun _ => within_pure _
  | getEndpoint t id => exact within_storageGet (h.get _ _ (owned_index t)) _
  | listEndpoints t => exact within_storageList (h.list _ _ (owned_index t)) _
  | matchEndpoints t type =>
    exact within_bind (within_storageList (h.list _ _ (owned_index t)) _) fun _ => within_pure _
  | updateEndpoint t id patch =>
    exact within_change (h.get _ _ (owned_index t))
      (fun e => h.put _ _ (.updateEndpoint t id patch e)) rfl
  | rotateSecret t id secret =>
    exact within_change (h.get _ _ (owned_index t))
      (fun e => h.put _ _ (.rotateSecret t id secret e)) rfl
  | deleteEndpoint t id => exact within_perform (h.delete id)
  | putMessage m =>
    exact within_bind (within_perform (h.put _ _ (.putMessage m))) fun _ =>
      within_perform (h.put _ _ (.registerMessage m))
  | getMessage t id =>
    refine within_bind (within_storageGet (h.get _ _ (owned_index t)) _) fun endpointId => ?_
    cases endpointId with
    | none => exact within_pure _
    | some ep =>
      dsimp only
      split
      · exact within_pure _
      · exact within_storageGet (h.get _ _ (owned_endpoint t ep)) _
  | appendAttempt a =>
    refine within_bind (within_bind (within_storageGet
      (h.get _ _ (owned_endpoint a.tenant a.endpointId)) _) fun _ => within_pure _) fun log => ?_
    exact within_perform (h.put _ _ (.appendAttempt a log))
  | listDeliveries q =>
    have hread : ∀ o, Owned q.tenant o → Within P (EndpointDurableObject.listDeliveries o q) :=
      fun o ho => within_listDeliveries (fun key => h.get o key ho) (h.list o _ ho) q
    show Within P (DoStateStore.listDeliveries q)
    unfold DoStateStore.listDeliveries
    dsimp only
    split
    · exact hread _ (owned_endpoint q.tenant _)
    · refine within_bind (within_storageList (h.list _ _ (owned_index q.tenant)) _)
        fun endpoints => ?_
      exact within_bind (within_fanOut hread endpoints) fun _ => within_pure _
  | getCircuit t id =>
    exact within_bind (within_storageGet (h.get _ _ (owned_endpoint t id)) _) fun _ =>
      within_pure _
  | putCircuit t id rec => exact within_perform (h.put _ _ (.putCircuit t id rec))
  | getRateBucket t id => exact within_storageGet (h.get _ _ (owned_endpoint t id)) _
  | putRateBucket t id bucket => exact within_perform (h.put _ _ (.putRateBucket t id bucket))
  | addToDlq m reason =>
    refine within_bind (within_storageGet
      (h.get _ _ (owned_endpoint m.tenant m.endpointId)) _) fun last => ?_
    exact within_bind (within_perform (h.put _ _ (.countDlq m reason _))) fun _ =>
      within_perform (h.put _ _ (.addToDlq m reason _))
  | listDlq t endpointId =>
    have hread : ∀ o, Owned t o → Within P (EndpointDurableObject.listDlq o none) :=
      fun o ho => within_listDlq (h.list o _ ho) none
    show Within P (DoStateStore.listDlq t endpointId)
    unfold DoStateStore.listDlq
    dsimp only
    split
    · exact hread _ (owned_endpoint t _)
    · refine within_bind (within_storageList (h.list _ _ (owned_index t)) _) fun endpoints => ?_
      exact within_fanOut hread endpoints

end Anyhook.Cloudflare.Store
