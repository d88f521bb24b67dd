import Anyhook.Lib.Run
import Anyhook.Cloudflare.Held

/-! DoStateStore next to the in-memory store. Calls are made one at a time, to both. The
objects represent the in-memory data when each message is with its endpoint; `Routed` says
what a call needs beyond that. -/
namespace Anyhook.Cloudflare.Store
open Anyhook.Core Anyhook.Testing Anyhook.Lib Anyhook.Lib.Program Anyhook.Lib.OrderedMap
open Anyhook.Lib.Sorted Anyhook.Lib.Scan Anyhook.Lib.Padded Anyhook.Lib.Run

/-- Both stores. -/
structure Twin where
  memory : MemoryStateStore
  cloud : Cloud

namespace Twin

def begin : Twin where
  memory := .empty
  cloud := .empty

/-- The call to DoStateStore. -/
def reply (w : Twin) (op : StoreOp) : Except String (StoreRes op) × Cloud :=
  (DoStateStore.perform op).run cloudExec w.cloud

def step (w : Twin) (op : StoreOp) : Twin where
  memory := (w.memory.perform op).2
  cloud := (w.reply op).2

end Twin

/-- No endpoint id is given, or an empty one. -/
def tenantWide (endpointId : Option String) : Bool := endpointId.getD "" = ""

/-- Answers compared as for any store, rows of a tenant's whole DLQ in any order. -/
def SameRows (s : MemoryStateStore) : (op : StoreOp) → StoreRes op → StoreRes op → Prop
  | .listDlq _ endpointId, a, b => if tenantWide endpointId then a.Perm b else a = b
  | op, a, b => SameAnswer s op a b

/-- The call uses a message id with the endpoint it belongs to. -/
def AtHome (home : String → String → String) : StoreOp → Prop
  | .putMessage m => home m.tenant m.messageId = m.endpointId
  | .appendAttempt a => home a.tenant a.messageId = a.endpointId
  | _ => True

/-- The endpoint exists. -/
def known (d : TenantData) (endpointId : String) : Bool := (d.endpoints.get endpointId).isSome

/-- The messages of existing endpoints that match a query and are no older than `m`. -/
def ahead (s : MemoryStateStore) (q : DeliveryQuery) (m : Message) : List Message :=
  (s.matching q).filter fun m' =>
    known (s.tenants q.tenant) m'.endpointId && decide (m.createdAt ≤ m'.createdAt)

/-- What a call needs of the state so that routing it finds everything. A message of no
endpoint cannot be looked up. A tenant-wide listing must not come to the messages or DLQ
rows of an endpoint that does not exist, and cannot count its limit from the end. The
sequence numbers of a DLQ are exact below 2^53. -/
def Routed (s : MemoryStateStore) : StoreOp → Prop
  | .getMessage t id => ∀ m, (s.tenants t).messages.get id = some m → m.endpointId ≠ ""
  | .listDeliveries q => tenantWide q.endpointId = true →
      (q.limit.all (fun limit => -1 < limit) = true ∨ q.kept (s.matching q).length = 0) ∧
      ∀ m ∈ s.matching q, known (s.tenants q.tenant) m.endpointId = false →
        q.kept (s.matching q).length ≤ (ahead s q m).length
  | .listDlq t endpointId => tenantWide endpointId = true →
      ∀ row ∈ (s.tenants t).dlq, known (s.tenants t) row.message.endpointId = true
  | .addToDlq m _ => (dlqOf (s.tenants m.tenant) m.endpointId).length < 2 ^ 53
  | _ => True

/-! ## What one call keeps -/

section Kept
variable {home : String → String → String} {s : MemoryStateStore}

/-- Messages stand under their own id, each with its endpoint, and no DLQ has outgrown its
numbers. -/
structure Kept (home : String → String → String) (s : MemoryStateStore) : Prop where
  messages : ∀ t, ∀ p ∈ (s.tenants t).messages.entries,
    p.2.messageId = p.1 ∧ home t p.1 = p.2.endpointId
  short : ∀ t endpointId, (dlqOf (s.tenants t) endpointId).length ≤ 2 ^ 53

theorem Kept.modify (h : Kept home s) {tenant : String} {f : TenantData → TenantData}
    (hm : ∀ p ∈ (f (s.tenants tenant)).messages.entries,
      p.2.messageId = p.1 ∧ home tenant p.1 = p.2.endpointId)
    (hd : ∀ endpointId, (dlqOf (f (s.tenants tenant)) endpointId).length ≤ 2 ^ 53) :
    Kept home (s.modify tenant f) where
  messages := by
    intro t p hp
    by_cases ht : t = tenant
    · subst ht
      rw [MemoryStateStore.modify_self] at hp
      exact hm p hp
    · rw [MemoryStateStore.modify_other s ht] at hp
      exact h.messages t p hp
  short := by
    intro t endpointId
    by_cases ht : t = tenant
    · subst ht
      rw [MemoryStateStore.modify_self]
      exact hd endpointId
    · rw [MemoryStateStore.modify_other s ht]
      exact h.short t endpointId

/-- A method that leaves messages and DLQ alone. -/
theorem Kept.modify_rest (h : Kept home s) {tenant : String} {f : TenantData → TenantData}
    (hm : (f (s.tenants tenant)).messages = (s.tenants tenant).messages)
    (hd : (f (s.tenants tenant)).dlq = (s.tenants tenant).dlq) :
    Kept home (s.modify tenant f) := by
  refine h.modify ?_ ?_
  · rw [hm]
    exact h.messages tenant
  · intro endpointId
    unfold dlqOf
    rw [hd]
    exact h.short tenant endpointId

theorem Kept.perform (h : Kept home s) {op : StoreOp} (hop : AtHome home op)
    (hrouted : Routed s op) : Kept home (s.perform op).2 := by
  cases op with
  | recordEvent t eventId idemKey =>
    show Kept home (s.recordEvent t eventId idemKey).2
    unfold MemoryStateStore.recordEvent
    split
    · exact h
    · dsimp only
      exact h.modify_rest rfl rfl
  | updateEndpoint t id patch =>
    show Kept home (s.updateEndpoint t id patch).2
    unfold MemoryStateStore.updateEndpoint
    split
    · exact h
    · dsimp only
      exact h.modify_rest rfl rfl
  | rotateSecret t id secret =>
    show Kept home (s.rotateSecret t id secret).2
    unfold MemoryStateStore.rotateSecret
    split
    · exact h
    · dsimp only
      exact h.modify_rest rfl rfl
  | putMessage m =>
    show Kept home (s.putMessage m)
    refine h.modify ?_ (h.short m.tenant)
    intro p hp
    obtain rfl | hp := OMap.mem_setList hp
    · exact ⟨rfl, hop⟩
    · exact h.messages m.tenant p hp
  | addToDlq m reason =>
    show Kept home (s.addToDlq m reason)
    refine h.modify (h.messages m.tenant) ?_
    intro endpointId
    rw [dlqOf_concat, List.length_append]
    split
    · rename_i hep
      have hlen : (dlqOf (s.tenants m.tenant) m.endpointId).length < 2 ^ 53 := hrouted
      rw [← hep]
      exact hlen
    · exact h.short m.tenant endpointId
  | finalizeEvent t idemKey eventId k =>
    exact (h.modify_rest rfl rfl : Kept home (s.finalizeEvent t idemKey eventId k))
  | createEndpoint e endpointId secret now =>
    exact (h.modify_rest rfl rfl : Kept home (s.createEndpoint e endpointId secret now))
  | deleteEndpoint t id => exact (h.modify_rest rfl rfl : Kept home (s.deleteEndpoint t id))
  | appendAttempt a => exact (h.modify_rest rfl rfl : Kept home (s.appendAttempt a))
  | putCircuit t id rec => exact (h.modify_rest rfl rfl : Kept home (s.putCircuit t id rec))
  | putRateBucket t id bucket =>
    exact (h.modify_rest rfl rfl : Kept home (s.putRateBucket t id bucket))
  | _ => exact h

end Kept
/-! ## Listings of one family -/

structure Represents (home : String → String → String) (c : Cloud) (s : MemoryStateStore) :
    Prop where
  holds : Holds c (contents home s)
  kept : Kept home s

section Listed
variable {home : String → String → String} {c : Cloud} {s : MemoryStateStore} {t : String}

theorem Represents.endpoints (h : Represents home c s) (t : String) :
    (∀ p ∈ c.list (tenantStub t) Family.endpoint.tag, ∃ e, Val.endpoint? p.2 = some e) ∧
      (c.values Val.endpoint? (tenantStub t) .endpoint).Perm (s.tenants t).endpoints.values := by
  refine values_perm (g := Val.endpoint) (fun _ => rfl) ?_
  refine h.holds.list_entries (m := (s.tenants t).endpoints.toOMap) (k := Slot.endpoint t) ?_
    (fun _ => rfl) (fun _ => rfl) (fun _ _ heq => (Slot.endpoint.inj heq).2) (fun _ => rfl)
  intro r hstub hfamily
  cases r <;> cases hfamily
  obtain rfl := Stub.tenantIndex.inj hstub
  exact ⟨_, rfl⟩

/-- The messages an endpoint's object has. -/
theorem Represents.messages (h : Represents home c s) (t endpointId : String) :
    (∀ p ∈ c.list (endpointStub t endpointId) Family.message.tag, ∃ m, Val.message? p.2 = some m) ∧
      (c.values Val.message? (endpointStub t endpointId) .message).Perm
        ((s.tenants t).messages.values.filter fun m => m.endpointId = endpointId) := by
  have hpart : ((s.tenants t).messages.restrict fun id => home t id = endpointId).values =
      (s.tenants t).messages.values.filter fun m => m.endpointId = endpointId := by
    unfold OMap.values OMap.restrict
    rw [List.filter_map]
    refine congrArg _ (List.filter_congr ?_)
    intro p hp
    show decide (home t p.1 = endpointId) = _
    rw [(h.kept.messages t p hp).2]
    rfl
  rw [← hpart]
  refine values_perm (g := Val.message) (fun _ => rfl) ?_
  refine h.holds.list_entries (k := Slot.message t endpointId) ?_
    (fun _ => rfl) (fun _ => rfl) (fun _ _ heq => (Slot.message.inj heq).2.2) ?_
  · intro r hstub hfamily
    cases r <;> cases hfamily
    obtain ⟨rfl, rfl⟩ := endpointDoName_injective (Stub.endpoint.inj hstub)
    exact ⟨_, rfl⟩
  · intro id
    rw [OMap.get_restrict]
    simp only [contents, Slot.content, Slot.tenant, decide_eq_true_eq]
    split <;> rfl

theorem dlqKey_lt {i j : Nat} (id id' : String) (hij : i < j) (hj : j < 10 ^ 16) :
    dlqKey i id < dlqKey j id' := by
  rw [String.lt_iff_toList_lt]
  simp only [dlqKey, String.toList_append, List.append_assoc]
  rw [append_lt_append_iff]
  refine append_lt_append _ _ ?_ ?_
  · rw [length_padStart (by decide) (hij.trans hj), length_padStart (by decide) hj]
  · rw [← String.lt_iff_toList_lt]
    exact (padStart_lt_iff (by decide) (hij.trans hj) hj).mpr hij

/-- The DLQ rows of an endpoint's object, in the order they were added. -/
theorem Represents.dead (h : Represents home c s) (t endpointId : String) :
    (∀ p ∈ c.list (endpointStub t endpointId) Family.dead.tag, ∃ row, Val.dead? p.2 = some row) ∧
      c.values Val.dead? (endpointStub t endpointId) .dead = dlqOf (s.tenants t) endpointId := by
  have hlist : (c.list (endpointStub t endpointId) Family.dead.tag).map Prod.snd =
      (dlqOf (s.tenants t) endpointId).map Val.dead := by
    refine sort_numbered (pairs_nodup c _ _) (f := fun seq row => dlqKey seq row.message.messageId)
      ?_ ?_
    · intro k v
      rw [show (k, v) ∈ _ ↔ _ from h.holds.mem_pairs (f := Family.dead)]
      constructor
      · rintro ⟨r, hstub, hfamily, rfl, hv⟩
        cases r <;> cases hfamily
        obtain ⟨rfl, rfl⟩ := endpointDoName_injective (Stub.endpoint.inj hstub)
        obtain ⟨row, hrow, rfl⟩ := Option.map_eq_some_iff.mp hv
        obtain ⟨hnth, hid⟩ := Option.filter_eq_some_iff.mp hrow
        refine ⟨_, row, hnth, ?_, rfl⟩
        rw [of_decide_eq_true hid]
        rfl
      · rintro ⟨seq, row, hnth, rfl, rfl⟩
        refine ⟨.dead t endpointId seq row.message.messageId, rfl, rfl, rfl, ?_⟩
        simp only [contents, Slot.content, Slot.tenant, hnth]
        simp
    · intro i j x y hij hj
      refine dlqKey_lt _ _ hij (lt_of_le_of_lt (hj.trans (h.kept.short t endpointId)) ?_)
      decide
  have hpick : ∀ row, Val.dead? (Val.dead row) = some row := fun _ => rfl
  refine ⟨(values_perm hpick (List.Perm.of_eq hlist)).1, ?_⟩
  unfold Cloud.values
  rw [show (fun p : String × Val => Val.dead? p.2) = Val.dead? ∘ Prod.snd from rfl,
    ← List.filterMap_map, hlist, List.filterMap_map,
    show Val.dead? ∘ Val.dead = some from rfl, List.filterMap_some]

end Listed

end Anyhook.Cloudflare.Store
