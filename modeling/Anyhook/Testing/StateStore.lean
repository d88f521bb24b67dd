import Anyhook.Lib.Run
import Anyhook.Lib.Sorted
import Anyhook.Testing.MemoryState

/-! The StateStore port as one signature of nineteen methods, the in-memory store as its
reference, and when another store answers a call as the reference does. What a store
makes up itself (endpoint ids, secrets, creation times) is given with the call. -/
namespace Anyhook.Testing
open Anyhook.Core Anyhook.Lib.Sorted

inductive StoreOp where
  | recordEvent (tenant eventId idemKey : String)
  | finalizeEvent (tenant idemKey eventId : String) (messageCount : Nat)
  | createEndpoint (e : MemoryStateStore.CreateInput) (endpointId secret : String) (now : Time)
  | getEndpoint (tenant endpointId : String)
  | listEndpoints (tenant : String)
  | matchEndpoints (tenant eventType : String)
  | updateEndpoint (tenant endpointId : String) (patch : MemoryStateStore.EndpointPatch)
  | rotateSecret (tenant endpointId secret : String)
  | deleteEndpoint (tenant endpointId : String)
  | putMessage (m : Message)
  | getMessage (tenant messageId : String)
  | appendAttempt (a : Attempt)
  | listDeliveries (q : DeliveryQuery)
  | getCircuit (tenant endpointId : String)
  | putCircuit (tenant endpointId : String) (rec : CircuitRecord)
  | getRateBucket (tenant endpointId : String)
  | putRateBucket (tenant endpointId : String) (bucket : RateBucket)
  | addToDlq (m : Message) (reason : DlqReason)
  | listDlq (tenant : String) (endpointId : Option String)

@[reducible] def StoreRes : StoreOp → Type
  | .recordEvent .. => EventRecordResult
  | .createEndpoint .. | .updateEndpoint .. => Endpoint
  | .getEndpoint .. => Option Endpoint
  | .listEndpoints _ | .matchEndpoints .. => List Endpoint
  | .rotateSecret .. => String
  | .getMessage .. => Option Message
  | .listDeliveries _ => List (Message × List Attempt)
  | .getCircuit .. => CircuitRecord
  | .getRateBucket .. => Option RateBucket
  | .listDlq .. => List DlqRow
  | .finalizeEvent .. | .deleteEndpoint .. | .putMessage _ | .appendAttempt _ | .putCircuit ..
  | .putRateBucket .. | .addToDlq .. => Unit

namespace MemoryStateStore

/-- One call of the in-memory store. Two methods throw. -/
def perform (s : MemoryStateStore) : (op : StoreOp) → Except String (StoreRes op) × MemoryStateStore
  | .recordEvent t eventId idemKey =>
    (.ok (s.recordEvent t eventId idemKey).1, (s.recordEvent t eventId idemKey).2)
  | .finalizeEvent t idemKey eventId n => (.ok (), s.finalizeEvent t idemKey eventId n)
  | .createEndpoint e endpointId secret now =>
    (.ok (e.endpoint endpointId secret now), s.createEndpoint e endpointId secret now)
  | .getEndpoint t id => (.ok (s.getEndpoint t id), s)
  | .listEndpoints t => (.ok (s.listEndpoints t), s)
  | .matchEndpoints t type => (.ok (s.matchEndpoints t type), s)
  | .updateEndpoint t id patch => s.updateEndpoint t id patch
  | .rotateSecret t id secret => s.rotateSecret t id secret
  | .deleteEndpoint t id => (.ok (), s.deleteEndpoint t id)
  | .putMessage m => (.ok (), s.putMessage m)
  | .getMessage t id => (.ok (s.getMessage t id), s)
  | .appendAttempt a => (.ok (), s.appendAttempt a)
  | .listDeliveries q => (.ok (s.listDeliveries q), s)
  | .getCircuit t id => (.ok (s.getCircuit t id), s)
  | .putCircuit t id rec => (.ok (), s.putCircuit t id rec)
  | .getRateBucket t id => (.ok (s.getRateBucket t id), s)
  | .putRateBucket t id bucket => (.ok (), s.putRateBucket t id bucket)
  | .addToDlq m reason => (.ok (), s.addToDlq m reason)
  | .listDlq t endpointId => (.ok (s.listDlq t endpointId), s)

end MemoryStateStore

/-! ## Comparing two stores -/

/-- The two answers to a call are the same. Endpoints come in any order. A listing of
deliveries has the same number of rows, chosen newest first among the rows the reference
has for the query without its limit. -/
def SameAnswer (s : MemoryStateStore) : (op : StoreOp) → StoreRes op → StoreRes op → Prop
  | .listEndpoints _, a, b => a.Perm b
  | .matchEndpoints .., a, b => a.Perm b
  | .listDeliveries q, a, b =>
    a.length = b.length ∧
      Top (fun row => row.1.createdAt) (s.listDeliveries { q with limit := none }) a ∧
      Top (fun row => row.1.createdAt) (s.listDeliveries { q with limit := none }) b
  | _, a, b => a = b

/-- Both calls return, with the same answer, or both throw the same error. -/
def SameReply {α : Type} (same : α → α → Prop) : Except String α → Except String α → Prop
  | .ok a, .ok b => same a b
  | .error e, .error e' => e = e'
  | _, _ => False

theorem SameReply.of_ok {α : Type} {same : α → α → Prop} {x y : Except String α}
    (h : SameReply same x y) {a b : α} (hx : x.toOption = some a) (hy : y.toOption = some b) :
    same a b := by
  cases x with
  | error e => cases hx
  | ok a' =>
    cases y with
    | error e => cases hy
    | ok b' =>
      obtain rfl : a' = a := Option.some.inj hx
      obtain rfl : b' = b := Option.some.inj hy
      exact h

/-! ## The reference's listings -/

namespace MemoryStateStore

/-- The rows of a query, whatever its limit. -/
def matching (s : MemoryStateStore) (q : DeliveryQuery) : List Message :=
  (s.tenants q.tenant).messages.values.filter fun m => q.ofEndpoint m && q.passes m

/-- Rows chosen newest first among the matching ones, as many as the reference chooses, are
an answer like the reference's. -/
theorem sameAnswer_of_top (s : MemoryStateStore) (q : DeliveryQuery) {rows : List Message}
    (hlen : rows.length = min (q.kept (s.matching q).length) (s.matching q).length)
    (htop : Top Message.createdAt (s.matching q) rows) :
    SameAnswer s (.listDeliveries q) (s.listDeliveries q)
      (rows.map fun m => (m, s.attemptsOf q.tenant m.messageId)) := by
  have hall : (s.listDeliveries { q with limit := none }).Perm
      ((s.matching q).map fun m => (m, s.attemptsOf q.tenant m.messageId)) := by
    refine List.Perm.map _ ?_
    simp only [DeliveryQuery.newest, DeliveryQuery.kept]
    rw [List.take_of_length_le (by rw [List.length_insertionSort])]
    exact List.perm_insertionSort _ _
  have hrows : ∀ rows : List Message, Top Message.createdAt (s.matching q) rows →
      Top (fun row : Message × List Attempt => row.1.createdAt)
        (s.listDeliveries { q with limit := none })
        (rows.map fun m => (m, s.attemptsOf q.tenant m.messageId)) := by
    intro rows h
    exact (h.map (fun m => (m, s.attemptsOf q.tenant m.messageId)) fun _ => rfl).perm hall.symm
  refine ⟨?_, hrows _ (top_take _ _), hrows rows htop⟩
  show ((q.newest Message.createdAt (s.matching q)).map _).length = _
  rw [List.length_map, List.length_map, DeliveryQuery.newest, List.length_take,
    List.length_insertionSort, hlen]

/-- Sorting and limiting rows that are the matching ones in another order gives an answer
like the reference's. -/
theorem sameAnswer_newest (s : MemoryStateStore) (q : DeliveryQuery) {rows : List Message}
    (h : rows.Perm (s.matching q)) :
    SameAnswer s (.listDeliveries q) (s.listDeliveries q)
      ((q.newest Message.createdAt rows).map fun m => (m, s.attemptsOf q.tenant m.messageId)) := by
  refine s.sameAnswer_of_top q ?_ ((top_take rows _).perm h)
  rw [DeliveryQuery.newest, List.length_take, List.length_insertionSort, h.length_eq]

end MemoryStateStore
end Anyhook.Testing
