import Anyhook.Aws.Keys
import Anyhook.Testing.StateStore

/-! What the table should hold. The data of the in-memory store, spread out over logical
rows: every method that writes changes one or two of them. -/
namespace Anyhook.Aws.Store
open Anyhook.Core Anyhook.Testing Anyhook.Lib.OrderedMap Anyhook.Lib.Scan

/-- A counter row exists from its first increment on. -/
def counted (n : Nat) : Option Attrs := if n = 0 then none else some (.counter n)

def logOf (d : TenantData) (messageId : String) : List Attempt :=
  (d.attempts.get messageId).getD []

def RowId.content (d : TenantData) : RowId → Option Attrs
  | .event idemKey => (d.events.get idemKey).map .event
  | .endpoint endpointId => (d.endpoints.get endpointId).map .endpoint
  | .message messageId => (d.messages.get messageId).map .message
  | .index messageId => (d.messages.get messageId).map fun m => .index m.endpointId
  | .attempt messageId seq => (nth (logOf d messageId) seq).map .attempt
  | .attemptCounter messageId => counted (logOf d messageId).length
  | .circuit endpointId => (d.circuits.get endpointId).map .circuit
  | .rate endpointId => (d.rateBuckets.get endpointId).map .rate
  | .dead seq => (nth d.dlq seq).map .dead
  | .deadCounter => counted d.dlq.length

/-- The attributes of every row of every tenant. -/
abbrev Contents := String → RowId → Option Attrs

def Contents.set (C : Contents) (tenant : String) (r : RowId) (a : Option Attrs) : Contents :=
  fun tenant' r' => if tenant' = tenant ∧ r' = r then a else C tenant' r'

def contents (s : MemoryStateStore) : Contents := fun tenant r => r.content (s.tenants tenant)

/-! ## What a method writes -/

/-- A method that changes one tenant's data, and of it these rows. -/
theorem contents_modify (s : MemoryStateStore) (tenant : String) (f : TenantData → TenantData)
    {C : Contents}
    (hother : ∀ tenant' r, tenant' ≠ tenant → C tenant' r = r.content (s.tenants tenant'))
    (hown : ∀ r, C tenant r = r.content (f (s.tenants tenant))) :
    contents (s.modify tenant f) = C := by
  funext tenant' r
  unfold contents
  by_cases h : tenant' = tenant
  · subst h
    rw [MemoryStateStore.modify_self, hown]
  · rw [MemoryStateStore.modify_other s h, hother tenant' r h]

/-- The same where the method changes one row. -/
theorem contents_modify_one (s : MemoryStateStore) (tenant : String)
    (f : TenantData → TenantData) (r : RowId) (a : Option Attrs)
    (h : ∀ r', r'.content (f (s.tenants tenant)) =
      if r' = r then a else r'.content (s.tenants tenant)) :
    contents (s.modify tenant f) = (contents s).set tenant r a := by
  refine contents_modify s tenant f (fun tenant' r' hne => ?_) (fun r' => ?_)
  · simp [Contents.set, contents, hne]
  · rw [h]
    simp [Contents.set, contents]

section Methods
variable (s : MemoryStateStore)

theorem contents_finalizeEvent (tenant idemKey eventId : String) (n : Nat) :
    contents (s.finalizeEvent tenant idemKey eventId n) =
      (contents s).set tenant (.event idemKey)
        (some (.event { eventId := eventId, messageCount := n })) := by
  refine contents_modify_one s tenant _ _ _ fun r' => ?_
  cases r' with
  | event k =>
    simp only [RowId.content, OMap.get_set, RowId.event.injEq, eq_comm]
    split <;> rfl
  | _ => simp [RowId.content, logOf]

theorem contents_putEndpoint (tenant : String) (e : Endpoint) {endpointId : String}
    (he : e.endpointId = endpointId) :
    contents (s.modify tenant fun d => { d with endpoints := d.endpoints.set endpointId e he }) =
      (contents s).set tenant (.endpoint endpointId) (some (.endpoint e)) := by
  refine contents_modify_one s tenant _ _ _ fun r' => ?_
  cases r' with
  | endpoint id =>
    have hget := OMap.get_set (s.tenants tenant).endpoints.toOMap endpointId id e
    simp only [RowId.content, RowId.endpoint.injEq]
    rw [show (((s.tenants tenant).endpoints.set endpointId e he).get id) = _ from hget]
    by_cases h : endpointId = id
    · simp [h]
    · simp [h, Ne.symm h]
  | _ => simp [RowId.content, logOf]

theorem contents_deleteEndpoint (tenant endpointId : String) :
    contents (s.deleteEndpoint tenant endpointId) =
      (contents s).set tenant (.endpoint endpointId) none := by
  refine contents_modify_one s tenant _ _ _ fun r' => ?_
  cases r' with
  | endpoint id =>
    have hget := OMap.get_delete (s.tenants tenant).endpoints.toOMap endpointId id
    simp only [RowId.content, RowId.endpoint.injEq]
    rw [show (((s.tenants tenant).endpoints.delete endpointId).get id) = _ from hget]
    by_cases h : endpointId = id
    · simp [h]
    · simp [h, Ne.symm h]
  | _ => simp [RowId.content, logOf]

theorem contents_putMessage (m : Message) :
    contents (s.putMessage m) =
      ((contents s).set m.tenant (.message m.messageId) (some (.message m))).set m.tenant
        (.index m.messageId) (some (.index m.endpointId)) := by
  refine contents_modify s m.tenant _ (fun tenant' r' hne => ?_) (fun r' => ?_)
  · simp [Contents.set, contents, hne]
  · cases r' with
    | message id =>
      by_cases h : m.messageId = id
      · simp [Contents.set, RowId.content, h]
      · simp [Contents.set, contents, RowId.content, OMap.get_set_of_ne _ h, Ne.symm h]
    | index id =>
      by_cases h : m.messageId = id
      · simp [Contents.set, RowId.content, h]
      · simp [Contents.set, contents, RowId.content, OMap.get_set_of_ne _ h, Ne.symm h]
    | _ => simp [Contents.set, contents, RowId.content, logOf]

theorem contents_appendAttempt (a : Attempt) :
    contents (s.appendAttempt a) =
      ((contents s).set a.tenant (.attemptCounter a.messageId)
        (some (.counter ((s.attemptsOf a.tenant a.messageId).length + 1)))).set a.tenant
          (.attempt a.messageId ((s.attemptsOf a.tenant a.messageId).length + 1))
          (some (.attempt a)) := by
  refine contents_modify s a.tenant _ (fun tenant' r' hne => ?_) (fun r' => ?_)
  · simp [Contents.set, contents, hne]
  · cases r' with
    | attempt id seq =>
      by_cases h : a.messageId = id
      · subst h
        simp only [RowId.content, logOf, OMap.get_set_self, Option.getD_some, nth_concat,
          Contents.set, contents, MemoryStateStore.attemptsOf, RowId.attempt.injEq, true_and,
          reduceCtorEq, and_false, if_false]
        split <;> rfl
      · simp [Contents.set, contents, RowId.content, logOf, OMap.get_set_of_ne _ h, Ne.symm h]
    | attemptCounter id =>
      by_cases h : a.messageId = id
      · subst h
        simp [Contents.set, RowId.content, logOf, counted, MemoryStateStore.attemptsOf]
      · simp [Contents.set, contents, RowId.content, logOf, OMap.get_set_of_ne _ h, Ne.symm h]
    | _ => simp [Contents.set, contents, RowId.content]

theorem contents_putCircuit (tenant endpointId : String) (rec : CircuitRecord) :
    contents (s.putCircuit tenant endpointId rec) =
      (contents s).set tenant (.circuit endpointId) (some (.circuit rec)) := by
  refine contents_modify_one s tenant _ _ _ fun r' => ?_
  cases r' with
  | circuit id =>
    by_cases h : endpointId = id
    · simp [RowId.content, h]
    · simp [RowId.content, OMap.get_set_of_ne _ h, Ne.symm h]
  | _ => simp [RowId.content, logOf]

theorem contents_putRateBucket (tenant endpointId : String) (bucket : RateBucket) :
    contents (s.putRateBucket tenant endpointId bucket) =
      (contents s).set tenant (.rate endpointId) (some (.rate bucket)) := by
  refine contents_modify_one s tenant _ _ _ fun r' => ?_
  cases r' with
  | rate id =>
    by_cases h : endpointId = id
    · simp [RowId.content, h]
    · simp [RowId.content, OMap.get_set_of_ne _ h, Ne.symm h]
  | _ => simp [RowId.content, logOf]

theorem contents_addToDlq (m : Message) (reason : DlqReason) :
    contents (s.addToDlq m reason) =
      ((contents s).set m.tenant .deadCounter
        (some (.counter ((s.tenants m.tenant).dlq.length + 1)))).set m.tenant
          (.dead ((s.tenants m.tenant).dlq.length + 1))
          (some (.dead { message := m, reason := reason })) := by
  refine contents_modify s m.tenant _ (fun tenant' r' hne => ?_) (fun r' => ?_)
  · simp [Contents.set, contents, hne]
  · cases r' with
    | dead seq =>
      simp only [RowId.content, nth_concat, Contents.set, contents, RowId.dead.injEq, true_and,
        reduceCtorEq, and_false, if_false]
      split <;> rfl
    | deadCounter => simp [Contents.set, RowId.content, counted]
    | _ => simp [Contents.set, contents, RowId.content, logOf]

end Methods
end Anyhook.Aws.Store
