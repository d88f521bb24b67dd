import Anyhook.Aws.Holds

/-! DynamoStateStore against the in-memory store. Calls are made one at a time, to both;
the table goes on holding the rows the in-memory data stands for, and so the answers are
the same. -/
namespace Anyhook.Aws.Store
open Anyhook.Core Anyhook.Testing Anyhook.Lib.Program Anyhook.Lib.OrderedMap Anyhook.Lib.Padded
open Anyhook.Lib.Run Anyhook.Lib.Scan

/-! ## The methods -/

def perform (pages : Nat) : (op : StoreOp) → Ddb (StoreRes op)
  | .recordEvent t eventId idemKey => recordEvent t eventId idemKey
  | .finalizeEvent t idemKey eventId n => finalizeEvent t idemKey eventId n
  | .createEndpoint e endpointId secret now => createEndpoint e endpointId secret now
  | .getEndpoint t id => getEndpoint t id
  | .listEndpoints t => listEndpoints pages t
  | .matchEndpoints t type => matchEndpoints pages t type
  | .updateEndpoint t id patch => updateEndpoint t id patch
  | .rotateSecret t id secret => rotateSecret t id secret
  | .deleteEndpoint t id => deleteEndpoint t id
  | .putMessage m => putMessage m
  | .getMessage t id => getMessage t id
  | .appendAttempt a => appendAttempt a
  | .listDeliveries q => listDeliveries pages q
  | .getCircuit t id => getCircuit t id
  | .putCircuit t id rec => putCircuit t id rec
  | .getRateBucket t id => getRateBucket t id
  | .putRateBucket t id bucket => putRateBucket t id bucket
  | .addToDlq m reason => addToDlq m reason
  | .listDlq t endpointId => listDlq pages t endpointId

/-- Both stores, and how many commands the table has served. -/
structure Twin where
  memory : MemoryStateStore
  table : Table
  sent : Nat

namespace Twin

def begin : Twin where
  memory := .empty
  table := .empty
  sent := 0

/-- The call to DynamoStateStore. -/
def reply (answers : Nat → TableAnswer) (pages : Nat) (w : Twin) (op : StoreOp) :
    Except String (StoreRes op) × (Table × Nat) :=
  (perform pages op).run (serve answers) (w.table, w.sent)

def step (answers : Nat → TableAnswer) (pages : Nat) (w : Twin) (op : StoreOp) : Twin where
  memory := (w.memory.perform op).2
  table := (w.reply answers pages op).2.1
  sent := (w.reply answers pages op).2.2

end Twin

/-- A character of an id: `[A-Za-z0-9_-]`. -/
def isIdChar (c : Char) : Bool := c.isAlphanum || c = '_' || c = '-'

/-- The message ids the call stores rows under. -/
def PlainIds : StoreOp → Prop
  | .putMessage m => m.messageId.toList.all isIdChar = true
  | .appendAttempt a => a.messageId.toList.all isIdChar = true
  | _ => True

/-- Sequence numbers have not outgrown their width. -/
def Small (s : MemoryStateStore) : Prop :=
  ∀ tenant, (s.tenants tenant).dlq.length < 10 ^ 16 ∧
    ∀ messageId, (s.attemptsOf tenant messageId).length < 10 ^ 10

/-- Keys tell rows apart, and each query is about rows of one kind. -/
structure KeysApart : Prop where
  rows : ∀ {tenant tenant' : String} {r r' : RowId}, r.Plain → r'.Plain →
    (tenantPk tenant, r.sk) = (tenantPk tenant', r'.sk) → tenant' = tenant ∧ r' = r
  endpoints : ∀ r : RowId,
    (endpointSk "").toList.isPrefixOf r.sk.toList = true ↔ ∃ id, r = .endpoint id
  messages : ∀ r : RowId,
    (messageSk "").toList.isPrefixOf r.sk.toList = true ↔ ∃ id, r = .message id
  attempts : ∀ (r : RowId) (messageId : String), r.Plain → '#' ∉ messageId.toList →
    ((attemptSkPrefix messageId).toList.isPrefixOf r.sk.toList = true ↔
      ∃ seq, r = .attempt messageId seq)
  dead : ∀ r : RowId, "DLQ#".toList.isPrefixOf r.sk.toList = true ↔ ∃ seq, r = .dead seq

/-! ## Reads and writes of single rows -/

section Rows
variable {answers : Nat → TableAnswer} {t : Table} {C : Contents} {n : Nat} {tenant : String}
variable {r : RowId}

theorem putRow_ends (h : Holds t C) (hr : r.Plain) (a : Attrs) :
    Prog.Ends (serve answers) (putRow tenant r.sk a)
      (fun _ s' => Holds s'.1 (C.set tenant r (some a)) ∧ s'.1.size ≤ t.size + 1) (t, n) :=
  ⟨(), (t.put tenant r a none, n + 1), rfl, h.put hr a none, put_size t tenant r a none⟩

theorem getRow_ends {α : Type} {pick : Attrs → Option α} {consistentRead : Bool}
    (hlag : ∀ n, (answers n).lag = 0) (h : Holds t C) (hr : r.Plain)
    (hpick : ∀ a, C tenant r = some a → ∃ x, pick a = some x) :
    Prog.Ends (serve answers) (getRow pick tenant r.sk consistentRead)
      (fun x s' => x = (C tenant r).bind pick ∧ s'.1 = t) (t, n) := by
  have hfound := h.found tenant r hr
  have hsee : t.see (if consistentRead then 0 else (answers n).lag) (tenantPk tenant, r.sk) =
      t.rows.get (tenantPk tenant, r.sk) := by
    rw [hlag n, ite_self, see_zero]
  refine Prog.Ends.bind (P := fun item s' => item = t.rows.get (tenantPk tenant, r.sk) ∧ s'.1 = t)
    ⟨_, _, rfl, hsee, rfl⟩ ?_
  intro item s' ⟨hitem, hs'⟩
  cases item with
  | none =>
    rw [← hitem] at hfound
    exact Prog.ends_pure ⟨by rw [← hfound]; rfl, hs'⟩
  | some row =>
    rw [← hitem] at hfound
    obtain ⟨x, hx⟩ := hpick row.attrs hfound.symm
    have hstrip : stripKeys pick row = pure x := by
      unfold stripKeys
      rw [hx]
    dsimp only
    rw [hstrip]
    refine Prog.ends_pure ⟨?_, hs'⟩
    rw [← hfound]
    exact hx.symm

theorem nextSeq_ends (h : Holds t C) (hr : r.Plain) {k : Nat} (hk : C tenant r = counted k) :
    Prog.Ends (serve answers) (nextSeq tenant r.sk)
      (fun seq s' => seq = k + 1 ∧ Holds s'.1 (C.set tenant r (some (.counter (k + 1)))) ∧
        s'.1.size ≤ t.size + 1) (t, n) := by
  have hbump : bump (t.rows.get (tenantPk tenant, r.sk)) = k + 1 := by
    have hfound := h.found tenant r hr
    rw [hk] at hfound
    cases hget : t.rows.get (tenantPk tenant, r.sk) with
    | none =>
      rw [hget] at hfound
      unfold counted at hfound
      split at hfound
      · rename_i hzero
        rw [hzero]
        rfl
      · cases hfound
    | some row =>
      rw [hget] at hfound
      unfold counted at hfound
      split at hfound
      · cases hfound
      · obtain ⟨pk, sk, a, v⟩ := row
        obtain rfl : a = .counter k := Option.some.inj hfound
        rfl
  refine ⟨k + 1, (t.put tenant r (.counter (k + 1)) none, n + 1), ?_, rfl, h.put hr _ none,
    put_size t tenant r _ none⟩
  show (Except.ok (bump (t.rows.get (tenantPk tenant, r.sk))), _) = _
  simp only [tableExec, Table.put]
  rw [hbump]

/-- An item of the right family is taken for what it is. -/
theorem stripAll_eq {α : Type} {pick : Attrs → Option α} {items : List Row} {xs : List α}
    (h : items.map (fun row => pick row.attrs) = xs.map some) :
    stripAll pick items = pure xs := by
  induction items generalizing xs with
  | nil =>
    cases xs with
    | nil => rfl
    | cons x xs => cases h
  | cons row items ih =>
    cases xs with
    | nil => cases h
    | cons x xs =>
      obtain ⟨hx, hxs⟩ := List.cons.inj h
      have hstrip : stripKeys pick row = pure x := by
        unfold stripKeys
        rw [show pick row.attrs = some x from hx]
      unfold stripAll
      rw [hstrip, ih hxs]
      rfl

end Rows
/-! ## What one call keeps -/

/-- Endpoints stand under their tenant, messages under their own id. -/
structure WellKept (s : MemoryStateStore) : Prop where
  endpoints : ∀ tenant id e, (s.tenants tenant).endpoints.get id = some e → e.tenant = tenant
  messages : ∀ tenant, ∀ p ∈ (s.tenants tenant).messages.entries,
    p.2.messageId = p.1 ∧ '#' ∉ p.1.toList

structure Represents (t : Table) (s : MemoryStateStore) : Prop where
  holds : Holds t (contents s)
  kept : WellKept s

theorem WellKept.modify {s : MemoryStateStore} (h : WellKept s) {tenant : String}
    {f : TenantData → TenantData}
    (he : ∀ id e, (f (s.tenants tenant)).endpoints.get id = some e → e.tenant = tenant)
    (hm : ∀ p ∈ (f (s.tenants tenant)).messages.entries, p.2.messageId = p.1 ∧ '#' ∉ p.1.toList) :
    WellKept (s.modify tenant f) where
  endpoints := by
    intro tenant' id e hget
    by_cases heq : tenant' = tenant
    · subst heq
      rw [MemoryStateStore.modify_self] at hget
      exact he id e hget
    · rw [MemoryStateStore.modify_other s heq] at hget
      exact h.endpoints tenant' id e hget
  messages := by
    intro tenant' p hp
    by_cases heq : tenant' = tenant
    · subst heq
      rw [MemoryStateStore.modify_self] at hp
      exact hm p hp
    · rw [MemoryStateStore.modify_other s heq] at hp
      exact h.messages tenant' p hp

/-- A put of an endpoint of the tenant. -/
theorem WellKept.putEndpoint {s : MemoryStateStore} (h : WellKept s) {tenant endpointId : String}
    {e : Endpoint} (hid : e.endpointId = endpointId) (htenant : e.tenant = tenant) :
    WellKept (s.modify tenant fun d =>
      { d with endpoints := d.endpoints.set endpointId e hid }) := by
  refine h.modify ?_ (h.messages tenant)
  intro id e' hget
  have hset : ((s.tenants tenant).endpoints.toOMap.set endpointId e).get id = some e' := hget
  rw [OMap.get_set] at hset
  split at hset
  · cases hset
    exact htenant
  · exact h.endpoints tenant id e' hset

theorem not_mem_hash {id : String} (h : id.toList.all isIdChar = true) : '#' ∉ id.toList := by
  intro hmem
  exact absurd (List.all_eq_true.mp h '#' hmem) (by decide)

theorem WellKept.perform {s : MemoryStateStore} (h : WellKept s) {op : StoreOp}
    (hop : PlainIds op) : WellKept (s.perform op).2 := by
  cases op with
  | recordEvent t eventId idemKey =>
    show WellKept (s.recordEvent t eventId idemKey).2
    unfold MemoryStateStore.recordEvent
    split
    · exact h
    · dsimp only
      exact h.modify (h.endpoints t) (h.messages t)
  | finalizeEvent t idemKey eventId k =>
    show WellKept (s.finalizeEvent t idemKey eventId k)
    exact h.modify (h.endpoints t) (h.messages t)
  | createEndpoint e endpointId secret now =>
    show WellKept (s.createEndpoint e endpointId secret now)
    exact h.putEndpoint (e := e.endpoint endpointId secret now) rfl rfl
  | updateEndpoint t id patch =>
    show WellKept (s.updateEndpoint t id patch).2
    unfold MemoryStateStore.updateEndpoint
    split
    · exact h
    · rename_i e hget
      exact h.putEndpoint (patch.apply_key hget) (h.endpoints t id e hget)
  | rotateSecret t id secret =>
    show WellKept (s.rotateSecret t id secret).2
    unfold MemoryStateStore.rotateSecret
    split
    · exact h
    · rename_i e hget
      exact h.putEndpoint (MemoryStateStore.rotated_key secret hget) (h.endpoints t id e hget)
  | deleteEndpoint t id =>
    show WellKept (s.deleteEndpoint t id)
    refine h.modify ?_ (h.messages t)
    intro id' e hget
    have hdelete : ((s.tenants t).endpoints.toOMap.delete id).get id' = some e := hget
    rw [OMap.get_delete] at hdelete
    split at hdelete
    · cases hdelete
    · exact h.endpoints t id' e hdelete
  | putMessage m =>
    show WellKept (s.putMessage m)
    refine h.modify (h.endpoints m.tenant) ?_
    intro p hp
    obtain rfl | hp := OMap.mem_setList hp
    · exact ⟨rfl, not_mem_hash hop⟩
    · exact h.messages m.tenant p hp
  | appendAttempt a =>
    show WellKept (s.appendAttempt a)
    exact h.modify (h.endpoints a.tenant) (h.messages a.tenant)
  | putCircuit t id rec =>
    show WellKept (s.putCircuit t id rec)
    exact h.modify (h.endpoints t) (h.messages t)
  | putRateBucket t id bucket =>
    show WellKept (s.putRateBucket t id bucket)
    exact h.modify (h.endpoints t) (h.messages t)
  | addToDlq m reason =>
    show WellKept (s.addToDlq m reason)
    exact h.modify (h.endpoints m.tenant) (h.messages m.tenant)
  | _ => exact h

section Agree
variable {answers : Nat → TableAnswer} {pages : Nat} {t : Table} {s : MemoryStateStore} {n : Nat}
variable {op : StoreOp}

/-- The two stores answer a call alike, and the table goes on representing the data. -/
structure Agrees (answers : Nat → TableAnswer) (pages : Nat) (t : Table) (s : MemoryStateStore)
    (n : Nat) (op : StoreOp) : Prop where
  same : SameReply (SameAnswer s op) (s.perform op).1
    ((perform pages op).run (serve answers) (t, n)).1
  represents : Represents ((perform pages op).run (serve answers) (t, n)).2.1 (s.perform op).2
  size : ((perform pages op).run (serve answers) (t, n)).2.1.size ≤ t.size + 2

/-- Both return. -/
theorem agrees_of_ends (h : Represents t s) (hop : PlainIds op) {b : StoreRes op}
    (hb : (s.perform op).1 = .ok b)
    (hends : Prog.Ends (serve answers) (perform pages op)
      (fun a s' => SameAnswer s op b a ∧ Holds s'.1 (contents (s.perform op).2) ∧
        s'.1.size ≤ t.size + 2) (t, n)) : Agrees answers pages t s n op := by
  obtain ⟨a, s', hrun, hsame, hholds, hsize⟩ := hends
  refine ⟨?_, ?_, ?_⟩
  · rw [hrun, hb]
    exact hsame
  · rw [hrun]
    exact ⟨hholds, h.kept.perform hop⟩
  · rw [hrun]
    exact hsize

/-- A read leaves both stores as they are. -/
theorem agrees_of_read (h : Represents t s) {b : StoreRes op} (hb : s.perform op = (.ok b, s))
    (hread : Prog.Ends (serve answers) (perform pages op)
      (fun a s' => SameAnswer s op b a ∧ s'.1 = t) (t, n)) : Agrees answers pages t s n op := by
  obtain ⟨a, s', hrun, hsame, hs'⟩ := hread
  refine ⟨?_, ?_, ?_⟩
  · rw [hrun, hb]
    exact hsame
  · rw [hrun, hb, hs']
    exact h
  · rw [hrun, hs']
    exact Nat.le_add_right _ _

/-- Both throw. -/
theorem agrees_of_error (h : Represents t s) {e : String} (hb : s.perform op = (.error e, s))
    {k : Nat} (hrun : (perform pages op).run (serve answers) (t, n) = (.error e, (t, k))) :
    Agrees answers pages t s n op := by
  refine ⟨?_, ?_, ?_⟩
  · rw [hrun, hb]
    exact rfl
  · rw [hrun, hb]
    exact h
  · rw [hrun]
    exact Nat.le_add_right _ _

/-! ## Events -/

theorem recordEvent_agrees (hlag : ∀ n, (answers n).lag = 0) (h : Represents t s)
    (tenant eventId idemKey : String) :
    Agrees answers pages t s n (.recordEvent tenant eventId idemKey) := by
  have hfound := h.holds.found tenant (.event idemKey) trivial
  have hcontent : contents s tenant (.event idemKey) =
      ((s.tenants tenant).events.get idemKey).map .event := rfl
  cases hev : (s.tenants tenant).events.get idemKey with
  | none =>
    have hnone : t.rows.get (tenantPk tenant, idemSk idemKey) = none := by
      rw [hcontent, hev] at hfound
      exact Option.map_eq_none_iff.mp hfound
    have hstore : s.recordEvent tenant eventId idemKey =
        ({ isNew := true, eventId := eventId, messageCount := 0 },
          s.finalizeEvent tenant idemKey eventId 0) := by
      unfold MemoryStateStore.recordEvent
      rw [hev]
      rfl
    refine agrees_of_ends h trivial (b := { isNew := true, eventId := eventId, messageCount := 0 })
      ?_ ?_
    · show Except.ok (s.recordEvent tenant eventId idemKey).1 = _
      rw [hstore]
    · refine Prog.Ends.bind (P := fun won s' => won = true ∧ s'.1 = t.put tenant (.event idemKey)
        (.event { eventId := eventId, messageCount := 0 }) none)
        ⟨true, (t.put tenant (.event idemKey)
          (.event { eventId := eventId, messageCount := 0 }) none, n + 1), ?_, rfl, rfl⟩ ?_
      · refine Prog.run_call_ok ?_
        simp only [serve, tableExec]
        rw [if_pos (by simp [Row.key, Condition.holds, hnone])]
        rfl
      · intro won s' hput
        obtain ⟨hwon, hs'⟩ := hput
        rw [hwon]
        refine Prog.ends_pure ⟨rfl, ?_, ?_⟩
        · show Holds s'.1 (contents (s.recordEvent tenant eventId idemKey).2)
          rw [hs', hstore, contents_finalizeEvent]
          exact h.holds.put (r := .event idemKey) trivial _ none
        · rw [hs']
          have := put_size t tenant (.event idemKey)
            (.event { eventId := eventId, messageCount := 0 }) none
          omega
  | some rec =>
    obtain ⟨row, hrow⟩ : ∃ row, t.rows.get (tenantPk tenant, idemSk idemKey) = some row := by
      rw [hcontent, hev] at hfound
      obtain ⟨row, hrow, -⟩ := Option.map_eq_some_iff.mp hfound
      exact ⟨row, hrow⟩
    have hstore : s.recordEvent tenant eventId idemKey =
        ({ isNew := false, eventId := rec.eventId, messageCount := rec.messageCount }, s) := by
      unfold MemoryStateStore.recordEvent
      rw [hev]
    refine agrees_of_read h (b := { isNew := false, eventId := rec.eventId
                                    messageCount := rec.messageCount }) ?_ ?_
    · show (Except.ok (s.recordEvent tenant eventId idemKey).1, _) = _
      rw [hstore]
    · refine Prog.Ends.bind (P := fun won s' => won = false ∧ s'.1 = t)
        ⟨false, (t, n + 1), ?_, rfl, rfl⟩ ?_
      · refine Prog.run_call_ok ?_
        simp only [serve, tableExec]
        rw [if_neg (by simp [Row.key, Condition.holds, hrow])]
      · intro won s' hput
        obtain ⟨hwon, hs'⟩ := hput
        rw [hwon]
        obtain ⟨t', k⟩ := s'
        obtain rfl : t' = t := hs'
        refine Prog.Ends.bind (getRow_ends hlag h.holds (r := .event idemKey) trivial ?_) ?_
        · intro a ha
          rw [hcontent, hev] at ha
          cases ha
          exact ⟨rec, rfl⟩
        · intro existing s' hread
          obtain ⟨hex, hs'⟩ := hread
          rw [hcontent, hev] at hex
          rw [hex]
          exact Prog.ends_pure ⟨rfl, hs'⟩

theorem finalizeEvent_agrees (h : Represents t s) (tenant idemKey eventId : String) (k : Nat) :
    Agrees answers pages t s n (.finalizeEvent tenant idemKey eventId k) := by
  refine agrees_of_ends h trivial rfl
    ((putRow_ends h.holds (r := .event idemKey) trivial _).mono ?_)
  intro _ s' ⟨hholds, hsize⟩
  refine ⟨rfl, ?_, by omega⟩
  show Holds s'.1 (contents (s.finalizeEvent tenant idemKey eventId k))
  rw [contents_finalizeEvent]
  exact hholds

/-! ## Endpoints -/

theorem putEndpointItem_ends (h : Represents t s) {e : Endpoint} {tenant endpointId : String}
    (hid : e.endpointId = endpointId) (htenant : e.tenant = tenant) :
    Prog.Ends (serve answers) (putEndpointItem e)
      (fun _ s' => Holds s'.1 (contents (s.modify tenant fun d =>
        { d with endpoints := d.endpoints.set endpointId e hid })) ∧ s'.1.size ≤ t.size + 1)
      (t, n) := by
  subst hid htenant
  rw [contents_putEndpoint]
  exact putRow_ends h.holds (r := .endpoint e.endpointId) trivial _

theorem createEndpoint_agrees (h : Represents t s) (e : MemoryStateStore.CreateInput)
    (endpointId secret : String) (now : Time) :
    Agrees answers pages t s n (.createEndpoint e endpointId secret now) := by
  refine agrees_of_ends h trivial rfl ?_
  refine (putEndpointItem_ends h (e := e.endpoint endpointId secret now) rfl rfl).bind ?_
  intro _ s' ⟨hholds, hsize⟩
  exact Prog.ends_pure ⟨rfl, hholds, by omega⟩

theorem getEndpoint_ends (hlag : ∀ n, (answers n).lag = 0) (h : Represents t s)
    (tenant endpointId : String) :
    Prog.Ends (serve answers) (getEndpoint tenant endpointId)
      (fun found s' => found = (s.tenants tenant).endpoints.get endpointId ∧ s'.1 = t) (t, n) := by
  have hcontent : contents s tenant (.endpoint endpointId) =
      ((s.tenants tenant).endpoints.get endpointId).map .endpoint := rfl
  refine (getRow_ends hlag h.holds (r := .endpoint endpointId) trivial ?_).mono ?_
  · intro a ha
    rw [hcontent] at ha
    obtain ⟨e, -, rfl⟩ := Option.map_eq_some_iff.mp ha
    exact ⟨e, rfl⟩
  · intro found s' ⟨hfound, hs'⟩
    refine ⟨?_, hs'⟩
    rw [hfound, hcontent]
    cases (s.tenants tenant).endpoints.get endpointId <;> rfl

theorem getEndpoint_agrees (hlag : ∀ n, (answers n).lag = 0) (h : Represents t s)
    (tenant endpointId : String) :
    Agrees answers pages t s n (.getEndpoint tenant endpointId) := by
  refine agrees_of_read h rfl ((getEndpoint_ends hlag h tenant endpointId).mono ?_)
  intro found s' ⟨hfound, hs'⟩
  exact ⟨hfound.symm, hs'⟩

/-- The methods that read an endpoint and put it back changed. -/
theorem changeEndpoint_agrees (hlag : ∀ n, (answers n).lag = 0) (h : Represents t s)
    (hop : PlainIds op) {tenant endpointId : String} (change : Endpoint → Endpoint)
    (result : Endpoint → StoreRes op)
    (hprog : perform pages op = (do
      let existing ← getEndpoint tenant endpointId
      match existing with
      | none => .throw ("endpoint not found: " ++ endpointId)
      | some e =>
        putEndpointItem (change e)
        return result e))
    (hsame : ∀ a, SameAnswer s op a a) (htenant : ∀ e, (change e).tenant = e.tenant)
    (hid : ∀ e, (s.tenants tenant).endpoints.get endpointId = some e →
      (change e).endpointId = endpointId)
    (hnone : (s.tenants tenant).endpoints.get endpointId = none →
      s.perform op = (.error ("endpoint not found: " ++ endpointId), s))
    (hsome : ∀ e (hget : (s.tenants tenant).endpoints.get endpointId = some e),
      s.perform op = (.ok (result e), s.modify tenant fun d =>
        { d with endpoints := d.endpoints.set endpointId (change e) (hid e hget) })) :
    Agrees answers pages t s n op := by
  have hread : Prog.Ends (serve answers) (getEndpoint tenant endpointId)
      (fun found s' => found = (s.tenants tenant).endpoints.get endpointId ∧ s'.1 = t) (t, n) :=
    getEndpoint_ends hlag h tenant endpointId
  obtain ⟨found, s', hrun, hfound, hs'⟩ := hread
  obtain ⟨t', k⟩ := s'
  obtain rfl : t' = t := hs'
  cases hget : (s.tenants tenant).endpoints.get endpointId with
  | none =>
    refine agrees_of_error h (hnone hget) (k := k) ?_
    rw [hprog, Prog.run_bind, hrun, hfound, hget]
    rfl
  | some e =>
    refine agrees_of_ends h hop (b := result e) (by rw [hsome e hget]) ?_
    rw [hprog, hsome e hget]
    refine Prog.Ends.bind ⟨found, _, hrun, rfl, rfl⟩ (P := fun a s' => a = found ∧ s' = (t', k)) ?_
    intro a s' ⟨ha, hs'⟩
    rw [ha, hs', hfound, hget]
    refine (putEndpointItem_ends h (hid e hget)
      ((htenant e).trans (h.kept.endpoints _ _ _ hget))).bind ?_
    intro _ s'' ⟨hholds, hsize⟩
    exact Prog.ends_pure ⟨hsame _, hholds, by omega⟩

theorem updateEndpoint_agrees (hlag : ∀ n, (answers n).lag = 0) (h : Represents t s)
    (tenant endpointId : String) (patch : MemoryStateStore.EndpointPatch) :
    Agrees answers pages t s n (.updateEndpoint tenant endpointId patch) := by
  refine changeEndpoint_agrees hlag h trivial patch.apply patch.apply rfl
    (fun _ => rfl) (fun _ => rfl) (fun e hget => patch.apply_key hget) ?_ ?_
  · intro hget
    show s.updateEndpoint tenant endpointId patch = _
    unfold MemoryStateStore.updateEndpoint
    split
    · rfl
    · rename_i e he
      rw [hget] at he
      cases he
  · intro e hget
    show s.updateEndpoint tenant endpointId patch = _
    unfold MemoryStateStore.updateEndpoint
    split
    · rename_i he
      rw [hget] at he
      cases he
    · rename_i e' he
      rw [hget] at he
      cases he
      rfl

theorem rotateSecret_agrees (hlag : ∀ n, (answers n).lag = 0) (h : Represents t s)
    (tenant endpointId secret : String) :
    Agrees answers pages t s n (.rotateSecret tenant endpointId secret) := by
  refine changeEndpoint_agrees hlag h trivial (fun e => MemoryStateStore.rotated e secret)
    (fun _ => secret) rfl (fun _ => rfl) (fun _ => rfl)
    (fun e hget => MemoryStateStore.rotated_key secret hget) ?_ ?_
  · intro hget
    show s.rotateSecret tenant endpointId secret = _
    unfold MemoryStateStore.rotateSecret
    split
    · rfl
    · rename_i e he
      rw [hget] at he
      cases he
  · intro e hget
    show s.rotateSecret tenant endpointId secret = _
    unfold MemoryStateStore.rotateSecret
    split
    · rename_i he
      rw [hget] at he
      cases he
    · rename_i e' he
      rw [hget] at he
      cases he
      rfl

theorem deleteEndpoint_agrees (h : Represents t s) (tenant endpointId : String) :
    Agrees answers pages t s n (.deleteEndpoint tenant endpointId) := by
  refine agrees_of_ends h trivial rfl ⟨(), _, rfl, rfl, ?_, ?_⟩
  · show Holds _ (contents (s.deleteEndpoint tenant endpointId))
    rw [contents_deleteEndpoint]
    exact h.holds.delete (r := .endpoint endpointId) trivial
  · refine (List.length_filter_le _ _).trans ?_
    exact Nat.le_add_right _ _

/-! ## Messages, circuits and rate limits -/

theorem putMessage_agrees (h : Represents t s) (m : Message)
    (hm : m.messageId.toList.all isIdChar = true) :
    Agrees answers pages t s n (.putMessage m) := by
  refine agrees_of_ends h hm rfl ?_
  refine (putRow_ends h.holds (r := .message m.messageId) trivial _).bind ?_
  intro _ s1 ⟨hholds1, hsize1⟩
  refine (putRow_ends hholds1 (r := .index m.messageId) trivial _).mono ?_
  intro _ s2 ⟨hholds2, hsize2⟩
  refine ⟨rfl, ?_, by omega⟩
  show Holds s2.1 (contents (s.putMessage m))
  rw [contents_putMessage]
  exact hholds2

theorem getMessage_agrees (hlag : ∀ n, (answers n).lag = 0) (h : Represents t s)
    (tenant messageId : String) : Agrees answers pages t s n (.getMessage tenant messageId) := by
  have hcontent : contents s tenant (.message messageId) =
      ((s.tenants tenant).messages.get messageId).map .message := rfl
  refine agrees_of_read h rfl
    ((getRow_ends hlag h.holds (r := .message messageId) trivial ?_).mono ?_)
  · intro a ha
    rw [hcontent] at ha
    obtain ⟨m, -, rfl⟩ := Option.map_eq_some_iff.mp ha
    exact ⟨m, rfl⟩
  · intro found s' ⟨hfound, hs'⟩
    refine ⟨?_, hs'⟩
    show (s.tenants tenant).messages.get messageId = found
    rw [hfound, hcontent]
    cases (s.tenants tenant).messages.get messageId <;> rfl

theorem appendAttempt_agrees (h : Represents t s) (a : Attempt)
    (ha : a.messageId.toList.all isIdChar = true) :
    Agrees answers pages t s n (.appendAttempt a) := by
  refine agrees_of_ends h ha rfl ?_
  refine (nextSeq_ends h.holds (r := .attemptCounter a.messageId) trivial
    (k := (s.attemptsOf a.tenant a.messageId).length) rfl).bind ?_
  intro seq s1 ⟨hseq, hholds1, hsize1⟩
  rw [hseq]
  refine (putRow_ends hholds1 (r := .attempt a.messageId _) (not_mem_hash ha) _).mono ?_
  intro _ s2 ⟨hholds2, hsize2⟩
  refine ⟨rfl, ?_, by omega⟩
  show Holds s2.1 (contents (s.appendAttempt a))
  rw [contents_appendAttempt]
  exact hholds2

theorem getCircuit_agrees (hlag : ∀ n, (answers n).lag = 0) (h : Represents t s)
    (tenant endpointId : String) :
    Agrees answers pages t s n (.getCircuit tenant endpointId) := by
  have hcontent : contents s tenant (.circuit endpointId) =
      ((s.tenants tenant).circuits.get endpointId).map .circuit := rfl
  refine agrees_of_read h rfl ?_
  refine (getRow_ends hlag h.holds (r := .circuit endpointId) trivial ?_).bind ?_
  · intro a ha
    rw [hcontent] at ha
    obtain ⟨rec, -, rfl⟩ := Option.map_eq_some_iff.mp ha
    exact ⟨rec, rfl⟩
  · intro found s' ⟨hfound, hs'⟩
    refine Prog.ends_pure ⟨?_, hs'⟩
    show ((s.tenants tenant).circuits.get endpointId).getD (initialCircuit defaultCooldownMs) = _
    rw [hfound, hcontent]
    cases (s.tenants tenant).circuits.get endpointId <;> rfl

/-- Alone, a circuit write always finds the version it has just read. -/
theorem putCircuit_agrees (h : Represents t s) (tenant endpointId : String)
    (rec : CircuitRecord) :
    Agrees answers pages t s n (.putCircuit tenant endpointId rec) := by
  have hsee : t.see 0 (tenantPk tenant, circuitSk endpointId) =
      t.rows.get (tenantPk tenant, circuitSk endpointId) := see_zero _ _
  refine agrees_of_ends h trivial rfl ?_
  refine Prog.Ends.bind (P := fun current s' =>
      current = t.rows.get (tenantPk tenant, circuitSk endpointId) ∧ s'.1 = t)
    ⟨_, _, rfl, hsee, rfl⟩ ?_
  intro current s1 hread
  obtain ⟨hcurrent, hs1⟩ := hread
  obtain ⟨t1, k⟩ := s1
  obtain rfl : t1 = t := hs1
  refine Prog.Ends.bind (P := fun written s' => written = true ∧ s'.1 = t1.put tenant
      (.circuit endpointId) (.circuit rec) (some ((current.bind Row.version).getD 0 + 1)))
    ⟨true, (t1.put tenant (.circuit endpointId) (.circuit rec)
      (some ((current.bind Row.version).getD 0 + 1)), k + 1), ?_, rfl, rfl⟩ ?_
  · refine Prog.run_call_ok ?_
    simp only [serve, tableExec]
    rw [if_pos (by simp [Row.key, Condition.holds, hcurrent])]
    rfl
  · intro written s2 hput
    obtain ⟨hwritten, hs2⟩ := hput
    rw [hwritten]
    refine Prog.ends_pure ⟨rfl, ?_, ?_⟩
    · show Holds s2.1 (contents (s.putCircuit tenant endpointId rec))
      rw [hs2, contents_putCircuit]
      exact h.holds.put (r := .circuit endpointId) trivial _ _
    · rw [hs2]
      have := put_size t1 tenant (.circuit endpointId) (.circuit rec)
        (some ((current.bind Row.version).getD 0 + 1))
      omega

theorem getRateBucket_agrees (hlag : ∀ n, (answers n).lag = 0) (h : Represents t s)
    (tenant endpointId : String) :
    Agrees answers pages t s n (.getRateBucket tenant endpointId) := by
  have hcontent : contents s tenant (.rate endpointId) =
      ((s.tenants tenant).rateBuckets.get endpointId).map .rate := rfl
  refine agrees_of_read h rfl
    ((getRow_ends hlag h.holds (r := .rate endpointId) trivial ?_).mono ?_)
  · intro a ha
    rw [hcontent] at ha
    obtain ⟨bucket, -, rfl⟩ := Option.map_eq_some_iff.mp ha
    exact ⟨bucket, rfl⟩
  · intro found s' ⟨hfound, hs'⟩
    refine ⟨?_, hs'⟩
    show (s.tenants tenant).rateBuckets.get endpointId = found
    rw [hfound, hcontent]
    cases (s.tenants tenant).rateBuckets.get endpointId <;> rfl

theorem putRateBucket_agrees (h : Represents t s) (tenant endpointId : String)
    (bucket : RateBucket) :
    Agrees answers pages t s n (.putRateBucket tenant endpointId bucket) := by
  refine agrees_of_ends h trivial rfl
    ((putRow_ends h.holds (r := .rate endpointId) trivial _).mono ?_)
  intro _ s' ⟨hholds, hsize⟩
  refine ⟨rfl, ?_, by omega⟩
  show Holds s'.1 (contents (s.putRateBucket tenant endpointId bucket))
  rw [contents_putRateBucket]
  exact hholds

theorem addToDlq_agrees (h : Represents t s) (m : Message) (reason : DlqReason) :
    Agrees answers pages t s n (.addToDlq m reason) := by
  refine agrees_of_ends h trivial rfl ?_
  refine (nextSeq_ends h.holds (r := .deadCounter) trivial
    (k := (s.tenants m.tenant).dlq.length) rfl).bind ?_
  intro seq s1 ⟨hseq, hholds1, hsize1⟩
  rw [hseq]
  refine (putRow_ends hholds1 (r := .dead _) trivial _).mono ?_
  intro _ s2 ⟨hholds2, hsize2⟩
  refine ⟨rfl, ?_, by omega⟩
  show Holds s2.1 (contents (s.addToDlq m reason))
  rw [contents_addToDlq]
  exact hholds2

/-! ## Listings -/

/-- Items that are, in some order, the rows of these objects. -/
theorem strip_of_perm {α : Type} (pick : Attrs → Option α) {g : α → Attrs}
    (hg : ∀ x, pick (g x) = some x) {items : List Row} {xs : List α}
    (h : (items.map Row.attrs).Perm (xs.map g)) :
    ∃ ys, stripAll pick items = pure ys ∧ ys.Perm xs := by
  have hpick : ∀ row ∈ items, ∃ x, pick row.attrs = some x := by
    intro row hrow
    have hmem := h.subset (List.mem_map.mpr ⟨row, hrow, rfl⟩)
    obtain ⟨x, -, hx⟩ := List.mem_map.mp hmem
    exact ⟨x, by rw [← hx, hg]⟩
  have hmap : ∀ items : List Row, (∀ row ∈ items, ∃ x, pick row.attrs = some x) →
      items.map (fun row => pick row.attrs) =
        (items.filterMap fun row => pick row.attrs).map some := by
    intro items hall
    induction items with
    | nil => rfl
    | cons row items ih =>
      obtain ⟨x, hx⟩ := hall row List.mem_cons_self
      rw [List.map_cons, List.filterMap_cons_some (f := fun row : Row => pick row.attrs) hx,
        List.map_cons, ih fun row hrow => hall row (List.mem_cons_of_mem _ hrow), hx]
  refine ⟨items.filterMap fun row => pick row.attrs, stripAll_eq (hmap items hpick), ?_⟩
  have hfilter := h.filterMap pick
  rw [List.filterMap_map, List.filterMap_map] at hfilter
  have hself : xs.filterMap (pick ∘ g) = xs := by
    rw [show pick ∘ g = some from funext hg]
    exact List.filterMap_some
  rw [hself] at hfilter
  exact hfilter

theorem listEndpoints_ends (h : Represents t s) (hpages : t.size < pages) (tenant : String) :
    Prog.Ends (serve answers) (listEndpoints pages tenant)
      (fun all s' => all.Perm (s.tenants tenant).endpoints.values ∧ s'.1 = t) (t, n) := by
  refine (h.holds.query_ends (tenantPk tenant) (endpointSk "") hpages n).bind ?_
  intro items s' ⟨hitems, hs'⟩
  have hperm : (items.map Row.attrs).Perm ((s.tenants tenant).endpoints.values.map .endpoint) := by
    rw [hitems]
    exact h.holds.select_entries (f := RowId.endpoint) (fun _ => trivial)
      (fun _ _ hid => RowId.endpoint.inj hid) (fun r _ => endpointSk_prefix_iff) (fun _ => rfl)
  obtain ⟨ys, hstrip, hys⟩ := strip_of_perm Attrs.endpoint? (fun _ => rfl) hperm
  rw [hstrip]
  exact Prog.ends_pure ⟨hys, hs'⟩

theorem listEndpoints_agrees (h : Represents t s) (hpages : t.size < pages) (tenant : String) :
    Agrees answers pages t s n (.listEndpoints tenant) := by
  refine agrees_of_read h rfl ((listEndpoints_ends h hpages tenant).mono ?_)
  intro all s' ⟨hall, hs'⟩
  exact ⟨hall.symm, hs'⟩

theorem matchEndpoints_agrees (h : Represents t s) (hpages : t.size < pages)
    (tenant eventType : String) : Agrees answers pages t s n (.matchEndpoints tenant eventType) := by
  refine agrees_of_read h rfl ((listEndpoints_ends h hpages tenant).bind ?_)
  intro all s' ⟨hall, hs'⟩
  exact Prog.ends_pure ⟨(hall.filter _).symm, hs'⟩

theorem attemptSk_lt {messageId : String} {i j : Nat} (hij : i < j) (hj : j < 10 ^ 10) :
    attemptSk messageId i < attemptSk messageId j := by
  rw [String.lt_iff_toList_lt]
  unfold attemptSk
  rw [String.toList_append, String.toList_append, append_lt_append_iff, ← String.lt_iff_toList_lt]
  exact (padStart_lt_iff (by decide) (hij.trans hj) hj).mpr hij

theorem dlqSk_lt {i j : Nat} (hij : i < j) (hj : j < 10 ^ 16) : dlqSk i < dlqSk j := by
  rw [String.lt_iff_toList_lt]
  unfold dlqSk
  rw [String.toList_append, String.toList_append, append_lt_append_iff, ← String.lt_iff_toList_lt]
  exact (padStart_lt_iff (by decide) (hij.trans hj) hj).mpr hij

theorem listAttempts_ends (h : Represents t s) (hpages : t.size < pages) (hsmall : Small s)
    (tenant : String) {messageId : String} (hid : '#' ∉ messageId.toList) :
    Prog.Ends (serve answers) (listAttempts pages tenant messageId)
      (fun log s' => log = s.attemptsOf tenant messageId ∧ s'.1 = t) (t, n) := by
  refine (h.holds.query_ends (tenantPk tenant) (attemptSkPrefix messageId) hpages n).bind ?_
  intro items s' ⟨hitems, hs'⟩
  have hattrs : items.map Row.attrs = (s.attemptsOf tenant messageId).map .attempt := by
    rw [hitems]
    refine h.holds.select_numbered (f := RowId.attempt messageId) (fun _ => hid)
      (fun r hr => attemptSkPrefix_prefix_iff hid hr) (fun _ => rfl) ?_
    intro i j hij hj
    exact attemptSk_lt hij (hj.trans_lt ((hsmall tenant).2 messageId))
  have hstrip : stripAll Attrs.attempt? items = pure (s.attemptsOf tenant messageId) := by
    refine stripAll_eq ?_
    rw [show (fun row : Row => Attrs.attempt? row.attrs) = Attrs.attempt? ∘ Row.attrs from rfl,
      ← List.map_map, hattrs, List.map_map]
    rfl
  rw [hstrip]
  exact Prog.ends_pure ⟨rfl, hs'⟩

theorem attachAttempts_ends (h : Represents t s) (hpages : t.size < pages) (hsmall : Small s)
    (tenant : String) {rows : List Message} (hplain : ∀ m ∈ rows, '#' ∉ m.messageId.toList) :
    Prog.Ends (serve answers) (attachAttempts pages tenant rows)
      (fun out s' => out = rows.map (fun m => (m, s.attemptsOf tenant m.messageId)) ∧ s'.1 = t)
      (t, n) := by
  induction rows generalizing n with
  | nil => exact Prog.ends_pure ⟨rfl, rfl⟩
  | cons m rows ih =>
    refine (listAttempts_ends h hpages hsmall tenant (hplain m List.mem_cons_self)).bind ?_
    intro log s1 ⟨hlog, hs1⟩
    obtain ⟨t1, k⟩ := s1
    obtain rfl : t1 = t := hs1
    refine (ih fun m hm => hplain m (List.mem_cons_of_mem _ hm)).bind ?_
    intro more s2 ⟨hmore, hs2⟩
    refine Prog.ends_pure ⟨?_, hs2⟩
    rw [hlog, hmore]
    rfl

theorem listDeliveries_agrees (h : Represents t s) (hpages : t.size < pages) (hsmall : Small s)
    (q : DeliveryQuery) : Agrees answers pages t s n (.listDeliveries q) := by
  refine agrees_of_read h rfl ?_
  refine (h.holds.query_ends (tenantPk q.tenant) (messageSk "") hpages n).bind ?_
  intro items s1 ⟨hitems, hs1⟩
  obtain ⟨t1, k⟩ := s1
  obtain rfl : t1 = t := hs1
  have hperm : (items.map Row.attrs).Perm
      ((s.tenants q.tenant).messages.values.map .message) := by
    rw [hitems]
    exact h.holds.select_entries (f := RowId.message) (fun _ => trivial)
      (fun _ _ hid => RowId.message.inj hid) (fun r _ => messageSk_prefix_iff) (fun _ => rfl)
  obtain ⟨all, hstrip, hall⟩ := strip_of_perm Attrs.message? (fun _ => rfl) hperm
  rw [hstrip]
  show Prog.Ends _ (attachAttempts pages q.tenant (q.newest Message.createdAt
    (all.filter fun m => q.ofEndpoint m && q.passes m))) _ _
  refine (attachAttempts_ends h hpages hsmall q.tenant ?_).mono ?_
  · intro m hm
    have hmem : m ∈ all := by
      have hsorted := List.mem_of_mem_take hm
      rw [List.mem_insertionSort] at hsorted
      exact List.mem_of_mem_filter hsorted
    obtain ⟨p, hp, rfl⟩ := List.mem_map.mp (hall.subset hmem)
    obtain ⟨hkey, hplain⟩ := h.kept.messages q.tenant p hp
    rw [hkey]
    exact hplain
  · intro out s' ⟨hout, hs'⟩
    refine ⟨?_, hs'⟩
    rw [hout]
    exact s.sameAnswer_newest q (hall.filter _)

theorem listDlq_agrees (h : Represents t s) (hpages : t.size < pages) (hsmall : Small s)
    (tenant : String) (endpointId : Option String) :
    Agrees answers pages t s n (.listDlq tenant endpointId) := by
  refine agrees_of_read h rfl ?_
  refine (h.holds.query_ends (tenantPk tenant) "DLQ#" hpages n).bind ?_
  intro items s' ⟨hitems, hs'⟩
  have hattrs : items.map Row.attrs = (s.tenants tenant).dlq.map .dead := by
    rw [hitems]
    refine h.holds.select_numbered (f := RowId.dead) (fun _ => trivial)
      (fun r _ => dlqSk_prefix_iff) (fun _ => rfl) ?_
    intro i j hij hj
    exact dlqSk_lt hij (hj.trans_lt (hsmall tenant).1)
  have hstrip : stripAll Attrs.dead? items = pure (s.tenants tenant).dlq := by
    refine stripAll_eq ?_
    rw [show (fun row : Row => Attrs.dead? row.attrs) = Attrs.dead? ∘ Row.attrs from rfl,
      ← List.map_map, hattrs, List.map_map]
    rfl
  rw [hstrip]
  cases endpointId with
  | none => exact Prog.ends_pure ⟨rfl, hs'⟩
  | some id => exact Prog.ends_pure ⟨rfl, hs'⟩

/-! ## Every call -/

theorem perform_agrees (hlag : ∀ n, (answers n).lag = 0) (h : Represents t s)
    (hpages : t.size < pages) (hsmall : Small s) (hop : PlainIds op) :
    Agrees answers pages t s n op := by
  cases op with
  | recordEvent t eventId idemKey => exact recordEvent_agrees hlag h t eventId idemKey
  | finalizeEvent t idemKey eventId k => exact finalizeEvent_agrees h t idemKey eventId k
  | createEndpoint e endpointId secret now => exact createEndpoint_agrees h e endpointId secret now
  | getEndpoint t id => exact getEndpoint_agrees hlag h t id
  | listEndpoints t => exact listEndpoints_agrees h hpages t
  | matchEndpoints t type => exact matchEndpoints_agrees h hpages t type
  | updateEndpoint t id patch => exact updateEndpoint_agrees hlag h t id patch
  | rotateSecret t id secret => exact rotateSecret_agrees hlag h t id secret
  | deleteEndpoint t id => exact deleteEndpoint_agrees h t id
  | putMessage m => exact putMessage_agrees h m hop
  | getMessage t id => exact getMessage_agrees hlag h t id
  | appendAttempt a => exact appendAttempt_agrees h a hop
  | listDeliveries q => exact listDeliveries_agrees h hpages hsmall q
  | getCircuit t id => exact getCircuit_agrees hlag h t id
  | putCircuit t id rec => exact putCircuit_agrees h t id rec
  | getRateBucket t id => exact getRateBucket_agrees hlag h t id
  | putRateBucket t id bucket => exact putRateBucket_agrees h t id bucket
  | addToDlq m reason => exact addToDlq_agrees h m reason
  | listDlq t endpointId => exact listDlq_agrees h hpages hsmall t endpointId

end Agree

theorem represents_begin : Represents Twin.begin.table Twin.begin.memory where
  holds := by
    have hnone : contents .empty = fun _ _ => none := by
      funext tenant r
      cases r with
      | attempt id seq => cases seq <;> rfl
      | dead seq => cases seq <;> rfl
      | _ => rfl
    show Holds .empty (contents .empty)
    rw [hnone]
    exact holds_empty
  kept := by
    refine ⟨?_, ?_⟩
    · intro tenant id e hget
      cases hget
    · intro tenant p hp
      cases hp

/-- From stores that agree, with pages enough for what is stored and still to come. -/
theorem same_from {answers : Nat → TableAnswer} (hlag : ∀ n, (answers n).lag = 0) {pages : Nat}
    {w : Twin} (h : Represents w.table w.memory) {calls : List StoreOp}
    (hpages : w.table.size + 2 * calls.length < pages)
    (hcalls : Along (Twin.step answers pages) (fun w op => PlainIds op ∧ Small w.memory) w calls) :
    Along (Twin.step answers pages) (fun w op => SameReply (SameAnswer w.memory op)
      (w.memory.perform op).1 (w.reply answers pages op).1) w calls := by
  induction calls generalizing w with
  | nil => trivial
  | cons op calls ih =>
    obtain ⟨⟨hop, hsmall⟩, hrest⟩ := hcalls
    rw [List.length_cons] at hpages
    have hagrees : Agrees answers pages w.table w.memory w.sent op :=
      perform_agrees hlag h (by omega) hsmall hop
    refine ⟨hagrees.same, ih hagrees.represents ?_ hrest⟩
    have hsize : (w.step answers pages op).table.size ≤ w.table.size + 2 := hagrees.size
    omega

/-- **The two stores answer every sequence of calls alike**, whatever pages the queries come
in. -/
theorem dynamo_answers_as_memory (answers : Nat → TableAnswer) (hlag : ∀ n, (answers n).lag = 0)
    (calls : List StoreOp) (pages : Nat) (hpages : 2 * calls.length < pages)
    (hcalls : Along (Twin.step answers pages) (fun w op => PlainIds op ∧ Small w.memory)
      Twin.begin calls) :
    KeysApart ∧ Along (Twin.step answers pages) (fun w op => SameReply (SameAnswer w.memory op)
      (w.memory.perform op).1 (w.reply answers pages op).1) Twin.begin calls := by
  refine ⟨?_, ?_⟩
  · exact {
      rows := fun hr hr' hkey => (key_eq_iff hr hr').mp hkey
      endpoints := fun _ => endpointSk_prefix_iff
      messages := fun _ => messageSk_prefix_iff
      attempts := fun _ _ hr hid => attemptSkPrefix_prefix_iff hid hr
      dead := fun _ => dlqSk_prefix_iff }
  · refine same_from hlag represents_begin ?_ hcalls
    show 0 + 2 * calls.length < pages
    omega

/-! ## A limit that cuts through a tie -/

/-- Answers compared with no regard to the order of endpoints and of deliveries created at
one time. -/
def SameButForTies : (op : StoreOp) → StoreRes op → StoreRes op → Prop
  | .listEndpoints _, a, b => a.Perm b
  | .matchEndpoints .., a, b => a.Perm b
  | .listDeliveries _, a, b => a.Perm b ∧
      a.map (fun row => row.1.createdAt) = b.map fun row => row.1.createdAt
  | _, a, b => a = b

def tied (messageId : String) : Message where
  messageId := messageId
  tenant := "acme"
  endpointId := "ep_1"
  eventId := "evt_1"
  eventType := "order.created"
  payload := "1"
  attemptNo := 0
  status := .pending
  nextAttemptAt := none
  createdAt := 0

def newestOne : DeliveryQuery where
  tenant := "acme"
  endpointId := none
  eventType := none
  status := none
  before := none
  after := none
  limit := some 1

/-- Two messages of one time, and the newest of them asked for. -/
def tieCalls : List StoreOp :=
  [.putMessage (tied "msg_b"), .putMessage (tied "msg_a"), .listDeliveries newestOne]

/-- One item a page. -/
def onePerPage (_ : Nat) : TableAnswer where
  lag := 0
  size := 0
  more := false

/-- The in-memory store answers with the message stored first, the table with the one that
sorts first. -/
theorem tie_cut_differently :
    ¬ Along (Twin.step onePerPage 10) (fun w op => SameReply (SameButForTies op)
      (w.memory.perform op).1 (w.reply onePerPage 10 op).1) Twin.begin tieCalls := by
  intro h
  have hlist := h.2.2.1
  have hmemory : ((((Twin.begin.step onePerPage 10 (.putMessage (tied "msg_b"))).step onePerPage 10
      (.putMessage (tied "msg_a"))).memory.perform (.listDeliveries newestOne)).1).toOption =
        some [(tied "msg_b", [])] := by decide +kernel
  have htable : ((((Twin.begin.step onePerPage 10 (.putMessage (tied "msg_b"))).step onePerPage 10
      (.putMessage (tied "msg_a"))).reply onePerPage 10 (.listDeliveries newestOne)).1).toOption =
        some [(tied "msg_a", [])] := by decide +kernel
  revert hlist
  cases hm : (((Twin.begin.step onePerPage 10 (.putMessage (tied "msg_b"))).step onePerPage 10
      (.putMessage (tied "msg_a"))).memory.perform (.listDeliveries newestOne)).1 with
  | error e =>
    rw [hm] at hmemory
    cases hmemory
  | ok a =>
    cases ht : (((Twin.begin.step onePerPage 10 (.putMessage (tied "msg_b"))).step onePerPage 10
        (.putMessage (tied "msg_a"))).reply onePerPage 10 (.listDeliveries newestOne)).1 with
    | error e =>
      rw [ht] at htable
      cases htable
    | ok b =>
      rw [hm] at hmemory
      rw [ht] at htable
      obtain rfl : a = [(tied "msg_b", [])] := Option.some.inj hmemory
      obtain rfl : b = [(tied "msg_a", [])] := Option.some.inj htable
      intro hsame
      have heq := List.singleton_perm_singleton.mp hsame.1
      exact absurd heq (by decide +kernel)

theorem Small.putMessage {s : MemoryStateStore} (h : Small s) (m : Message) :
    Small (s.putMessage m) := by
  intro tenant
  unfold MemoryStateStore.attemptsOf MemoryStateStore.putMessage
  by_cases heq : tenant = m.tenant
  · subst heq
    rw [MemoryStateStore.modify_self]
    exact h m.tenant
  · rw [MemoryStateStore.modify_other s heq]
    exact h tenant

/-- Both answers are choices of the newest, though not the same one. -/
theorem tie_answered_alike :
    KeysApart ∧ Along (Twin.step onePerPage 10) (fun w op => SameReply (SameAnswer w.memory op)
      (w.memory.perform op).1 (w.reply onePerPage 10 op).1) Twin.begin tieCalls := by
  refine dynamo_answers_as_memory onePerPage (fun _ => rfl) tieCalls 10 (by decide) ?_
  have hsmall : Small .empty := by
    intro tenant
    show 0 < 10 ^ 16 ∧ ∀ _, 0 < 10 ^ 10
    exact ⟨by decide, fun _ => by decide⟩
  have hids : ∀ id ∈ ["msg_a", "msg_b"], (tied id).messageId.toList.all isIdChar = true := by
    decide +kernel
  have hfirst : Small (Twin.begin.step onePerPage 10 (.putMessage (tied "msg_b"))).memory :=
    hsmall.putMessage _
  exact ⟨⟨hids "msg_b" (by simp), hsmall⟩, ⟨hids "msg_a" (by simp), hfirst⟩,
    ⟨trivial, hfirst.putMessage (tied "msg_a")⟩, trivial⟩

end Anyhook.Aws.Store
