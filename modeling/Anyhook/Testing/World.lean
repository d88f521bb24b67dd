import Anyhook.Core.Engine
import Anyhook.Testing.MemoryState

/-! The in-memory runtime of packages/testing: the store, the FIFO transport, the
scheduler's pending list and the log of delivery POSTs. `exec` says what one port
operation answers and changes. What the store cannot know (clock, random draw, URL
verdict, HTTP result) comes from an `Answer` of the environment; a `Fault` makes
the operation throw, before or after it took effect. -/
namespace Anyhook.Testing
open Anyhook.Core Anyhook.Lib.Program Anyhook.Lib.OrderedMap

structure Answer where
  now : Time
  draw : ℚ
  verdict : Verdict
  http : HttpResult

inductive Fault where
  | none | before | after
  deriving DecidableEq, Repr

/-- One delivery POST, with the message whose handler made it. -/
structure Post where
  message : Option Message
  url : String
  body : String
  headers : List (String × String)
  timeoutMs : Time
  result : HttpResult
  deriving DecidableEq, Repr

structure World where
  store : MemoryStateStore
  queue : List Message
  pending : List (Time × Message)
  posts : List Post

def World.empty : World where
  store := .empty
  queue := []
  pending := []
  posts := []

/-- The effect and answer of one port operation made for `self`. -/
def exec (self : Option Message) (a : Answer) : (op : Op) → World → Res op × World
  | .recordEvent t eventId idemKey, w =>
    ((w.store.recordEvent t eventId idemKey).1,
      { w with store := (w.store.recordEvent t eventId idemKey).2 })
  | .finalizeEvent t idemKey eventId n, w =>
    ((), { w with store := w.store.finalizeEvent t idemKey eventId n })
  | .getEndpoint t id, w => (w.store.getEndpoint t id, w)
  | .matchEndpoints t ty, w => (w.store.matchEndpoints t ty, w)
  | .putMessage m, w => ((), { w with store := w.store.putMessage m })
  | .appendAttempt at', w => ((), { w with store := w.store.appendAttempt at' })
  | .getCircuit t id, w => (w.store.getCircuit t id, w)
  | .putCircuit t id rec, w => ((), { w with store := w.store.putCircuit t id rec })
  | .getRateBucket t id, w => (w.store.getRateBucket t id, w)
  | .putRateBucket t id b, w => ((), { w with store := w.store.putRateBucket t id b })
  | .addToDlq m reason, w => ((), { w with store := w.store.addToDlq m reason })
  | .transportSend m, w => ((), { w with queue := w.queue ++ [m] })
  | .scheduleRetry m atMs, w => ((), { w with pending := w.pending ++ [(atMs, m)] })
  | .recordAttempt _, w => ((), w)
  | .check _, w => (a.verdict, w)
  | .post url body headers timeoutMs, w =>
    (a.http, { w with posts := w.posts ++ [{
      message := self, url := url, body := body, headers := headers, timeoutMs := timeoutMs
      result := a.http }] })
  | .now, w => (a.now, w)
  | .next, w => (a.draw, w)

/-! ## What one operation changes -/

/-- The tenant whose data an operation may change. -/
def writesTo : Op → Option String
  | .recordEvent t _ _ | .finalizeEvent t _ _ _ | .putCircuit t _ _ | .putRateBucket t _ _ => some t
  | .putMessage m | .addToDlq m _ => some m.tenant
  | .appendAttempt a => some a.tenant
  | _ => none

/-- What an operation does to the data of its tenant. -/
def effect : Op → TenantData → TenantData
  | .recordEvent _ eventId idemKey, d => match d.events.get idemKey with
    | some _ => d
    | none => { d with events := d.events.set idemKey { eventId := eventId, messageCount := 0 } }
  | .finalizeEvent _ idemKey eventId n, d =>
    { d with events := d.events.set idemKey { eventId := eventId, messageCount := n } }
  | .putMessage m, d => { d with messages := d.messages.set m.messageId m }
  | .appendAttempt a, d =>
    { d with attempts := d.attempts.set a.messageId ((d.attempts.get a.messageId).getD [] ++ [a]) }
  | .putCircuit _ id rec, d => { d with circuits := d.circuits.set id rec }
  | .putRateBucket _ id b, d => { d with rateBuckets := d.rateBuckets.set id b }
  | .addToDlq m reason, d => { d with dlq := d.dlq ++ [{ message := m, reason := reason }] }
  | _, d => d

theorem modify_tenants (s : MemoryStateStore) (t u : String) (f : TenantData → TenantData) :
    (s.modify t f).tenants u = if some t = some u then f (s.tenants u) else s.tenants u := by
  by_cases h : u = t
  · subst h; simp
  · rw [MemoryStateStore.modify_other s h, if_neg (by simpa using Ne.symm h)]

/-- An operation changes its own tenant by its effect, and no other tenant. -/
theorem exec_tenants (self : Option Message) (a : Answer) (op : Op) (w : World) (u : String) :
    (exec self a op w).2.store.tenants u =
      if writesTo op = some u then effect op (w.store.tenants u) else w.store.tenants u := by
  cases op with
  | recordEvent t ev key =>
    dsimp only [exec, MemoryStateStore.recordEvent, writesTo, effect]
    cases hg : (w.store.tenants t).events.get key with
    | some x =>
      by_cases hu : t = u
      · subst hu; simp [hg]
      · simp [hu]
    | none =>
      dsimp only
      rw [modify_tenants]
      by_cases hu : t = u
      · subst hu; simp [hg]
      · simp [hu]
  | finalizeEvent | putMessage | appendAttempt | putCircuit | putRateBucket | addToDlq =>
    simp only [exec, MemoryStateStore.finalizeEvent, MemoryStateStore.putMessage,
      MemoryStateStore.appendAttempt, MemoryStateStore.putCircuit, MemoryStateStore.putRateBucket,
      MemoryStateStore.addToDlq, modify_tenants]
    rfl
  | _ => rfl

section Parts
variable (self : Option Message) (a : Answer) (op : Op) (w : World) (t : String)

theorem exec_messages : ((exec self a op w).2.store.tenants t).messages = match op with
    | .putMessage m => if m.tenant = t then (w.store.tenants t).messages.set m.messageId m
      else (w.store.tenants t).messages
    | _ => (w.store.tenants t).messages := by
  rw [exec_tenants]
  cases op with
  | putMessage m => by_cases h : m.tenant = t <;> simp [writesTo, effect, h]
  | recordEvent => dsimp only [effect]; split <;> (try split) <;> rfl
  | _ => dsimp only [effect]; split <;> rfl

theorem exec_dlq : ((exec self a op w).2.store.tenants t).dlq = match op with
    | .addToDlq m r =>
      if m.tenant = t then (w.store.tenants t).dlq ++ [{ message := m, reason := r }]
      else (w.store.tenants t).dlq
    | _ => (w.store.tenants t).dlq := by
  rw [exec_tenants]
  cases op with
  | addToDlq m r => by_cases h : m.tenant = t <;> simp [writesTo, effect, h]
  | recordEvent => dsimp only [effect]; split <;> (try split) <;> rfl
  | _ => dsimp only [effect]; split <;> rfl

theorem exec_getRateBucket (e : String) :
    (exec self a op w).2.store.getRateBucket t e = match op with
      | .putRateBucket t' e' b => if (t', e') = (t, e) then some b else w.store.getRateBucket t e
      | _ => w.store.getRateBucket t e := by
  unfold MemoryStateStore.getRateBucket
  rw [exec_tenants]
  cases op with
  | putRateBucket t' e' b =>
    by_cases ht : t' = t
    · by_cases he : e' = e
      · simp [writesTo, effect, ht, he]
      · simp [writesTo, effect, ht, he, OMap.get_set_of_ne _ he]
    · simp [writesTo, ht]
  | recordEvent => dsimp only [effect]; split <;> (try split) <;> rfl
  | _ => dsimp only [effect]; split <;> rfl

theorem exec_events : ((exec self a op w).2.store.tenants t).events = match op with
    | .recordEvent t' eventId idemKey =>
      if t' = t ∧ (w.store.tenants t).events.get idemKey = none then
        (w.store.tenants t).events.set idemKey { eventId := eventId, messageCount := 0 }
      else (w.store.tenants t).events
    | .finalizeEvent t' idemKey eventId n =>
      if t' = t then
        (w.store.tenants t).events.set idemKey { eventId := eventId, messageCount := n }
      else (w.store.tenants t).events
    | _ => (w.store.tenants t).events := by
  rw [exec_tenants]
  cases op with
  | recordEvent t' ev key =>
    by_cases h : t' = t
    · cases hg : (w.store.tenants t).events.get key <;> simp [writesTo, effect, h, hg]
    · simp [writesTo, h]
  | finalizeEvent t' key ev n => by_cases h : t' = t <;> simp [writesTo, effect, h]
  | _ => dsimp only [effect]; split <;> rfl

/-- No port of the engine changes an endpoint. -/
theorem exec_endpoints :
    ((exec self a op w).2.store.tenants t).endpoints = (w.store.tenants t).endpoints := by
  rw [exec_tenants]
  cases op with
  | recordEvent => dsimp only [effect]; split <;> (try split) <;> rfl
  | _ => dsimp only [effect]; split <;> rfl

theorem exec_getEndpoint (e : String) :
    (exec self a op w).2.store.getEndpoint t e = w.store.getEndpoint t e := by
  unfold MemoryStateStore.getEndpoint
  rw [exec_endpoints]

theorem exec_queue : (exec self a op w).2.queue = match op with
    | .transportSend m => w.queue ++ [m]
    | _ => w.queue := by
  cases op <;> rfl

theorem exec_pending : (exec self a op w).2.pending = match op with
    | .scheduleRetry m atMs => w.pending ++ [(atMs, m)]
    | _ => w.pending := by
  cases op <;> rfl

theorem exec_posts : (exec self a op w).2.posts = match op with
    | .post url body headers timeoutMs => w.posts ++ [{
        message := self, url := url, body := body, headers := headers, timeoutMs := timeoutMs
        result := a.http }]
    | _ => w.posts := by
  cases op <;> rfl

end Parts

/-- The same with a port that may throw. -/
def execFault (self : Option Message) (a : Answer) (f : Fault) (op : Op) (w : World) :
    Except String (Res op) × World :=
  match f with
  | .none => (.ok (exec self a op w).1, (exec self a op w).2)
  | .before => (.error "port failure", w)
  | .after => (.error "port failure", (exec self a op w).2)

/-- What the environment decides about one port call. -/
abbrev Input := Answer × Fault

/-- One program alone, its `n`-th port call decided by `inputs n`. -/
def execSeq (self : Option Message) (inputs : Nat → Input) (op : Op) (s : World × Nat) :
    Except String (Res op) × (World × Nat) :=
  ((execFault self (inputs s.2).1 (inputs s.2).2 op s.1).1,
    ((execFault self (inputs s.2).1 (inputs s.2).2 op s.1).2, s.2 + 1))

/-- The end of a call of an engine program, and the world it leaves. -/
def runSeq {α : Type} (self : Option Message) (inputs : Nat → Input) (p : Eng α) (w : World) :
    Except String α × World :=
  let out := p.run (execSeq self inputs) (w, 0)
  (out.1, out.2.1)

/-- Inputs under which no port fails. -/
def unfailing (answers : Nat → Answer) (n : Nat) : Input := (answers n, .none)

/-- MemoryScheduler.advance: hand every due message to the transport. -/
def World.advance (w : World) (now : Time) : World :=
  { w with
    queue := w.queue ++ (w.pending.filter fun p => p.1 ≤ now).map Prod.snd
    pending := w.pending.filter fun p => now < p.1 }

/-! ## What happens besides the engine's calls -/

inductive Change where
  | createEndpoint (e : MemoryStateStore.CreateInput) (endpointId secret : String) (now : Time)
  | updateEndpoint (tenant endpointId : String) (patch : MemoryStateStore.EndpointPatch)
  | rotateSecret (tenant endpointId secret : String)
  | deleteEndpoint (tenant endpointId : String)
  | advance (now : Time)
  | dequeue

def Change.apply (w : World) : Change → World
  | .createEndpoint e endpointId secret now =>
    { w with store := w.store.createEndpoint e endpointId secret now }
  | .updateEndpoint t id patch => { w with store := (w.store.updateEndpoint t id patch).2 }
  | .rotateSecret t id secret => { w with store := (w.store.rotateSecret t id secret).2 }
  | .deleteEndpoint t id => { w with store := w.store.deleteEndpoint t id }
  | .advance now => w.advance now
  | .dequeue => { w with queue := w.queue.tail }

/-- Of a tenant's data, a change touches the endpoints alone. -/
theorem Change.apply_tenants (w : World) (change : Change) (t : String) :
    ∃ endpoints, (change.apply w).store.tenants t =
      { w.store.tenants t with endpoints := endpoints } := by
  have hmodify : ∀ u (f : TenantData → TenantData),
      (∀ d, ∃ endpoints, f d = { d with endpoints := endpoints }) →
      ∃ endpoints, (w.store.modify u f).tenants t =
        { w.store.tenants t with endpoints := endpoints } := by
    intro u f hf
    rw [modify_tenants]
    split
    · exact hf _
    · exact ⟨_, rfl⟩
  cases change with
  | createEndpoint e endpointId secret now => exact hmodify _ _ fun d => ⟨_, rfl⟩
  | updateEndpoint u id patch =>
    simp only [Change.apply, MemoryStateStore.updateEndpoint]
    split
    · exact ⟨_, rfl⟩
    · exact hmodify _ _ fun d => ⟨_, rfl⟩
  | rotateSecret u id secret =>
    simp only [Change.apply, MemoryStateStore.rotateSecret]
    split
    · exact ⟨_, rfl⟩
    · exact hmodify _ _ fun d => ⟨_, rfl⟩
  | deleteEndpoint u id => exact hmodify _ _ fun d => ⟨_, rfl⟩
  | advance now => exact ⟨_, rfl⟩
  | dequeue => exact ⟨_, rfl⟩

def World.changed (w : World) (changes : List Change) : World := changes.foldl Change.apply w

theorem World.changed_tenants (w : World) (changes : List Change) (t : String) :
    ∃ endpoints, (w.changed changes).store.tenants t =
      { w.store.tenants t with endpoints := endpoints } := by
  unfold World.changed
  induction changes generalizing w with
  | nil => exact ⟨_, rfl⟩
  | cons change changes ih =>
    obtain ⟨endpoints, h⟩ := ih (change.apply w)
    obtain ⟨endpoints', h'⟩ := change.apply_tenants w t
    exact ⟨endpoints, by rw [List.foldl_cons, h, h']⟩

end Anyhook.Testing
