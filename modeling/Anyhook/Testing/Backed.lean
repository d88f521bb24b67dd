import Anyhook.Lib.Until
import Anyhook.Testing.StateStore
import Anyhook.Testing.World
import Mathlib.Data.String.Basic

/-! The runtime over another StateStore. A port call on the store is one call of the store's
own code; transport, scheduler and receiver are as in `World`. `Serves` is the contract under
which the engine cannot tell such a store from the in-memory one: as long as the in-memory
store is fit, the two answer each call of the engine alike. -/
namespace Anyhook.Testing
open Anyhook.Core Anyhook.Lib.Program Anyhook.Lib.OrderedMap

/-- How a store answers a method call. -/
abbrev Backing (σ : Type) := (op : StoreOp) → σ → Except String (StoreRes op) × σ

structure Backed (σ : Type) where
  store : σ
  queue : List Message
  pending : List (Time × Message)
  posts : List Post

namespace Backed
variable {σ : Type} (call : Backing σ)

/-- One call of the store. -/
def ask (b : Backed σ) (op : StoreOp) : Except String (StoreRes op) × Backed σ :=
  ((call op b.store).1, { b with store := (call op b.store).2 })

/-- The effect and answer of one port operation made for `self`. -/
def exec (self : Option Message) (a : Answer) :
    (op : Op) → Backed σ → Except String (Res op) × Backed σ
  | .recordEvent t eventId idemKey, b => b.ask call (.recordEvent t eventId idemKey)
  | .finalizeEvent t idemKey eventId n, b => b.ask call (.finalizeEvent t idemKey eventId n)
  | .getEndpoint t id, b => b.ask call (.getEndpoint t id)
  | .matchEndpoints t ty, b => b.ask call (.matchEndpoints t ty)
  | .putMessage m, b => b.ask call (.putMessage m)
  | .appendAttempt at', b => b.ask call (.appendAttempt at')
  | .getCircuit t id, b => b.ask call (.getCircuit t id)
  | .putCircuit t id rec, b => b.ask call (.putCircuit t id rec)
  | .getRateBucket t id, b => b.ask call (.getRateBucket t id)
  | .putRateBucket t id bucket, b => b.ask call (.putRateBucket t id bucket)
  | .addToDlq m reason, b => b.ask call (.addToDlq m reason)
  | .transportSend m, b => (.ok (), { b with queue := b.queue ++ [m] })
  | .scheduleRetry m atMs, b => (.ok (), { b with pending := b.pending ++ [(atMs, m)] })
  | .recordAttempt _, b => (.ok (), b)
  | .check _, b => (.ok a.verdict, b)
  | .post url body headers timeoutMs, b =>
    (.ok a.http, { b with posts := b.posts ++ [{
      message := self, url := url, body := body, headers := headers, timeoutMs := timeoutMs
      result := a.http }] })
  | .now, b => (.ok a.now, b)
  | .next, b => (.ok a.draw, b)

/-- One program alone, its `n`-th port call answered by `answers n`. -/
def execSeq (self : Option Message) (answers : Nat → Answer) (op : Op) (s : Backed σ × Nat) :
    Except String (Res op) × (Backed σ × Nat) :=
  ((s.1.exec call self (answers s.2) op).1, ((s.1.exec call self (answers s.2) op).2, s.2 + 1))

/-- The end of a call of an engine program, and what it leaves. -/
def runSeq {α : Type} (self : Option Message) (answers : Nat → Answer) (p : Eng α)
    (b : Backed σ) : Except String α × Backed σ :=
  let out := p.run (execSeq call self answers) (b, 0)
  (out.1, out.2.1)

def advance (b : Backed σ) (now : Time) : Backed σ :=
  { b with
    queue := b.queue ++ (b.pending.filter fun p => p.1 ≤ now).map Prod.snd
    pending := b.pending.filter fun p => now < p.1 }

end Backed

/-! ## The order of endpoints -/

namespace MemoryStateStore

/-- Endpoints in the order of their ids, as a store that lists its rows by key has them. -/
def Arranged (s : MemoryStateStore) : Prop :=
  ∀ t, (s.tenants t).endpoints.entries.Pairwise fun p q => p.1 < q.1

def arranged (s : MemoryStateStore) : MemoryStateStore :=
  ⟨fun t => { s.tenants t with endpoints := (s.tenants t).endpoints.sorted }⟩

theorem arranged_arranged (s : MemoryStateStore) : s.arranged.Arranged :=
  fun t => (s.tenants t).endpoints.sorted_pairwise

/-! ### Attempt logs and dead letters -/

/-- Calls that log an attempt or a dead letter. -/
def Logs : StoreOp → Prop
  | .appendAttempt _ | .addToDlq .. => True
  | _ => False

structure SameBooks (s s' : MemoryStateStore) : Prop where
  dlq : ∀ t, (s'.tenants t).dlq = (s.tenants t).dlq
  attempts : ∀ t id, s'.attemptsOf t id = s.attemptsOf t id

theorem SameBooks.refl (s : MemoryStateStore) : SameBooks s s := ⟨fun _ => rfl, fun _ _ => rfl⟩

theorem sameBooks_modify (s : MemoryStateStore) (t : String) {f : TenantData → TenantData}
    (hdlq : (f (s.tenants t)).dlq = (s.tenants t).dlq)
    (hattempts : (f (s.tenants t)).attempts = (s.tenants t).attempts) :
    SameBooks s (s.modify t f) where
  dlq := by
    intro u
    by_cases hu : u = t
    · subst hu
      rw [modify_self, hdlq]
    · rw [modify_other s hu]
  attempts := by
    intro u id
    unfold attemptsOf
    by_cases hu : u = t
    · subst hu
      rw [modify_self, hattempts]
    · rw [modify_other s hu]

theorem perform_sameBooks (s : MemoryStateStore) {op : StoreOp} (h : ¬ Logs op) :
    SameBooks s (s.perform op).2 := by
  cases op with
  | recordEvent t eventId idemKey =>
    show SameBooks s (s.recordEvent t eventId idemKey).2
    unfold recordEvent
    split
    · exact .refl s
    · dsimp only
      exact s.sameBooks_modify t rfl rfl
  | updateEndpoint t id patch =>
    show SameBooks s (s.updateEndpoint t id patch).2
    unfold updateEndpoint
    split
    · exact .refl s
    · dsimp only
      exact s.sameBooks_modify t rfl rfl
  | rotateSecret t id secret =>
    show SameBooks s (s.rotateSecret t id secret).2
    unfold rotateSecret
    split
    · exact .refl s
    · dsimp only
      exact s.sameBooks_modify t rfl rfl
  | appendAttempt a => exact absurd trivial h
  | addToDlq m reason => exact absurd trivial h
  | finalizeEvent t idemKey eventId n =>
    exact (s.sameBooks_modify t rfl rfl : SameBooks s (s.finalizeEvent t idemKey eventId n))
  | createEndpoint e id secret now =>
    exact (s.sameBooks_modify e.tenant rfl rfl : SameBooks s (s.createEndpoint e id secret now))
  | deleteEndpoint t id =>
    exact (s.sameBooks_modify t rfl rfl : SameBooks s (s.deleteEndpoint t id))
  | putMessage m =>
    exact (s.sameBooks_modify m.tenant rfl rfl : SameBooks s (s.putMessage m))
  | putCircuit t id rec =>
    exact (s.sameBooks_modify t rfl rfl : SameBooks s (s.putCircuit t id rec))
  | putRateBucket t id bucket =>
    exact (s.sameBooks_modify t rfl rfl : SameBooks s (s.putRateBucket t id bucket))
  | _ => exact .refl s

/-- Attempt logs and dead letters as they were, and perhaps more. -/
structure Extends (s s' : MemoryStateStore) : Prop where
  dlq : ∀ t, (s.tenants t).dlq <+: (s'.tenants t).dlq
  attempts : ∀ t id, s.attemptsOf t id <+: s'.attemptsOf t id

theorem SameBooks.extends {s s' : MemoryStateStore} (h : SameBooks s s') : Extends s s' where
  dlq t := h.dlq t ▸ List.prefix_rfl
  attempts t id := h.attempts t id ▸ List.prefix_rfl

theorem extends_modify (s : MemoryStateStore) (t : String) {f : TenantData → TenantData}
    (hdlq : (s.tenants t).dlq <+: (f (s.tenants t)).dlq)
    (hattempts : ∀ id, ((s.tenants t).attempts.get id).getD [] <+:
      ((f (s.tenants t)).attempts.get id).getD []) : s.Extends (s.modify t f) where
  dlq := by
    intro u
    by_cases hu : u = t
    · subst hu
      rw [modify_self]
      exact hdlq
    · exact (modify_other s hu f).symm ▸ List.prefix_rfl
  attempts := by
    intro u id
    by_cases hu : u = t
    · subst hu
      unfold attemptsOf
      rw [modify_self]
      exact hattempts id
    · unfold attemptsOf
      exact (modify_other s hu f).symm ▸ List.prefix_rfl

theorem perform_extends (s : MemoryStateStore) (op : StoreOp) : s.Extends (s.perform op).2 := by
  by_cases hlogs : Logs op
  · cases op with
    | appendAttempt a =>
      show s.Extends (s.appendAttempt a)
      refine s.extends_modify a.tenant List.prefix_rfl ?_
      intro id
      dsimp only
      by_cases hid : a.messageId = id
      · subst hid
        rw [OMap.get_set_self]
        exact List.prefix_append _ _
      · exact (OMap.get_set_of_ne _ hid _).symm ▸ List.prefix_rfl
    | addToDlq m reason =>
      exact (s.extends_modify m.tenant (List.prefix_append _ _) (fun _ => List.prefix_rfl) :
        s.Extends (s.addToDlq m reason))
    | _ => exact absurd hlogs id
  · exact (s.perform_sameBooks hlogs).extends

end MemoryStateStore

/-! ## Stores that serve the engine -/

/-- Answers that are the same in every detail. -/
theorem SameReply.eq {α : Type} {same : α → α → Prop} {x y : Except String α}
    (h : SameReply same x y) (heq : ∀ a b, same a b → a = b) : x = y := by
  cases x with
  | ok a =>
    cases y with
    | ok b => exact congrArg Except.ok (heq a b h)
    | error e => exact absurd h id
  | error e =>
    cases y with
    | ok b => exact absurd h id
    | error e' => exact congrArg Except.error h

/-- The calls of the engine and of an editor of endpoints. `Own` says which messages there are:
their tenant, id and endpoint. -/
def Served (Own : String → String → String → Prop) : StoreOp → Prop
  | .putMessage m => Own m.tenant m.messageId m.endpointId
  | .appendAttempt a => Own a.tenant a.messageId a.endpointId
  | .getMessage .. | .listDeliveries _ | .listDlq .. => False
  | _ => True

/-- What the in-memory store must stay for the other one to go on with it. -/
structure Serves {σ : Type} (call : Backing σ) (Rep : MemoryStateStore → σ → Prop)
    (Own : String → String → String → Prop) (Fit : MemoryStateStore → Prop) : Prop where
  answers : ∀ {s x op}, Rep s x → s.Arranged → Fit s → Served Own op →
    (call op x).1 = (s.perform op).1
  keeps : ∀ {s x op}, Rep s x → s.Arranged → Fit s → Served Own op →
    Rep (s.perform op).2 (call op x).2
  arranged : ∀ {s x}, Rep s x → Rep s.arranged x
  fit_before : ∀ {s o}, Fit (MemoryStateStore.perform s o).2 → Fit s
  fit_arranged : ∀ {s}, Fit s.arranged ↔ Fit s

/-- A store that answers the engine's calls like one that serves, serves. -/
theorem Serves.congr {σ : Type} {call call' : Backing σ} {Rep : MemoryStateStore → σ → Prop}
    {Own : String → String → String → Prop} {Fit : MemoryStateStore → Prop}
    (hs : Serves call Rep Own Fit) (h : ∀ {op}, Served Own op → ∀ x, call' op x = call op x) :
    Serves call' Rep Own Fit where
  answers hrep harranged hfit hop := by
    rw [h hop]
    exact hs.answers hrep harranged hfit hop
  keeps hrep harranged hfit hop := by
    rw [h hop]
    exact hs.keeps hrep harranged hfit hop
  arranged := hs.arranged
  fit_before := hs.fit_before
  fit_arranged := hs.fit_arranged

/-- A runtime over another store stands for one over the in-memory store. -/
structure Stands {σ : Type} (Rep : MemoryStateStore → σ → Prop)
    (Own : String → String → String → Prop) (w : World) (b : Backed σ) : Prop where
  queue : b.queue = w.queue
  pending : b.pending = w.pending
  posts : b.posts = w.posts
  store : Rep w.store b.store
  arranged : w.store.Arranged
  owned : ∀ m ∈ w.queue ++ w.pending.map Prod.snd, Own m.tenant m.messageId m.endpointId

section PortCall
variable {σ : Type} {call : Backing σ} {Rep : MemoryStateStore → σ → Prop}
  {Own : String → String → String → Prop} {Fit : MemoryStateStore → Prop} {w : World}
  {b : Backed σ} {self : Option Message} {a : Answer}

/-- The port calls a served program may make. -/
def ServedOp (Own : String → String → String → Prop) : Op → Prop
  | .putMessage m | .transportSend m | .scheduleRetry m _ => Own m.tenant m.messageId m.endpointId
  | .appendAttempt at' => Own at'.tenant at'.messageId at'.endpointId
  | _ => True

/-- What a port operation does to the store is nothing, or one call. -/
theorem exec_store (self : Option Message) (a : Answer) (w : World) (op : Op) :
    (exec self a op w).2.store = w.store ∨
      ∃ sop, (exec self a op w).2.store = (w.store.perform sop).2 := by
  cases op with
  | recordEvent t eventId idemKey => exact .inr ⟨.recordEvent t eventId idemKey, rfl⟩
  | finalizeEvent t idemKey eventId n => exact .inr ⟨.finalizeEvent t idemKey eventId n, rfl⟩
  | putMessage m => exact .inr ⟨.putMessage m, rfl⟩
  | appendAttempt at' => exact .inr ⟨.appendAttempt at', rfl⟩
  | putCircuit t id rec => exact .inr ⟨.putCircuit t id rec, rfl⟩
  | putRateBucket t id bucket => exact .inr ⟨.putRateBucket t id bucket, rfl⟩
  | addToDlq m reason => exact .inr ⟨.addToDlq m reason, rfl⟩
  | _ => exact .inl rfl

theorem Serves.fit_exec (hs : Serves call Rep Own Fit) {op : Op}
    (h : Fit (exec self a op w).2.store) : Fit w.store := by
  obtain hsame | ⟨sop, hcall⟩ := exec_store self a w op
  · rwa [hsame] at h
  · exact hs.fit_before (hcall ▸ h)

/-- Once unfit, the store stays so. -/
theorem Serves.fit_runSeq (hs : Serves call Rep Own Fit) {α : Type} {answers : Nat → Answer}
    {p : Eng α} (h : Fit (runSeq self (unfailing answers) p w).2.store) : Fit w.store := by
  by_contra hunfit
  have hstep : ∀ op s, ¬ Fit s.1.store →
      ¬ Fit (execSeq self (unfailing answers) op s).2.1.store :=
    fun op s hs' hfit => hs' (hs.fit_exec hfit)
  exact Prog.run_keeps hstep p (s := (w, 0)) hunfit h

theorem exec_arranged (h : w.store.Arranged) (self : Option Message) (a : Answer) (op : Op) :
    (exec self a op w).2.store.Arranged := by
  intro t
  rw [exec_endpoints]
  exact h t

/-- A call of the engine on the store. -/
theorem Serves.ask_alike (hs : Serves call Rep Own Fit) (h : Stands Rep Own w b)
    (hfit : Fit w.store) {o : StoreOp} (hop : Served Own o) {r : StoreRes o}
    {s' : MemoryStateStore} (hr : w.store.perform o = (.ok r, s')) (hs' : s'.Arranged) :
    ∃ b', b.ask call o = (.ok r, b') ∧ Stands Rep Own { w with store := s' } b' := by
  have hanswer := hs.answers h.store h.arranged hfit hop
  have hkeep := hs.keeps h.store h.arranged hfit hop
  rw [hr] at hanswer hkeep
  refine ⟨_, Prod.ext hanswer rfl, ?_⟩
  exact { h with store := hkeep, arranged := hs' }

/-- A port call of the engine. -/
theorem Serves.exec_alike (hs : Serves call Rep Own Fit) (h : Stands Rep Own w b)
    (hfit : Fit w.store) (self : Option Message) (a : Answer) {op : Op} (hop : ServedOp Own op) :
    ∃ b', b.exec call self a op = (.ok (exec self a op w).1, b') ∧
      Stands Rep Own (exec self a op w).2 b' := by
  have hs' := exec_arranged h.arranged self a op
  cases op with
  | recordEvent t eventId idemKey =>
    exact hs.ask_alike (o := .recordEvent t eventId idemKey) h hfit trivial rfl hs'
  | finalizeEvent t idemKey eventId n =>
    exact hs.ask_alike (o := .finalizeEvent t idemKey eventId n) h hfit trivial rfl hs'
  | getEndpoint t id => exact hs.ask_alike (o := .getEndpoint t id) h hfit trivial rfl hs'
  | matchEndpoints t ty =>
    exact hs.ask_alike (o := .matchEndpoints t ty) h hfit trivial rfl hs'
  | putMessage m => exact hs.ask_alike (o := .putMessage m) h hfit hop rfl hs'
  | appendAttempt x => exact hs.ask_alike (o := .appendAttempt x) h hfit hop rfl hs'
  | getCircuit t id => exact hs.ask_alike (o := .getCircuit t id) h hfit trivial rfl hs'
  | putCircuit t id rec =>
    exact hs.ask_alike (o := .putCircuit t id rec) h hfit trivial rfl hs'
  | getRateBucket t id => exact hs.ask_alike (o := .getRateBucket t id) h hfit trivial rfl hs'
  | putRateBucket t id bucket =>
    exact hs.ask_alike (o := .putRateBucket t id bucket) h hfit trivial rfl hs'
  | addToDlq m reason => exact hs.ask_alike (o := .addToDlq m reason) h hfit trivial rfl hs'
  | transportSend m =>
    refine ⟨_, rfl, ?_⟩
    refine { h with queue := congrArg (· ++ [m]) h.queue, owned := ?_ }
    intro x hx
    rcases List.mem_append.mp hx with hx | hx
    · rcases List.mem_append.mp hx with hx | hx
      · exact h.owned x (List.mem_append_left _ hx)
      · rw [List.mem_singleton.mp hx]
        exact hop
    · exact h.owned x (List.mem_append_right _ hx)
  | scheduleRetry m atMs =>
    refine ⟨_, rfl, ?_⟩
    refine { h with pending := congrArg (· ++ [(atMs, m)]) h.pending, owned := ?_ }
    intro x hx
    rcases List.mem_append.mp hx with hx | hx
    · exact h.owned x (List.mem_append_left _ hx)
    · have hpending : (exec self a (.scheduleRetry m atMs) w).2.pending = w.pending ++ [(atMs, m)] :=
        rfl
      rw [hpending, List.map_append] at hx
      rcases List.mem_append.mp hx with hx | hx
      · exact h.owned x (List.mem_append_right _ hx)
      · rw [List.mem_singleton.mp hx]
        exact hop
  | post url body headers timeoutMs =>
    refine ⟨_, rfl, ?_⟩
    exact { h with posts := congrArg (· ++ [_]) h.posts }
  | recordAttempt _ => exact ⟨b, rfl, h⟩
  | check _ => exact ⟨b, rfl, h⟩
  | now => exact ⟨b, rfl, h⟩
  | next => exact ⟨b, rfl, h⟩

end PortCall

end Anyhook.Testing
