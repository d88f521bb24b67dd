import Anyhook.Delivery.Books
import Anyhook.Delivery.Machine
import Anyhook.Testing.Backed

/-! Runs over another StateStore: endpoints come and go, events are sent, queued messages are
processed and the clock releases what the scheduler holds, as in `Run`. A store that serves the
engine does in every such run what the in-memory store does with the endpoints of a tenant in
the order of their ids. -/
namespace Anyhook.Delivery
open Anyhook.Core Anyhook.Testing Anyhook.Lib.Program Anyhook.Lib.OrderedMap

/-- `Run` over another store. -/
structure Deployed (σ : Type) where
  world : Backed σ
  sent : List Message

namespace Deployed
variable {σ : Type} (call : Backing σ) (lang : Lang) (en : Engine)

def start (store : σ) : Deployed σ where
  world := { store := store, queue := [], pending := [], posts := [] }
  sent := []

/-- An endpoint is edited; what the store throws is the editor's. -/
def edit (d : Deployed σ) (op : StoreOp) : Deployed σ :=
  { d with world := (d.world.ask call op).2 }

def accept (b : Backed σ) (event : SendEvent) (answers : Nat → Answer) :
    Except String Receipt × Backed σ :=
  b.runSeq call none answers (lang.send en event)

/-- The `k`-th queued message is taken off the queue and processed. -/
def process (b : Backed σ) (k : Nat) (m : Message) (answers : Nat → Answer) : Backed σ :=
  ({ b with queue := b.queue.eraseIdx k }.runSeq call (some m) answers
    (Job.process en { lang := lang, message := m })).2

def step (d : Deployed σ) : Step → Deployed σ
  | .create input id secret now => d.edit call (.createEndpoint input id secret now)
  | .update t id patch => d.edit call (.updateEndpoint t id patch)
  | .rotate t id secret => d.edit call (.rotateSecret t id secret)
  | .delete t id => d.edit call (.deleteEndpoint t id)
  | .send event answers =>
    let b := (accept call lang en d.world event answers).2
    { world := b, sent := d.sent ++ b.queue.drop d.world.queue.length }
  | .process k answers => match d.world.queue[k]? with
    | some m => { d with world := process call lang en d.world k m answers }
    | none => d
  | .advance now => { d with world := d.world.advance now }

def run (d : Deployed σ) (steps : List Step) : Deployed σ := steps.foldl (step call lang en) d

end Deployed

section Arranged
variable (lang : Lang) (en : Engine)

def Run.arranged (r : Run) : Run :=
  { r with world := { r.world with store := r.world.store.arranged } }

/-- Endpoints are put in the order of their ids after every step. -/
def Run.arrangedRun (r : Run) (steps : List Step) : Run :=
  steps.foldl (fun r e => (r.step lang en e).arranged) r

end Arranged

/-! ## One call of an engine -/

section Calls
variable {σ : Type} {call : Backing σ} {Rep : MemoryStateStore → σ → Prop}
  {Own : String → String → String → Prop} {Fit : MemoryStateStore → Prop} {w : World}
  {b : Backed σ} {lang : Lang} {en : Engine}

theorem Same.own {m x : Message} (h : Same m x) (hm : Own m.tenant m.messageId m.endpointId) :
    Own x.tenant x.messageId x.endpointId := by
  rw [h.tenant, h.messageId, h.endpointId]
  exact hm

theorem Phase.served {m : Message} {p : Phase} {op : Op} (hkeyed : p.keyed m)
    (hm : Own m.tenant m.messageId m.endpointId) (hallowed : p.allows en m op) :
    ServedOp Own op := by
  cases op with
  | putMessage x => exact (Phase.stores_same hallowed).own hm
  | appendAttempt a =>
    obtain ⟨htenant, hid, hendpoint, -⟩ := hallowed
    show Own a.tenant a.messageId a.endpointId
    rw [htenant, hid, hendpoint]
    exact hm
  | scheduleRetry x atMs =>
    obtain rfl : p = .waiting x := hallowed
    exact Same.own hkeyed hm
  | transportSend x => exact absurd hallowed id
  | _ => trivial

/-- A pass over a message. -/
theorem pass_alike (hs : Serves call Rep Own Fit) (h : Stands Rep Own w b) {m : Message}
    (hm : Own m.tenant m.messageId m.endpointId) (answers : Nat → Answer)
    (hfit : Fit (processed lang en w m answers).store) :
    Stands Rep Own (processed lang en w m answers)
      (b.runSeq call (some m) answers (Job.process en { lang := lang, message := m })).2 := by
  have halike : AlikeUntil (monitor en) (Testing.execSeq (some m) (unfailing answers))
      (Backed.execSeq call (some m) answers)
      (fun g s t => Stands Rep Own s.1 t.1 ∧ t.2 = s.2 ∧ Fit s.1.store ∧ g.1 = m ∧ g.2.keyed m)
      (fun _ s => ¬ Fit s.1.store) := by
    constructor
    · exact fun op s => ⟨_, _, rfl⟩
    · intro g op s r s' hspoilt _ hx hfit
      cases hx
      exact hspoilt (hs.fit_exec hfit)
    · intro g op s t r s' hr hallowed hx
      obtain ⟨hstands, hcount, hunspoilt, rfl, hkeyed⟩ := hr
      cases hx
      by_cases hfit' : Fit (Testing.exec (some g.1) (answers s.2) op s.1).2.store
      · obtain ⟨b', hb', hstands'⟩ := hs.exec_alike hstands hunspoilt (some g.1) (answers s.2)
          (Phase.served hkeyed hm hallowed)
        refine .inr ⟨(b', t.2 + 1), ?_, hstands', ?_, hfit', rfl, ?_⟩
        · unfold Backed.execSeq
          rw [hcount, hb']
          rfl
        · rw [hcount]
        · exact Phase.keyed_next hkeyed hallowed _
      · exact .inl hfit'
  have hobeys := process_obeys lang.dialect en m
  rw [← Job.process_eq en { lang := lang, message := m }] at hobeys
  obtain ⟨g', -, hspoilt | ⟨-, hend, -⟩⟩ := halike.run (s := (w, 0)) (t := (b, 0)) hobeys
    ⟨h, rfl, hs.fit_runSeq hfit, rfl, trivial⟩
  · exact absurd hfit hspoilt
  · exact hend

/-- What was made is still there. -/
theorem outbox_kept {g : Outbox} {op : Op} {r : Res op} {m : Message}
    (hallowed : sendMonitor.allows g op) (hm : m ∈ g.sent ++ g.hold.toList) :
    m ∈ (sendMonitor.next g op r).sent ++ (sendMonitor.next g op r).hold.toList := by
  cases op with
  | putMessage x =>
    rw [hallowed.1] at hm
    have hsent : m ∈ g.sent := by simpa using hm
    exact List.mem_append_left _ hsent
  | transportSend x =>
    have hhold : g.hold = some x := hallowed
    rw [hhold] at hm
    exact List.mem_append_left _ hm
  | _ => exact hm

/-- A call of `send`. Messages it makes are known by the ones it leaves on the queue. -/
theorem send_alike (hs : Serves call Rep Own Fit) (h : Stands Rep Own w b)
    (event : SendEvent) (answers : Nat → Answer)
    (hfit : Fit (accepted lang en w event answers).store)
    (hown : ∀ m ∈ (accepted lang en w event answers).queue.drop w.queue.length,
      Own m.tenant m.messageId m.endpointId) :
    (Deployed.accept call lang en b event answers).1 =
        (runSeq none (unfailing answers) (lang.send en event) w).1 ∧
      Stands Rep Own (accepted lang en w event answers)
        (Deployed.accept call lang en b event answers).2 := by
  have hqueue : ∀ (g : Outbox) (op : Op) (s : World × Nat), s.1.queue = w.queue ++ g.sent →
      sendMonitor.allows g op → (Testing.exec none (answers s.2) op s.1).2.queue =
        w.queue ++ (sendMonitor.next g op (Testing.exec none (answers s.2) op s.1).1).sent := by
    intro g op s hq hallowed
    rw [exec_queue]
    cases op with
    | transportSend m =>
      show s.1.queue ++ [m] = w.queue ++ (g.sent ++ [m])
      rw [hq, List.append_assoc]
    | _ => exact hq
  have halike : AlikeUntil sendMonitor (Testing.execSeq none (unfailing answers))
      (Backed.execSeq call none answers)
      (fun g s t => Stands Rep Own s.1 t.1 ∧ t.2 = s.2 ∧ Fit s.1.store ∧
        (∀ m ∈ g.sent ++ g.hold.toList, Own m.tenant m.messageId m.endpointId) ∧
        s.1.queue = w.queue ++ g.sent)
      (fun g s => (¬ Fit s.1.store ∨ ∃ m ∈ g.sent ++ g.hold.toList,
        ¬ Own m.tenant m.messageId m.endpointId) ∧ s.1.queue = w.queue ++ g.sent) := by
    constructor
    · exact fun op s => ⟨_, _, rfl⟩
    · intro g op s r s' hspoilt hallowed hx
      obtain ⟨hspoilt, hq⟩ := hspoilt
      cases hx
      refine ⟨?_, hqueue g op s hq hallowed⟩
      obtain hunfit | ⟨m, hm, hnot⟩ := hspoilt
      · exact .inl fun hfit => hunfit (hs.fit_exec hfit)
      · exact .inr ⟨m, outbox_kept hallowed hm, hnot⟩
    · intro g op s t r s' hr hallowed hx
      obtain ⟨hstands, hcount, hunspoilt, howned, hq⟩ := hr
      cases hx
      have hq' := hqueue g op s hq hallowed
      by_cases hfit' : Fit (Testing.exec none (answers s.2) op s.1).2.store
      · by_cases hall : ∀ m ∈ (sendMonitor.next g op
            (Testing.exec none (answers s.2) op s.1).1).sent ++ (sendMonitor.next g op
            (Testing.exec none (answers s.2) op s.1).1).hold.toList,
            Own m.tenant m.messageId m.endpointId
        · have hserved : ServedOp Own op := by
            cases op with
            | putMessage m =>
              exact hall m (List.mem_append_right _ (List.mem_singleton_self m))
            | transportSend m =>
              have hhold : g.hold = some m := hallowed
              refine howned m (List.mem_append_right _ ?_)
              rw [hhold]
              exact List.mem_singleton_self m
            | appendAttempt a => exact absurd hallowed id
            | scheduleRetry m atMs => exact absurd hallowed id
            | _ => trivial
          obtain ⟨b', hb', hstands'⟩ := hs.exec_alike hstands hunspoilt none (answers s.2)
            hserved
          refine .inr ⟨(b', t.2 + 1), ?_, hstands', ?_, hfit', hall, hq'⟩
          · unfold Backed.execSeq
            rw [hcount, hb']
            rfl
          · rw [hcount]
        · obtain ⟨m, hm⟩ := not_forall.mp hall
          obtain ⟨hm, hnot⟩ := not_forall.mp hm
          exact .inl ⟨.inr ⟨m, hm, hnot⟩, hq'⟩
      · exact .inl ⟨.inl hfit', hq'⟩
  obtain ⟨genEvent, genMessage, he, hm, heq⟩ := send_eq lang en event
  unfold accepted Deployed.accept at *
  rw [heq] at hfit hown ⊢
  cases hvalid : sendError en event with
  | some e => exact ⟨rfl, h⟩
  | none =>
    rw [hvalid] at hfit hown
    dsimp only at hfit hown ⊢
    obtain ⟨receipt, s', hrun⟩ := (acceptWith_total he hm event (lang.keyOf en event)).run_ok
      (Testing.execSeq none (unfailing answers)) (fun op s => ⟨_, _, rfl⟩) (w, 0)
    have hstart := hs.fit_runSeq hfit
    obtain ⟨g', hdone, hend⟩ := halike.run (s := (w, 0)) (t := (b, 0))
      (acceptWith_obeys he hm event (lang.keyOf en event)) ⟨h, rfl, hstart, by simp, by simp⟩
    unfold runSeq at hfit hown ⊢
    unfold Backed.runSeq
    rw [hrun] at hfit hown hdone hend ⊢
    obtain ⟨hspoilt, hq⟩ | ⟨hsame, hstands, -⟩ := hend
    · have hdrop : s'.1.queue.drop w.queue.length = g'.sent := by rw [hq, List.drop_left]
      rw [hdrop] at hown
      obtain hunfit | ⟨m, hmem, hnot⟩ := hspoilt
      · exact absurd hfit hunfit
      · rw [hdone receipt rfl, Option.toList_none, List.append_nil] at hmem
        exact absurd (hown m hmem) hnot
    · exact ⟨hsame, hstands⟩

/-- The store goes on to another content, its endpoints put in order. -/
theorem arrange_alike (hs : Serves call Rep Own Fit) (h : Stands Rep Own w b)
    {s : MemoryStateStore} {x : σ} (hrep : Rep s x) :
    Stands Rep Own { w with store := s.arranged } { b with store := x } :=
  { h with store := hs.arranged hrep, arranged := s.arranged_arranged }

theorem advance_alike (h : Stands Rep Own w b) (now : Time) :
    Stands Rep Own (w.advance now) (b.advance now) where
  queue := by
    unfold Backed.advance World.advance
    rw [h.queue, h.pending]
  pending := by
    unfold Backed.advance World.advance
    rw [h.pending]
  posts := h.posts
  store := h.store
  arranged := h.arranged
  owned := by
    intro m hm
    refine h.owned m ?_
    rcases List.mem_append.mp hm with hm | hm
    · rcases List.mem_append.mp hm with hm | hm
      · exact List.mem_append_left _ hm
      · obtain ⟨p, hp, rfl⟩ := List.mem_map.mp hm
        exact List.mem_append_right _ (List.mem_map_of_mem (List.mem_of_mem_filter hp))
    · obtain ⟨p, hp, rfl⟩ := List.mem_map.mp hm
      exact List.mem_append_right _ (List.mem_map_of_mem (List.mem_of_mem_filter hp))

end Calls

/-! ## How fast the books grow -/

section Growth
variable {k : Nat} {w : World} {r : Run} {lang : Lang} {en : Engine}

/-- No attempt log and no DLQ is longer than `k`. -/
def NoLonger (k : Nat) (s : MemoryStateStore) : Prop :=
  ∀ t, (s.tenants t).dlq.length ≤ k ∧ ∀ id, (s.attemptsOf t id).length ≤ k

/-- Dead-letter rows a pass may still add. -/
def Phase.rowsLeft : Phase → Nat
  | .begun | .trying | .answered _ | .doomed | .mourned => 1
  | _ => 0

/-- Attempts a pass may still log. -/
def Phase.logsLeft : Phase → Nat
  | .begun | .trying | .answered _ | .accepted | .doomed => 1
  | _ => 0

theorem Phase.left_next {m : Message} {p : Phase} {op : Op} (h : p.allows en m op) (x : Res op) :
    (p.next m op x).rowsLeft ≤ p.rowsLeft ∧ (p.next m op x).logsLeft ≤ p.logsLeft := by
  cases op with
  | putMessage y =>
    cases p with
    | begun =>
      dsimp only [Phase.next]
      split <;> first | exact ⟨le_rfl, le_rfl⟩ | exact ⟨Nat.zero_le _, Nat.zero_le _⟩
    | answered o => cases o <;> first | exact ⟨le_rfl, le_rfl⟩ | exact ⟨Nat.zero_le _, le_rfl⟩
    | failed => exact ⟨le_rfl, le_rfl⟩
    | _ => exact absurd h id
  | appendAttempt a =>
    obtain ⟨-, -, -, -, hlogs⟩ := h
    cases p with
    | answered o =>
      cases o with
      | retryable => exact ⟨Nat.zero_le _, Nat.zero_le _⟩
      | _ => exact absurd hlogs id
    | doomed => exact ⟨le_rfl, Nat.zero_le _⟩
    | accepted => exact ⟨le_rfl, Nat.zero_le _⟩
    | _ => exact absurd hlogs id
  | addToDlq y reason =>
    obtain ⟨-, rfl⟩ := h
    exact ⟨Nat.zero_le _, le_rfl⟩
  | scheduleRetry y atMs =>
    obtain rfl : p = .waiting y := h
    exact ⟨le_rfl, le_rfl⟩
  | check url =>
    obtain rfl : p = .trying := h
    dsimp only [Phase.next]
    split <;> exact ⟨le_rfl, le_rfl⟩
  | post url body headers timeoutMs =>
    obtain rfl : p = .trying := h
    exact ⟨le_rfl, le_rfl⟩
  | _ => exact ⟨le_rfl, le_rfl⟩

theorem exec_attempts (self : Option Message) (a : Answer) (op : Op) (w : World) (t id : String) :
    (Testing.exec self a op w).2.store.attemptsOf t id = match op with
      | .appendAttempt x =>
        if (x.tenant, x.messageId) = (t, id) then w.store.attemptsOf t id ++ [x]
        else w.store.attemptsOf t id
      | _ => w.store.attemptsOf t id := by
  have hcard := congrArg Card.attempts (card_exec self a op w (t, id))
  rw [touch_attempts] at hcard
  exact hcard

/-- What the store has leaves room for what the pass may still add. -/
def Roomy (k : Nat) (p : Phase) (s : MemoryStateStore) : Prop :=
  ∀ t, (s.tenants t).dlq.length + p.rowsLeft ≤ k ∧
    ∀ id, (s.attemptsOf t id).length + p.logsLeft ≤ k

theorem Roomy.exec {p : Phase} (h : Roomy k p w.store) {m : Message} {op : Op}
    (hallowed : p.allows en m op) (self : Option Message) (a : Answer) (x : Res op) :
    Roomy k (p.next m op x) (Testing.exec self a op w).2.store := by
  intro t
  obtain ⟨hrows, hlogs⟩ := h t
  have hleft := Phase.left_next hallowed x
  rw [exec_dlq]
  refine ⟨?_, fun messageId => ?_⟩
  · cases op with
    | addToDlq y reason =>
      obtain ⟨-, rfl⟩ := hallowed
      dsimp only
      have hlength : (w.store.tenants t).dlq.length + 1 ≤ k := hrows
      have hnext : (Phase.next m .mourned (.addToDlq y reason) x).rowsLeft = 0 := rfl
      rw [hnext]
      split
      · rw [List.length_append, List.length_singleton]
        exact hlength
      · omega
    | _ =>
      dsimp only at hleft ⊢
      omega
  · rw [exec_attempts]
    have hlog := hlogs messageId
    cases op with
    | appendAttempt y =>
      obtain ⟨-, -, -, -, hlogging⟩ := hallowed
      have hone : p.logsLeft = 1 ∧ (p.next m (.appendAttempt y) x).logsLeft = 0 := by
        cases p with
        | answered o =>
          cases o with
          | retryable => exact ⟨rfl, rfl⟩
          | _ => exact absurd hlogging id
        | doomed => exact ⟨rfl, rfl⟩
        | accepted => exact ⟨rfl, rfl⟩
        | _ => exact absurd hlogging id
      rw [hone.2]
      dsimp only
      split
      · rw [List.length_append, List.length_singleton]
        omega
      · omega
    | _ =>
      dsimp only at hleft ⊢
      omega

/-- A pass adds at most one attempt and at most one dead letter. -/
theorem processed_noLonger (lang : Lang) (en : Engine) (h : NoLonger k w.store) (m : Message)
    (answers : Nat → Answer) : NoLonger (k + 1) (processed lang en w m answers).store := by
  have hobeys := process_obeys lang.dialect en m
  rw [← Job.process_eq en { lang := lang, message := m }] at hobeys
  have hend : ∀ {p : Phase} {s : MemoryStateStore}, Roomy (k + 1) p s → NoLonger (k + 1) s :=
    fun hroomy t => ⟨by have := (hroomy t).1; omega, fun id => by have := (hroomy t).2 id; omega⟩
  have hstart : Roomy (k + 1) .begun w.store := by
    intro t
    exact ⟨Nat.succ_le_succ (h t).1, fun id => Nat.succ_le_succ ((h t).2 id)⟩
  have hrun := hobeys.run_inv (Testing.execSeq (some m) (unfailing answers))
    (I := fun g s => g.1 = m ∧ Roomy (k + 1) g.2 s.1.store)
    (E := fun s => NoLonger (k + 1) s.1.store) ?_ ?_ (fun _ _ hi => hend hi.2) (s := (w, 0))
    ⟨rfl, hstart⟩
  · unfold processed runSeq
    cases hout : ((Job.process en { lang := lang, message := m }).run
        (Testing.execSeq (some m) (unfailing answers)) (w, 0)) with
    | mk out s =>
      rw [hout] at hrun
      cases out with
      | ok a =>
        obtain ⟨g, -, -, hroomy⟩ := hrun
        exact hend hroomy
      | error e => exact hrun
  · intro g op s x s' hi hallowed hx
    obtain ⟨rfl, hroomy⟩ := hi
    cases hx
    exact ⟨rfl, hroomy.exec hallowed _ _ _⟩
  · intro g op s e s' hi hallowed hx
    cases hx

/-- A call of `send` adds none. -/
theorem accepted_noLonger (lang : Lang) (en : Engine) (h : NoLonger k w.store) (event : SendEvent)
    (answers : Nat → Answer) : NoLonger k (accepted lang en w event answers).store := by
  obtain ⟨genEvent, genMessage, he, hm, heq⟩ := send_eq lang en event
  unfold accepted runSeq
  rw [heq]
  cases hvalid : sendError en event with
  | some e => exact h
  | none =>
    have hrun := (acceptWith_obeys he hm event (lang.keyOf en event)).run_inv
      (Testing.execSeq none (unfailing answers)) (I := fun _ s => NoLonger k s.1.store)
      (E := fun s => NoLonger k s.1.store) ?_ ?_ (fun _ _ hi => hi) (s := (w, 0)) h
    · dsimp only
      cases hout : (acceptWith genEvent (fanoutWith genMessage) event (lang.keyOf en event)).run
          (Testing.execSeq none (unfailing answers)) (w, 0) with
      | mk out s =>
        rw [hout] at hrun
        cases out with
        | ok a =>
          obtain ⟨g, -, hi⟩ := hrun
          exact hi
        | error e => exact hrun
    · intro g op s x s' hi hallowed hx t
      cases hx
      refine ⟨?_, fun messageId => ?_⟩
      · show ((Testing.exec none (answers s.2) op s.1).2.store.tenants t).dlq.length ≤ k
        rw [exec_dlq]
        cases op with
        | addToDlq y reason => exact absurd hallowed id
        | _ => exact (hi t).1
      · show ((Testing.exec none (answers s.2) op s.1).2.store.attemptsOf t messageId).length ≤ k
        rw [exec_attempts]
        cases op with
        | appendAttempt y => exact absurd hallowed id
        | _ => exact (hi t).2 messageId
    · intro g op s e s' hi hallowed hx
      cases hx

theorem NoLonger.mono {k' : Nat} {s : MemoryStateStore} (h : NoLonger k s) (hle : k ≤ k') :
    NoLonger k' s :=
  fun t => ⟨(h t).1.trans hle, fun id => ((h t).2 id).trans hle⟩

theorem NoLonger.perform {s : MemoryStateStore} (h : NoLonger k s) {o : StoreOp}
    (ho : ¬ MemoryStateStore.Logs o) : NoLonger k (s.perform o).2 := by
  intro t
  have hsame := s.perform_sameBooks ho
  rw [hsame.dlq t]
  refine ⟨(h t).1, fun id => ?_⟩
  rw [hsame.attempts t id]
  exact (h t).2 id

theorem step_noLonger (h : NoLonger k r.world.store) (e : Step) :
    NoLonger (k + 1) (r.step lang en e).world.store := by
  cases e with
  | create input id secret now =>
    exact (h.perform (o := .createEndpoint input id secret now) not_false).mono (Nat.le_succ k)
  | update t id patch =>
    exact (h.perform (o := .updateEndpoint t id patch) not_false).mono (Nat.le_succ k)
  | rotate t id secret =>
    exact (h.perform (o := .rotateSecret t id secret) not_false).mono (Nat.le_succ k)
  | delete t id => exact (h.perform (o := .deleteEndpoint t id) not_false).mono (Nat.le_succ k)
  | send event answers => exact (accepted_noLonger lang en h event answers).mono (Nat.le_succ k)
  | process i answers =>
    cases hi : r.world.queue[i]? with
    | none =>
      simp only [Run.step, hi]
      exact h.mono (Nat.le_succ k)
    | some m =>
      simp only [Run.step, hi]
      exact processed_noLonger lang en (w := dequeue r.world i) h m answers
  | advance now => exact h.mono (Nat.le_succ k)

theorem arrangedRun_noLonger (lang : Lang) (en : Engine) (h : NoLonger k r.world.store)
    (steps : List Step) :
    NoLonger (k + steps.length) (r.arrangedRun lang en steps).world.store := by
  induction steps generalizing r k with
  | nil => exact h
  | cons e steps ih =>
    have hstep : NoLonger (k + 1) (r.step lang en e).arranged.world.store := step_noLonger h e
    refine (ih hstep).mono ?_
    rw [List.length_cons]
    omega

/-- From the start, the books are no longer than the run. -/
theorem run_noLonger (lang : Lang) (en : Engine) (steps : List Step) :
    NoLonger steps.length (Run.start.arrangedRun lang en steps).world.store := by
  have hstart : NoLonger 0 Run.start.world.store := fun _ => ⟨le_rfl, fun _ => le_rfl⟩
  have hgrown := arrangedRun_noLonger lang en hstart steps
  rwa [Nat.zero_add] at hgrown

end Growth

/-! ## Runs -/

section Runs
variable {σ : Type} {call : Backing σ} {Rep : MemoryStateStore → σ → Prop}
  {Own : String → String → String → Prop} {Fit : MemoryStateStore → Prop} {r : Run}
  {d : Deployed σ} {lang : Lang} {en : Engine}

/-- A run over another store stands for one over the in-memory store. -/
structure RunStands (Rep : MemoryStateStore → σ → Prop) (Own : String → String → String → Prop)
    (r : Run) (d : Deployed σ) : Prop where
  world : Stands Rep Own r.world d.world
  sent : d.sent = r.sent

/-- At the start. -/
theorem start_stands {x : σ} (h : Rep .empty x) : RunStands Rep Own .start (.start x) where
  world := {
    queue := rfl
    pending := rfl
    posts := rfl
    store := h
    arranged := fun _ => .nil
    owned := by
      intro m hm
      cases hm }
  sent := rfl

theorem edit_alike (hs : Serves call Rep Own Fit) (h : RunStands Rep Own r d) {o : StoreOp}
    (hop : Served Own o) (hfit : Fit (r.world.store.perform o).2) :
    RunStands Rep Own
      (Run.arranged { r with world := { r.world with store := (r.world.store.perform o).2 } })
      (d.edit call o) where
  world := arrange_alike hs h.world
    (hs.keeps h.world.store h.world.arranged (hs.fit_before hfit) hop)
  sent := h.sent

/-- One step. -/
theorem step_alike (hs : Serves call Rep Own Fit) (h : RunStands Rep Own r d) (e : Step)
    (hfit : Fit (r.step lang en e).world.store)
    (hown : ∀ m ∈ (r.step lang en e).sent, Own m.tenant m.messageId m.endpointId) :
    RunStands Rep Own (r.step lang en e).arranged (d.step call lang en e) := by
  cases e with
  | create input id secret now =>
    exact edit_alike hs h (o := .createEndpoint input id secret now) trivial hfit
  | update t id patch => exact edit_alike hs h (o := .updateEndpoint t id patch) trivial hfit
  | rotate t id secret => exact edit_alike hs h (o := .rotateSecret t id secret) trivial hfit
  | delete t id => exact edit_alike hs h (o := .deleteEndpoint t id) trivial hfit
  | send event answers =>
    have hafter : Fit (accepted lang en r.world event answers).store := hfit
    obtain ⟨-, hstands⟩ := send_alike hs h.world event answers hafter
      fun m hm => hown m (List.mem_append_right _ hm)
    refine ⟨arrange_alike hs hstands hstands.store, ?_⟩
    show d.sent ++ List.drop _ _ = r.sent ++ List.drop _ _
    rw [h.sent, hstands.queue, h.world.queue]
  | process k answers =>
    cases hk : r.world.queue[k]? with
    | none =>
      have hk' : d.world.queue[k]? = none := by rw [h.world.queue, hk]
      have hstep : r.step lang en (.process k answers) = r := by simp only [Run.step, hk]
      have hstep' : d.step call lang en (.process k answers) = d := by
        simp only [Deployed.step, hk']
      rw [hstep, hstep']
      exact ⟨arrange_alike hs h.world h.world.store, h.sent⟩
    | some m =>
      have hk' : d.world.queue[k]? = some m := by rw [h.world.queue, hk]
      have hstep : r.step lang en (.process k answers) =
          { r with world := processed lang en (dequeue r.world k) m answers } := by
        simp only [Run.step, hk]
      have hstep' : d.step call lang en (.process k answers) =
          { d with world := Deployed.process call lang en d.world k m answers } := by
        simp only [Deployed.step, hk']
      have hdequeued : Stands Rep Own (dequeue r.world k)
          { d.world with queue := d.world.queue.eraseIdx k } := by
        refine { h.world with queue := congrArg (·.eraseIdx k) h.world.queue, owned := ?_ }
        intro x hx
        refine h.world.owned x ?_
        rcases List.mem_append.mp hx with hx | hx
        · exact List.mem_append_left _ (List.mem_of_mem_eraseIdx hx)
        · exact List.mem_append_right _ hx
      have hm := h.world.owned m (List.mem_append_left _ (List.mem_of_getElem? hk))
      rw [hstep] at hfit ⊢
      rw [hstep']
      have hpass := pass_alike hs hdequeued hm answers hfit
      exact ⟨arrange_alike hs hpass hpass.store, h.sent⟩
  | advance now =>
    have hadvanced := advance_alike h.world now
    exact ⟨arrange_alike hs hadvanced hadvanced.store, h.sent⟩

/-- A store that is fit after a step was fit before it. -/
theorem fit_step (hs : Serves call Rep Own Fit) {e : Step}
    (h : Fit (r.step lang en e).world.store) : Fit r.world.store := by
  cases e with
  | create input id secret now =>
    exact hs.fit_before (o := .createEndpoint input id secret now) h
  | update t id patch => exact hs.fit_before (o := .updateEndpoint t id patch) h
  | rotate t id secret => exact hs.fit_before (o := .rotateSecret t id secret) h
  | delete t id => exact hs.fit_before (o := .deleteEndpoint t id) h
  | send event answers => exact hs.fit_runSeq h
  | process k answers =>
    cases hk : r.world.queue[k]? with
    | none => simpa only [Run.step, hk] using h
    | some m =>
      simp only [Run.step, hk] at h
      have hbefore : Fit (dequeue r.world k).store := hs.fit_runSeq h
      exact hbefore
  | advance now => exact h

theorem fit_arrangedRun (hs : Serves call Rep Own Fit) {steps : List Step}
    (h : Fit (r.arrangedRun lang en steps).world.store) : Fit r.world.store := by
  induction steps generalizing r with
  | nil => exact h
  | cons e steps ih => exact fit_step hs (hs.fit_arranged.mp (ih h))

theorem arrangedRun_sent (lang : Lang) (en : Engine) (r : Run) (steps : List Step) :
    r.sent <+: (r.arrangedRun lang en steps).sent := by
  induction steps generalizing r with
  | nil => exact List.prefix_refl _
  | cons e steps ih =>
    have hstep : r.sent <+: (r.step lang en e).sent := sent_grows [e]
    exact hstep.trans (ih (r.step lang en e).arranged)

/-- **The engine cannot tell the stores apart.** -/
theorem run_alike (hs : Serves call Rep Own Fit) (h : RunStands Rep Own r d) {steps : List Step}
    (hfit : Fit (r.arrangedRun lang en steps).world.store)
    (hown : ∀ m ∈ (r.arrangedRun lang en steps).sent, Own m.tenant m.messageId m.endpointId) :
    RunStands Rep Own (r.arrangedRun lang en steps) (d.run call lang en steps) := by
  induction steps generalizing r d with
  | nil => exact h
  | cons e steps ih =>
    have hbefore : Fit (r.step lang en e).arranged.world.store := fit_arrangedRun hs hfit
    refine ih (step_alike hs h e (hs.fit_arranged.mp hbefore) ?_) hfit hown
    intro m hm
    exact hown m ((arrangedRun_sent lang en (r.step lang en e).arranged steps).subset hm)

/-! ## The delivery state machine -/

/-- No card knows of the order of endpoints. -/
theorem Orderly.arranged (h : Orderly en r) : Orderly en r.arranged := h.of_cards fun _ => rfl

theorem Orderly.arrangedRun (lang : Lang) (h : Orderly en r) {steps : List Step}
    (hids : ((r.arrangedRun lang en steps).sent.map Message.key).Nodup) :
    Orderly en (r.arrangedRun lang en steps) := by
  induction steps generalizing r with
  | nil => exact h
  | cons e steps ih =>
    refine ih (h.step lang e ?_).arranged hids
    exact hids.sublist ((arrangedRun_sent lang en (r.step lang en e).arranged steps).sublist.map _)

end Runs
end Anyhook.Delivery
