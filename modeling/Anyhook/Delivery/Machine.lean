import Anyhook.Delivery.Accept
import Anyhook.Delivery.Sequential

/-! The delivery state machine over whole runs of the in-memory runtime: endpoints come
and go, events are sent, queued messages are processed one at a time, and the clock
releases what the scheduler holds. Between two steps every message that was ever fanned
out is live with one copy, delivered, or dead with one dead-letter row, and its attempt
log is numbered from zero. -/
namespace Anyhook.Delivery
open Anyhook.Core Anyhook.Testing Anyhook.Lib.Program Anyhook.Lib.OrderedMap

/-! ## No path throws of its own accord -/

section Totality
variable (d : Dialect) (en : Engine) (m : Message)

theorem record_total (a : Attempt) : Prog.Total (record a) :=
  Prog.total_call fun _ => Prog.total_perform _

theorem dlq_total (a : Attempt) (r : DlqReason) : Prog.Total (dlq m a r) :=
  Prog.total_call fun _ => Prog.total_bind (record_total _) fun _ => Prog.total_perform _

theorem rateLimitGate_total (ep : Endpoint) : Prog.Total (rateLimitGate d m ep) := by
  unfold rateLimitGate
  cases ep.rateLimit with
  | none => trivial
  | some rate =>
    dsimp only
    split
    · refine Prog.total_call fun now => Prog.total_call fun stored => Prog.total_call fun _ => ?_
      split
      · trivial
      · exact Prog.total_call fun _ => Prog.total_call fun _ => trivial
    · trivial

theorem circuitGate_total : Prog.Total (circuitGate d en m) := by
  refine Prog.total_call fun stored => Prog.total_call fun now => ?_
  dsimp only
  split
  · split
    · exact Prog.total_call fun _ => trivial
    · trivial
  · refine Prog.total_bind ?_ fun _ => trivial
    exact Prog.total_call fun _ => Prog.total_bind (d.wakeAt_reads _).total fun _ =>
      Prog.total_perform _

theorem gates_total : Prog.Total (gates d en m) := by
  refine Prog.total_call fun endpoint => ?_
  cases endpoint with
  | none => trivial
  | some ep =>
    dsimp only
    split
    · trivial
    · refine Prog.total_bind (rateLimitGate_total d m ep) fun throttled => ?_
      split
      · trivial
      · refine Prog.total_bind (circuitGate_total d en m) fun circuit => ?_
        cases circuit <;> trivial

theorem deliverWith_total (ep : Endpoint) : Prog.Total (deliverWith d en m ep) := by
  refine Prog.total_call fun ssrf => ?_
  split
  · exact Prog.total_call fun _ => Prog.total_call fun _ => Prog.total_call fun _ =>
      Prog.total_call fun _ => trivial
  · trivial

theorem attemptDelivery_total (ep : Endpoint) (c : CircuitRecord) :
    Prog.Total (attemptDelivery d en m ep c) := by
  refine Prog.total_call fun _ => Prog.total_bind (deliverWith_total d en m ep) fun res =>
    Prog.total_call fun ts => ?_
  cases res.outcome with
  | delivered => exact Prog.total_call fun _ => Prog.total_call fun _ => record_total _
  | permanent => exact Prog.total_call fun _ => Prog.total_call fun _ => dlq_total m _ _
  | retryable =>
    refine Prog.total_call fun now => Prog.total_call fun _ =>
      Prog.total_bind (d.nextDelayMs_reads _ _ _).total fun delay => ?_
    cases delay with
    | none => exact dlq_total m _ _
    | some delay =>
      exact Prog.total_bind (record_total _) fun _ => Prog.total_call fun _ =>
        Prog.total_call fun _ => Prog.total_perform _

theorem process_total : Prog.Total (processWith d en m) := by
  rw [processWith_eq]
  refine Prog.total_bind (gates_total d en m) fun pass => ?_
  cases pass with
  | gone => exact Prog.total_call fun _ => dlq_total m _ _
  | throttled => trivial
  | blocked => trivial
  | admitted ep c => exact attemptDelivery_total d en m ep c

end Totality

/-! ## Runs -/

/-- `sent` remembers every message as it was fanned out. -/
structure Run where
  world : World
  sent : List Message

def Run.start : Run where
  world := .empty
  sent := []

inductive Step where
  | create (input : MemoryStateStore.CreateInput) (endpointId secret : String) (now : Time)
  | update (tenant endpointId : String) (patch : MemoryStateStore.EndpointPatch)
  | rotate (tenant endpointId secret : String)
  | delete (tenant endpointId : String)
  | send (event : SendEvent) (answers : Nat → Answer)
  /-- The `k`-th queued message is taken off the queue and processed. -/
  | process (k : Nat) (answers : Nat → Answer)
  /-- The clock reaches `now` and the scheduler releases what is due. -/
  | advance (now : Time)

section Stepping
variable (lang : Lang) (en : Engine)

/-- The queue without its `k`-th message. -/
def dequeue (w : World) (k : Nat) : World := { w with queue := w.queue.eraseIdx k }

def processed (w : World) (m : Message) (answers : Nat → Answer) : World :=
  (runSeq (some m) (unfailing answers) (Job.process en { lang := lang, message := m }) w).2

def accepted (w : World) (event : SendEvent) (answers : Nat → Answer) : World :=
  (runSeq none (unfailing answers) (lang.send en event) w).2

def Run.step (r : Run) : Step → Run
  | .create input id secret now =>
    { r with world := { r.world with store := r.world.store.createEndpoint input id secret now } }
  | .update t id patch =>
    { r with world := { r.world with store := (r.world.store.updateEndpoint t id patch).2 } }
  | .rotate t id secret =>
    { r with world := { r.world with store := (r.world.store.rotateSecret t id secret).2 } }
  | .delete t id =>
    { r with world := { r.world with store := r.world.store.deleteEndpoint t id } }
  | .send event answers =>
    let w := accepted lang en r.world event answers
    { world := w, sent := r.sent ++ w.queue.drop r.world.queue.length }
  | .process k answers => match r.world.queue[k]? with
    | some m => { r with world := processed lang en (dequeue r.world k) m answers }
    | none => r
  | .advance now => { r with world := r.world.advance now }

def Run.run (r : Run) (steps : List Step) : Run := steps.foldl (Run.step lang en) r

end Stepping

/-! ## What holds of every message -/

/-- Stored status, copies, dead-letter rows, attempt log and POSTs fit together. -/
structure InOrder (en : Engine) (c : Card) : Prop where
  stored : ∃ s, c.stored = some s ∧ s.status ≠ .delivering
  one : ∀ s, c.stored = some s → s.status = .pending ∨ s.status = .retrying ∨
    s.status = .blocked → (c.queued ++ c.pending).length = 1
  none : ∀ s, c.stored = some s → s.status = .delivered ∨ s.status = .dead →
    (c.queued ++ c.pending).length = 0
  dlq : ∀ s, c.stored = some s → c.dlq.length = if s.status = .dead then 1 else 0
  numbered : c.attempts.map Attempt.attemptNo = (List.range c.attempts.length).map Int.ofNat
  retried : ∀ a ∈ c.attempts.dropLast, a.outcome = .retried
  delivered : ∀ s, c.stored = some s →
    (c.attempts.getLast?.map Attempt.outcome = some .delivered ↔ s.status = .delivered)
  dead : ∀ s, c.stored = some s →
    (c.attempts.getLast?.map Attempt.outcome = some .dead ↔ s.status = .dead)
  attempts : c.attempts.length ≤ en.retry.scheduleMs.length + 1
  posts : c.answers.length ≤ en.retry.scheduleMs.length + 1

/-- An attempt log of `n` retried attempts, numbered from zero. -/
structure Log (n : Nat) (as : List Attempt) : Prop where
  numbers : as.map Attempt.attemptNo = (List.range n).map Int.ofNat
  outcomes : ∀ a ∈ as, a.outcome = .retried

theorem Log.length {n : Nat} {as : List Attempt} (h : Log n as) : as.length = n := by
  simpa using congrArg List.length h.numbers

theorem Log.snoc {n : Nat} {as : List Attempt} (h : Log n as) {a : Attempt}
    (hn : a.attemptNo = n) (ho : a.outcome = .retried) : Log (n + 1) (as ++ [a]) := by
  refine ⟨by simp [List.range_succ, h.numbers, hn], fun x hx => ?_⟩
  rcases List.mem_append.mp hx with hx | hx
  · exact h.outcomes x hx
  · rw [List.mem_singleton.mp hx]; exact ho

/-- A message that waits for its `n`-th attempt, `m` being its only copy. -/
structure Live (en : Engine) (m : Message) (n : Nat) (c : Card) : Prop where
  copies : c.queued ++ c.pending = [m]
  number : m.attemptNo = n
  stored : ∃ s, c.stored = some s ∧ s.attemptNo = n ∧
    (s.status = .pending ∨ s.status = .retrying ∨ s.status = .blocked)
  log : Log n c.attempts
  slot : n ≤ en.retry.scheduleMs.length
  dlq : c.dlq = []
  posts : c.answers.length ≤ n

/-- A message whose last attempt ended it with `outcome`. -/
structure Ended (en : Engine) (outcome : AttemptOutcome) (status : MessageStatus) (rows : Nat)
    (c : Card) : Prop where
  copies : c.queued ++ c.pending = []
  stored : ∃ s, c.stored = some s ∧ s.status = status
  log : ∃ (n : Nat) (as : List Attempt) (a : Attempt), c.attempts = as ++ [a] ∧
    Log n as ∧ a.attemptNo = n ∧ a.outcome = outcome ∧ n ≤ en.retry.scheduleMs.length ∧
      c.answers.length ≤ n + 1
  dlq : c.dlq.length = rows

/-- The three states a message can be in between two steps. -/
inductive Resting (en : Engine) (key : String × String) (c : Card) : Prop
  | live (m : Message) (n : Nat) (hk : m.key = key) (h : Live en m n c)
  | delivered (h : Ended en .delivered .delivered 0 c)
  | dead (h : Ended en .dead .dead 1 c)

theorem Live.inOrder {en : Engine} {m : Message} {n : Nat} {c : Card} (h : Live en m n c) :
    InOrder en c := by
  obtain ⟨s, hs, -, hst⟩ := h.stored
  have hne : s.status ≠ .delivering ∧ s.status ≠ .delivered ∧ s.status ≠ .dead := by
    rcases hst with hst | hst | hst <;> rw [hst] <;> exact ⟨nofun, nofun, nofun⟩
  have hlast : ∀ o, c.attempts.getLast?.map Attempt.outcome = some o → o = .retried := by
    intro o ho
    cases hl : c.attempts.getLast? with
    | none => rw [hl] at ho; cases ho
    | some a =>
      rw [hl] at ho
      rw [← Option.some.inj ho]
      exact h.log.outcomes a (List.mem_of_getLast? hl)
  have hposts := h.posts
  have hslot := h.slot
  refine ⟨⟨s, hs, hne.1⟩, fun _ _ _ => by rw [h.copies]; rfl, fun s' hs' hst' => ?_,
    fun s' hs' => ?_, by rw [h.log.length]; exact h.log.numbers,
    fun a ha => h.log.outcomes a (List.dropLast_subset _ ha), fun s' hs' => ?_, fun s' hs' => ?_,
    by rw [h.log.length]; omega, by omega⟩
  all_goals obtain rfl : s = s' := Option.some.inj (hs.symm.trans hs')
  · rcases hst' with h1 | h1
    · exact absurd h1 hne.2.1
    · exact absurd h1 hne.2.2
  · rw [if_neg hne.2.2, h.dlq]; rfl
  · exact ⟨fun ho => (by cases hlast _ ho), fun hd => absurd hd hne.2.1⟩
  · exact ⟨fun ho => (by cases hlast _ ho), fun hd => absurd hd hne.2.2⟩

/-- Both ways a message can end. -/
theorem Ended.inOrder {en : Engine} {outcome : AttemptOutcome} {status : MessageStatus}
    {rows : Nat} {c : Card} (h : Ended en outcome status rows c)
    (hst : status = .delivered ∨ status = .dead)
    (hrows : rows = if status = .dead then 1 else 0)
    (hdel : outcome = .delivered ↔ status = .delivered) (hdead : outcome = .dead ↔ status = .dead) :
    InOrder en c := by
  obtain ⟨s, hs, rfl⟩ := h.stored
  obtain ⟨n, as, a, hat, hlog, hnum, rfl, hslot, hposts⟩ := h.log
  have hone := hlog.snoc (a := { a with outcome := .retried }) hnum rfl
  refine ⟨⟨s, hs, by rcases hst with h | h <;> rw [h] <;> nofun⟩, fun s' hs' hst' => ?_,
    fun _ _ _ => by rw [h.copies]; rfl, fun s' hs' => ?_, ?_, fun x hx => ?_, fun s' hs' => ?_,
    fun s' hs' => ?_, ?_, by omega⟩
  · obtain rfl : s = s' := Option.some.inj (hs.symm.trans hs')
    rcases hst with h1 | h1 <;> rw [h1] at hst' <;> simp at hst'
  · obtain rfl : s = s' := Option.some.inj (hs.symm.trans hs')
    rw [h.dlq, hrows]
  · have hlen : (as ++ [a]).length = n + 1 := by simp [hlog.length]
    rw [hat, hlen, ← hone.numbers]
    simp
  · rw [hat, List.dropLast_concat] at hx
    exact hlog.outcomes x hx
  · obtain rfl : s = s' := Option.some.inj (hs.symm.trans hs')
    simpa [hat] using hdel
  · obtain rfl : s = s' := Option.some.inj (hs.symm.trans hs')
    simpa [hat] using hdead
  · simp [hat, hlog.length, hslot]

/-! ## One pass over a message -/

/-- The card of `m` in the middle of a pass: `c` is `c0` with the attempts of this pass,
whose outcomes are `ext`, with `rows` dead-letter rows, with the scheduled `copies`, and
with at most `posts` POSTs. -/
structure Shape (c0 : Card) (m : Message) (stored : Message → Prop) (ext : List AttemptOutcome)
    (rows : Nat) (copies : List Message) (posts : Nat) (c : Card) : Prop where
  stored : ∃ s, c.stored = some s ∧ stored s
  attempts : ∃ as, c.attempts = c0.attempts ++ as ∧ as.map Attempt.outcome = ext ∧
    ∀ a ∈ as, a.attemptNo = m.attemptNo
  dlq : c.dlq.length = rows
  queued : c.queued = []
  pending : c.pending = copies
  posts : c.answers.length ≤ posts

/-- A message that waits with `copies` scheduled: as it was given, or one attempt later. -/
def Waits (en : Engine) (c0 : Card) (m x : Message) (n : Nat) (copies : List Message) (c : Card) :
    Prop :=
  (x = m ∧ Shape c0 m (fun s => s.attemptNo = m.attemptNo ∧
      (s.status = .retrying ∨ s.status = .blocked)) [] 0 copies n c) ∨
  (x.key = m.key ∧ x.attemptNo = m.attemptNo + 1 ∧ m.attemptNo < en.retry.scheduleMs.length ∧
    Shape c0 m (fun s => s.attemptNo = m.attemptNo + 1 ∧ s.status = .retrying) [.retried] 0 copies
      (n + 1) c)

/-- Where the card stands in each phase of a pass over the only copy of a message that
had `n` POSTs. -/
def Underway (en : Engine) (c0 : Card) (m : Message) (n : Nat) (p : Phase) (c : Card) : Prop :=
  match p with
  | .begun => c = c0
  | .waiting x => Waits en c0 m x n [] c
  | .scheduled x => Waits en c0 m x n [x] c
  | .trying => Shape c0 m (·.status = .delivering) [] 0 [] n c
  | .answered _ => Shape c0 m (·.status = .delivering) [] 0 [] (n + 1) c
  | .accepted => Shape c0 m (·.status = .delivered) [] 0 [] (n + 1) c
  | .delivered => Shape c0 m (·.status = .delivered) [.delivered] 0 [] (n + 1) c
  | .failed => m.attemptNo < en.retry.scheduleMs.length ∧
      Shape c0 m (·.status = .delivering) [.retried] 0 [] (n + 1) c
  | .doomed => Shape c0 m (·.status = .dead) [] 0 [] (n + 1) c
  | .mourned => Shape c0 m (·.status = .dead) [.dead] 0 [] (n + 1) c
  | .buried => Shape c0 m (·.status = .dead) [.dead] 1 [] (n + 1) c

section Pass
variable {en : Engine} {c0 c : Card} {m : Message} {n : Nat} {st st' : Message → Prop}
variable {ext : List AttemptOutcome} {rows posts posts' : Nat} {copies : List Message} {a : Answer}

theorem Shape.put (h : Shape c0 m st ext rows copies posts c) {x : Message} (hk : x.key = m.key)
    (hx : st' x) (hp : posts ≤ posts') :
    Shape c0 m st' ext rows copies posts' (touch (some m) a m.key (.putMessage x) c) := by
  simp only [touch, hk, if_true]
  exact ⟨⟨x, rfl, hx⟩, h.attempts, h.dlq, h.queued, h.pending, h.posts.trans hp⟩

theorem Shape.log (h : Shape c0 m st [] rows copies posts c) {x : Attempt}
    (hk : (x.tenant, x.messageId) = m.key) (hn : x.attemptNo = m.attemptNo) :
    Shape c0 m st [x.outcome] rows copies posts (touch (some m) a m.key (.appendAttempt x) c) := by
  simp only [touch, hk, if_true]
  obtain ⟨as, hat, hout, -⟩ := h.attempts
  obtain rfl : as = [] := by simpa using hout
  refine ⟨h.stored, ⟨[x], ?_, rfl, ?_⟩, h.dlq, h.queued, h.pending, h.posts⟩
  · simp [hat]
  · intro y hy
    rw [List.mem_singleton.mp hy]
    exact hn

theorem Shape.schedule (h : Shape c0 m st ext rows [] posts c) {x : Message} (hk : x.key = m.key)
    (t : Time) :
    Shape c0 m st ext rows [x] posts (touch (some m) a m.key (.scheduleRetry x t) c) := by
  simp only [touch, hk, if_true]
  exact ⟨h.stored, h.attempts, h.dlq, h.queued, by simp [h.pending], h.posts⟩

theorem Shape.bury (h : Shape c0 m st ext 0 copies posts c) (r : DlqReason) :
    Shape c0 m st ext 1 copies posts (touch (some m) a m.key (.addToDlq m r) c) := by
  simp only [touch, if_true]
  exact ⟨h.stored, h.attempts, by simp [h.dlq], h.queued, h.pending, h.posts⟩

theorem Shape.post (h : Shape c0 m st ext rows copies posts c) (url body : String)
    (headers : List (String × String)) (timeoutMs : Time) :
    Shape c0 m st ext rows copies (posts + 1)
      (touch (some m) a m.key (.post url body headers timeoutMs) c) := by
  simp only [touch, Option.map_some, if_true]
  refine ⟨h.stored, h.attempts, h.dlq, h.queued, h.pending, ?_⟩
  simpa using h.posts

theorem Shape.mono (h : Shape c0 m st ext rows copies posts c) (hp : posts ≤ posts') :
    Shape c0 m st ext rows copies posts' c :=
  ⟨h.stored, h.attempts, h.dlq, h.queued, h.pending, h.posts.trans hp⟩

/-- The card at the start of a pass, as a shape. -/
theorem shape_start (hs : ∃ s, c0.stored = some s) (hd : c0.dlq = []) (hq : c0.queued = [])
    (hp : c0.pending = []) (ha : c0.answers.length ≤ n) :
    Shape c0 m (fun _ => True) [] 0 [] n c0 := by
  obtain ⟨s, hs⟩ := hs
  exact ⟨⟨s, hs, trivial⟩, ⟨[], by simp, rfl, nofun⟩, by simp [hd], hq, hp, ha⟩

/-- Every answered port call of a pass keeps the card where its phase says. -/
theorem underway_answered (h0 : Shape c0 m (fun _ => True) [] 0 [] n c0) {p : Phase} {op : Op}
    {r : Res op} (hk : p.keyed m) (hal : p.allows en m op) (h : Underway en c0 m n p c) :
    Underway en c0 m n (p.next m op r) (touch (some m) a m.key op c) := by
  cases op with
  | putMessage x =>
    have hx : x.key = m.key := (Phase.stores_same hal).key
    cases p with
    | begun =>
      obtain rfl : c = c0 := h
      obtain rfl | rfl | rfl | ⟨t, rfl⟩ := hal
      · exact h0.put hx rfl (Nat.le_succ n)
      · exact h0.put hx rfl le_rfl
      · exact .inl ⟨rfl, h0.put hx ⟨rfl, .inr rfl⟩ le_rfl⟩
      · exact .inl ⟨rfl, h0.put hx ⟨rfl, .inl rfl⟩ le_rfl⟩
    | answered o =>
      cases o with
      | delivered => obtain rfl := hal; exact Shape.put h hx rfl le_rfl
      | permanent => obtain rfl := hal; exact Shape.put h hx rfl le_rfl
      | retryable => obtain rfl := hal; exact Shape.put h hx rfl le_rfl
    | failed =>
      obtain ⟨t, rfl⟩ := hal
      exact .inr ⟨hx, rfl, h.1, h.2.put hx ⟨rfl, rfl⟩ le_rfl⟩
    | _ => exact absurd hal id
  | appendAttempt x =>
    obtain ⟨ht, hi, -, hn, hlog⟩ := hal
    have hx : (x.tenant, x.messageId) = m.key := by rw [ht, hi]; rfl
    cases p with
    | doomed =>
      have := Shape.log (a := a) h hx hn
      rw [show x.outcome = .dead from hlog] at this
      exact this
    | accepted =>
      have := Shape.log (a := a) h hx hn
      rw [show x.outcome = .delivered from hlog] at this
      exact this
    | answered o =>
      cases o with
      | retryable =>
        obtain ⟨ho, -, hslot⟩ := hlog
        have := Shape.log (a := a) h hx hn
        rw [ho] at this
        exact ⟨hslot, this⟩
      | _ => exact absurd hlog id
    | _ => exact absurd hlog id
  | addToDlq x reason =>
    obtain ⟨rfl, rfl⟩ := hal
    exact Shape.bury h reason
  | scheduleRetry x t =>
    obtain rfl : p = .waiting x := hal
    rcases h with ⟨rfl, h⟩ | ⟨hx, hno, hslot, h⟩
    · exact .inl ⟨rfl, h.schedule rfl t⟩
    · exact .inr ⟨hx, hno, hslot, h.schedule hx t⟩
  | check url =>
    obtain rfl : p = .trying := hal
    dsimp only [Phase.next]
    split
    · exact h
    · exact Shape.mono h (Nat.le_succ n)
  | post url body headers timeoutMs =>
    obtain rfl : p = .trying := hal
    exact Shape.post h url body headers timeoutMs
  | recordEvent => exact absurd hal id
  | finalizeEvent => exact absurd hal id
  | matchEndpoints => exact absurd hal id
  | transportSend => exact absurd hal id
  | _ => exact h

theorem underway_carries (en : Engine) (h0 : Shape c0 m (fun _ => True) [] 0 [] n c0) :
    Carries en m (Underway en c0 m n) (fun _ => True) where
  answered _ _ _ _ _ hk hal h := underway_answered h0 hk hal h
  failed _ _ _ _ _ _ _ := trivial
  cut _ _ _ := trivial

/-- A settled pass leaves the message in one of its resting states. -/
theorem underway_resting (hlog : Log n c0.attempts) (hno : m.attemptNo = n)
    (hslot : n ≤ en.retry.scheduleMs.length) {p : Phase} (hp : p.settled)
    (h : Underway en c0 m n p c) : Resting en m.key c := by
  have hended : ∀ {outcome : AttemptOutcome} {status : MessageStatus} {rows : Nat},
      Shape c0 m (·.status = status) [outcome] rows [] (n + 1) c →
      Ended en outcome status rows c := by
    intro outcome status rows h
    obtain ⟨as, hat, hout, hnum⟩ := h.attempts
    obtain ⟨x, rfl⟩ : ∃ x, as = [x] := List.length_eq_one_iff.mp (by
      simpa using congrArg List.length hout)
    refine ⟨by simp [h.queued, h.pending], h.stored, ⟨n, c0.attempts, x, hat, hlog, ?_, ?_, hslot,
      h.posts⟩, h.dlq⟩
    · exact (hnum x List.mem_cons_self).trans hno
    · simpa using hout
  cases p with
  | delivered => exact .delivered (hended h)
  | buried => exact .dead (hended h)
  | scheduled x =>
    rcases h with ⟨rfl, h⟩ | ⟨hx, hxn, hlt, h⟩
    · obtain ⟨s, hs, hsn, hst⟩ := h.stored
      obtain ⟨as, hat, hout, -⟩ := h.attempts
      obtain rfl : as = [] := by simpa using hout
      refine .live x n rfl ⟨by simp [h.queued, h.pending], hno, ⟨s, hs, hsn.trans hno, .inr hst⟩,
        by simpa [hat] using hlog, hslot, List.length_eq_zero_iff.mp h.dlq, h.posts⟩
    · obtain ⟨s, hs, hsn, hst⟩ := h.stored
      obtain ⟨as, hat, hout, hnum⟩ := h.attempts
      obtain ⟨y, rfl⟩ : ∃ y, as = [y] := List.length_eq_one_iff.mp (by
        simpa using congrArg List.length hout)
      have hy := (hnum y List.mem_cons_self).trans hno
      refine .live x (n + 1) hx ⟨by simp [h.queued, h.pending], by rw [hxn, hno]; rfl,
        ⟨s, hs, by rw [hsn, hno]; rfl, .inr (.inl hst)⟩, ?_, ?_,
        List.length_eq_zero_iff.mp h.dlq, h.posts⟩
      · rw [hat]
        exact hlog.snoc hy (by simpa using hout)
      · rw [hno] at hlt
        exact_mod_cast hlt
  | _ => exact absurd hp id

end Pass

section Process
variable {lang : Lang} {en : Engine} {w : World} {m : Message} {n : Nat}

/-- The copy of a live message that was taken off the queue, and what is left of its card. -/
structure Taken (en : Engine) (m : Message) (n : Nat) (c0 : Card) : Prop where
  shape : Shape c0 m (fun _ => True) [] 0 [] n c0
  number : m.attemptNo = n
  log : Log n c0.attempts
  slot : n ≤ en.retry.scheduleMs.length

theorem processed_card (lang : Lang) (h : Taken en m n (card w m.key)) (answers : Nat → Answer) :
    (∀ key, m.key ≠ key → card (processed lang en w m answers) key = card w key) ∧
      Resting en m.key (card (processed lang en w m answers) m.key) := by
  have hobey := process_obeys lang.dialect en m
  have htotal := process_total lang.dialect en m
  rw [← Job.process_eq en { lang := lang, message := m }] at hobey htotal
  obtain ⟨hothers, hown⟩ := (underway_carries en h.shape).run hobey trivial rfl
    (unfailing answers)
  obtain ⟨u, s, hrun⟩ := htotal.run_ok (execSeq (some m) (unfailing answers))
    (fun _ _ => ⟨_, _, rfl⟩) (w, 0)
  refine ⟨hothers, ?_⟩
  have hok : (runSeq (some m) (unfailing answers)
      (Job.process en { lang := lang, message := m }) w).1 = .ok u := by simp [runSeq, hrun]
  rw [hok] at hown
  obtain ⟨p, hp, hu⟩ := hown
  exact underway_resting h.log h.number h.slot hp hu

/-- How far a pass over `m` gets. -/
def passOf (lang : Lang) (en : Engine) (w : World) (m : Message) (answers : Nat → Answer) :
    Except String Pass :=
  (runSeq (some m) (unfailing answers) (gates lang.dialect en m) w).1

/-- A throttled or blocked pass logs nothing and schedules the copy it was given. -/
theorem processed_waiting (h : Taken en m n (card w m.key)) (answers : Nat → Answer)
    (hpass : passOf lang en w m answers = .ok .throttled ∨
      passOf lang en w m answers = .ok .blocked) :
    (card (processed lang en w m answers) m.key).attempts = (card w m.key).attempts ∧
      (card (processed lang en w m answers) m.key).stored.map Message.attemptNo =
        some m.attemptNo ∧
      (card (processed lang en w m answers) m.key).pending = [m] := by
  have hgates := ((underway_carries en h.shape).run (gates_obeys lang.dialect en m) trivial
    rfl (unfailing answers)).2
  have hworld : processed lang en w m answers =
      (runSeq (some m) (unfailing answers) (gates lang.dialect en m) w).2 := by
    unfold processed
    rw [Job.process_eq, processWith_eq]
    unfold passOf runSeq at hpass
    simp only [runSeq, Prog.run_bind]
    cases hrun : (gates lang.dialect en m).run (execSeq (some m) (unfailing answers)) (w, 0) with
    | mk out s =>
      simp only [hrun] at hpass
      rcases hpass with rfl | rfl <;> rfl
  have hwait : Underway en (card w m.key) m n (.scheduled m)
      (card (processed lang en w m answers) m.key) := by
    rw [hworld]
    unfold passOf at hpass
    rcases hpass with hpass | hpass
    all_goals
      rw [hpass] at hgates
      obtain ⟨p, hp, hu⟩ := hgates
      rw [show p = .scheduled m from congrArg Prod.snd hp] at hu
      exact hu
  rcases hwait with ⟨-, hs⟩ | ⟨-, hno, -⟩
  · obtain ⟨as, hat, hout, -⟩ := hs.attempts
    obtain rfl : as = [] := by simpa using hout
    obtain ⟨s, hst, hsn, -⟩ := hs.stored
    exact ⟨by simpa using hat, by rw [hst]; exact congrArg some hsn, hs.pending⟩
  · omega

end Process

theorem Resting.inOrder {en : Engine} {key : String × String} {c : Card} (h : Resting en key c) :
    InOrder en c := by
  cases h with
  | live m n hk h => exact h.inOrder
  | delivered h => exact h.inOrder (.inl rfl) rfl (by simp) (by simp)
  | dead h => exact h.inOrder (.inr rfl) rfl (by simp) (by simp)

/-! ## Steps of a run -/

/-- Messages that were sent rest; nothing is known of any other. -/
structure Orderly (en : Engine) (r : Run) : Prop where
  resting : ∀ m ∈ r.sent, Resting en m.key (card r.world m.key)
  blank : ∀ key, key ∉ r.sent.map Message.key → card r.world key = Card.blank

theorem orderly_start (en : Engine) : Orderly en Run.start where
  resting _ h := by cases h
  blank _ _ := rfl

section Steps
variable {lang : Lang} {en : Engine} {r : Run}

theorem Orderly.of_cards (h : Orderly en r) {w : World}
    (hc : ∀ key, card w key = card r.world key) :
    Orderly en { r with world := w } :=
  ⟨fun m hm => by rw [hc]; exact h.resting m hm, fun key hk => by rw [hc]; exact h.blank key hk⟩

/-- Copies may move between transport and scheduler. -/
theorem Resting.of_perm {key : String × String} {c c' : Card} (h : Resting en key c)
    (hp : (c'.queued ++ c'.pending).Perm (c.queued ++ c.pending)) (hs : c'.stored = c.stored)
    (ha : c'.attempts = c.attempts) (hd : c'.dlq = c.dlq) (hn : c'.answers = c.answers) :
    Resting en key c' := by
  cases h with
  | live m n hk h =>
    refine .live m n hk ⟨?_, h.number, hs ▸ h.stored, ha ▸ h.log, h.slot, hd ▸ h.dlq, hn ▸ h.posts⟩
    rw [h.copies] at hp
    exact List.perm_singleton.mp hp
  | delivered h =>
    refine .delivered ⟨?_, hs ▸ h.stored, by rw [ha, hn]; exact h.log, hd ▸ h.dlq⟩
    rw [h.copies] at hp
    exact hp.eq_nil
  | dead h =>
    refine .dead ⟨?_, hs ▸ h.stored, by rw [ha, hn]; exact h.log, hd ▸ h.dlq⟩
    rw [h.copies] at hp
    exact hp.eq_nil

/-- Releasing what is due keeps every copy. -/
theorem advance_perm (w : World) (now : Time) (key : String × String) :
    ((card (w.advance now) key).queued ++ (card (w.advance now) key).pending).Perm
      ((card w key).queued ++ (card w key).pending) := by
  have hsplit := List.filter_append_perm (fun p : Time × Message => decide (p.1 ≤ now)) w.pending
  have hlate : (fun p : Time × Message => !decide (p.1 ≤ now)) = fun p => decide (now < p.1) := by
    funext p
    rw [← decide_not]
    simp only [not_le]
  have hmap := (hsplit.map Prod.snd).filter fun m => decide (m.key = key)
  simp only [List.map_append, List.filter_append, hlate] at hmap
  simp only [card, World.advance, List.filter_append, List.append_assoc]
  exact hmap.append_left _

/-- Nothing is released of a message that is not known. -/
theorem blank_advance {w : World} {key : String × String} (hb : card w key = Card.blank)
    (now : Time) : card (w.advance now) key = Card.blank := by
  have hp := advance_perm w now key
  have hnil : (card (w.advance now) key).queued ++ (card (w.advance now) key).pending = [] := by
    rw [hb] at hp
    exact hp.eq_nil
  obtain ⟨hq, hpe⟩ := List.append_eq_nil_iff.mp hnil
  have hrest : card (w.advance now) key = { card w key with
      queued := (card (w.advance now) key).queued
      pending := (card (w.advance now) key).pending } := rfl
  rw [hrest, hq, hpe, hb]
  rfl

theorem Orderly.advance (h : Orderly en r) (now : Time) :
    Orderly en { r with world := r.world.advance now } := by
  refine ⟨fun m hm => ?_, fun key hk => blank_advance (h.blank key hk) now⟩
  exact (h.resting m hm).of_perm (advance_perm _ _ _) rfl rfl rfl rfl

/-- Among messages with distinct keys, one key names one message. -/
theorem filter_key {ms : List Message} (hn : (ms.map Message.key).Nodup) {m : Message}
    (hm : m ∈ ms) : (ms.filter fun x => x.key = m.key) = [m] := by
  induction ms with
  | nil => cases hm
  | cons y rest ih =>
    obtain ⟨hy, hr⟩ := List.nodup_cons.mp hn
    rcases List.mem_cons.mp hm with rfl | hm
    · have hnone : rest.filter (fun x => decide (x.key = m.key)) = [] := by
        refine List.filter_eq_nil_iff.mpr fun x hx => ?_
        have : x.key ≠ m.key := fun he => hy (he ▸ List.mem_map_of_mem hx)
        simpa using this
      simp [hnone]
    · have hne : y.key ≠ m.key := fun he => hy (he ▸ List.mem_map_of_mem hm)
      simpa [hne] using ih hr hm

theorem Orderly.send (h : Orderly en r) (event : SendEvent) (answers : Nat → Answer)
    (hn : ((Run.step lang en r (.send event answers)).sent.map Message.key).Nodup) :
    Orderly en (Run.step lang en r (.send event answers)) := by
  obtain ⟨sent, hfresh, hq, hc⟩ := send_run lang en event answers r.world
  have hnew : (accepted lang en r.world event answers).queue.drop r.world.queue.length = sent := by
    rw [accepted, hq]; simp
  have hstep : Run.step lang en r (.send event answers) =
      { world := accepted lang en r.world event answers, sent := r.sent ++ sent } := by
    rw [← hnew]; rfl
  rw [hstep] at hn ⊢
  simp only [List.map_append] at hn
  obtain ⟨-, hns, hdisj⟩ := List.nodup_append.mp hn
  have hcard : ∀ key, card (accepted lang en r.world event answers) key =
      withSent (card r.world key) key sent := hc
  have hsame : ∀ key, key ∉ sent.map Message.key →
      card (accepted lang en r.world event answers) key = card r.world key := by
    intro key hk
    have hnil : sent.filter (fun m => decide (m.key = key)) = [] := by
      refine List.filter_eq_nil_iff.mpr fun m hm => ?_
      have : m.key ≠ key := fun he => hk (he ▸ List.mem_map_of_mem hm)
      simpa using this
    rw [hcard]
    simp [withSent, hnil]
  refine ⟨fun m hm => ?_, fun key hk => ?_⟩
  · rcases List.mem_append.mp hm with hm | hm
    · rw [hsame m.key fun he => hdisj _ (List.mem_map_of_mem hm) _ he rfl]
      exact h.resting m hm
    · have hblank := h.blank m.key fun he => hdisj _ he _ (List.mem_map_of_mem hm) rfl
      obtain ⟨hst, hno⟩ := hfresh m hm
      have hm' : card (accepted lang en r.world event answers) m.key =
          { Card.blank with stored := some m, queued := [m] } := by
        rw [hcard, hblank]
        simp [withSent, filter_key hns hm, Card.blank]
      rw [hm']
      have hlog : Log 0 Card.blank.attempts := ⟨rfl, by simp [Card.blank]⟩
      exact .live m 0 rfl ⟨rfl, hno, ⟨m, rfl, hno, .inl hst⟩, hlog, Nat.zero_le _, rfl, le_rfl⟩
  · have hk' : key ∉ r.sent.map Message.key ∧ key ∉ sent.map Message.key := by
      simpa [List.map_append] using hk
    rw [hsame key hk'.2]
    exact h.blank key hk'.1

/-- A queued message is one that was sent, and the only copy of it. -/
theorem Orderly.taken (h : Orderly en r) {k : Nat} {m : Message} (hk : r.world.queue[k]? = some m) :
    m.key ∈ r.sent.map Message.key ∧ ∃ n, Taken en m n (card (dequeue r.world k) m.key) := by
  have hmem : m ∈ (card r.world m.key).queued :=
    List.mem_filter.mpr ⟨List.mem_of_getElem? hk, by simp⟩
  have hsent : m.key ∈ r.sent.map Message.key := by
    by_contra hno
    rw [h.blank m.key hno] at hmem
    cases hmem
  refine ⟨hsent, ?_⟩
  obtain ⟨x, hx, hxk⟩ := List.mem_map.mp hsent
  have hrest := h.resting x hx
  rw [hxk] at hrest
  have hnocopy : ∀ {c : Card}, c.queued ++ c.pending = [] → m ∈ c.queued → False := by
    intro c hc hm
    rw [(List.append_eq_nil_iff.mp hc).1] at hm
    cases hm
  cases hrest with
  | delivered hd => exact (hnocopy hd.copies hmem).elim
  | dead hd => exact (hnocopy hd.copies hmem).elim
  | live y n hy hl =>
    obtain ⟨s, hs, -⟩ := hl.stored
    have hone : (card r.world m.key).queued = [m] ∧ (card r.world m.key).pending = [] := by
      rcases List.append_eq_singleton_iff.mp hl.copies with ⟨hq, -⟩ | ⟨hq, hp⟩
      · rw [hq] at hmem; cases hmem
      · rw [hq, List.mem_singleton] at hmem
        subst hmem
        exact ⟨hq, hp⟩
    have hym : y = m := by
      have := hl.copies
      rw [hone.1, hone.2] at this
      exact (by simpa using this : m = y).symm
    subst hym
    have hq0 : (card (dequeue r.world k) y.key).queued = [] := by
      have hlen := filter_eraseIdx_length (P := fun z => decide (z.key = y.key)) hk (by simp)
      have hfull : (r.world.queue.filter fun z => decide (z.key = y.key)) = [y] := hone.1
      rw [hfull] at hlen
      exact List.length_eq_zero_iff.mp (Nat.succ.inj hlen)
    exact ⟨n, shape_start ⟨s, hs⟩ hl.dlq hq0 hone.2 hl.posts, hl.number, hl.log, hl.slot⟩

theorem card_dequeue {w : World} {k : Nat} {m : Message} (hk : w.queue[k]? = some m)
    {key : String × String} (hne : m.key ≠ key) : card (dequeue w k) key = card w key := by
  have hf := filter_eraseIdx (P := fun x => decide (x.key = key)) hk (by simpa using hne)
  simp [card, dequeue, hf]

theorem Orderly.process (h : Orderly en r) {k : Nat} {m : Message}
    (hk : r.world.queue[k]? = some m) (answers : Nat → Answer) :
    Orderly en { r with world := processed lang en (dequeue r.world k) m answers } := by
  obtain ⟨hsent, n, ht⟩ := h.taken hk
  obtain ⟨hothers, hown⟩ := processed_card lang ht answers
  refine ⟨fun x hx => ?_, fun key hkey => ?_⟩
  · by_cases hxm : m.key = x.key
    · rw [← hxm]; exact hown
    · rw [hothers _ hxm, card_dequeue hk hxm]
      exact h.resting x hx
  · have hne : m.key ≠ key := fun he => hkey (he ▸ hsent)
    rw [hothers _ hne, card_dequeue hk hne]
    exact h.blank key hkey

theorem Orderly.step (lang : Lang) (h : Orderly en r) (e : Step)
    (hn : ((Run.step lang en r e).sent.map Message.key).Nodup) :
    Orderly en (Run.step lang en r e) := by
  cases e with
  | create input id secret now =>
    exact h.of_cards (card_modify r.world _ _ fun _ => ⟨rfl, rfl, rfl⟩)
  | update t id patch => exact h.of_cards (card_update r.world t id patch)
  | rotate t id secret => exact h.of_cards (card_rotate r.world t id secret)
  | delete t id => exact h.of_cards (card_modify r.world _ _ fun _ => ⟨rfl, rfl, rfl⟩)
  | send event answers => exact h.send event answers hn
  | process k answers =>
    cases hk : r.world.queue[k]? with
    | some m => simpa [Run.step, hk] using h.process hk answers
    | none => simpa [Run.step, hk] using h
  | advance now => exact h.advance now

theorem sent_grows (steps : List Step) : r.sent <+: (Run.run lang en r steps).sent := by
  induction steps generalizing r with
  | nil => exact List.prefix_rfl
  | cons e steps ih =>
    refine List.IsPrefix.trans ?_ ih
    cases e with
    | send event answers => exact List.prefix_append _ _
    | process k answers => simp only [Run.step]; split <;> exact List.prefix_rfl
    | _ => exact List.prefix_rfl

theorem Orderly.run (lang : Lang) (h : Orderly en r) (steps : List Step)
    (hn : ((Run.run lang en r steps).sent.map Message.key).Nodup) :
    Orderly en (Run.run lang en r steps) := by
  induction steps generalizing r with
  | nil => exact h
  | cons e steps ih =>
    refine ih (h.step lang e ?_) hn
    exact hn.sublist ((sent_grows steps).sublist.map _)

end Steps

/-- **The delivery state machine.** After every run whose generated message ids are
distinct, every fanned-out message is in order; and a throttled or blocked pass over a
queued message logs no attempt, stores the same attempt number and schedules the same
copy. -/
theorem delivery_state_machine (lang : Lang) (en : Engine) (steps : List Step)
    (hids : ((Run.run lang en Run.start steps).sent.map Message.key).Nodup) :
    (∀ m ∈ (Run.run lang en Run.start steps).sent,
      InOrder en (card (Run.run lang en Run.start steps).world m.key)) ∧
    ∀ k m answers, (Run.run lang en Run.start steps).world.queue[k]? = some m →
      let w := dequeue (Run.run lang en Run.start steps).world k
      passOf lang en w m answers = .ok .throttled ∨ passOf lang en w m answers = .ok .blocked →
      (card (processed lang en w m answers) m.key).attempts = (card w m.key).attempts ∧
        (card (processed lang en w m answers) m.key).stored.map Message.attemptNo =
          some m.attemptNo ∧
        (card (processed lang en w m answers) m.key).pending = [m] := by
  have h := (orderly_start en).run lang steps hids
  refine ⟨fun m hm => (h.resting m hm).inOrder, fun k m answers hk => ?_⟩
  obtain ⟨-, n, ht⟩ := h.taken hk
  exact processed_waiting ht answers

/-- An endpoint, an event, a failed attempt, the wake-up and the delivery. -/
def oneDelivery : List Step :=
  [.create anyEvent "ep_1" "whsec_1" 0,
    .send orderCreated (fun _ => answering 0 .network),
    .process 0 (fun _ => answering 0 (.response 503 "" none)),
    .advance 1000,
    .process 0 (fun _ => answering 1000 (.response 200 "" none))]

theorem oneDelivery_inOrder :
    ((Run.run .ts (plainEngine 5) Run.start oneDelivery).sent.map Message.key).Nodup ∧
      (Run.run .ts (plainEngine 5) Run.start oneDelivery).sent.length = 1 ∧
      ∀ m ∈ (Run.run .ts (plainEngine 5) Run.start oneDelivery).sent,
        InOrder (plainEngine 5)
          (card (Run.run .ts (plainEngine 5) Run.start oneDelivery).world m.key) := by
  have hids : ((Run.run .ts (plainEngine 5) Run.start oneDelivery).sent.map Message.key).Nodup := by
    decide +kernel
  exact ⟨hids, by decide +kernel, (delivery_state_machine .ts (plainEngine 5) oneDelivery hids).1⟩

end Anyhook.Delivery
