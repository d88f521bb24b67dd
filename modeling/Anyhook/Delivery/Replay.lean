import Anyhook.Delivery.Machine
import Anyhook.Lib.Run

/-! Replay (packages/core/src/portal/deliveries.ts) in runs of the delivery machine. The
dead-letter rows of the store are only ever added to, so a bulk replay enqueues a message
once for each time it died, whatever became of it since, and a single replay enqueues
whatever is stored. -/
namespace Anyhook.Delivery
open Anyhook.Core Anyhook.Testing Anyhook.Lib.Program Anyhook.Lib.Run

/-! ## The handlers -/

/-- The id stays; a replay is the same logical delivery. -/
def freshCopy (m : Message) (now : Time) : Message :=
  { m with attemptNo := 0, status := .pending, nextAttemptAt := none, createdAt := now }

def enqueue (w : World) (fresh : Message) : World :=
  { w with store := w.store.putMessage fresh, queue := w.queue ++ [fresh] }

def reenqueue (w : World) (m : Message) (now : Time) : World := enqueue w (freshCopy m now)

/-- The answer of `replay`, and the world it leaves. -/
def replay (w : World) (tenant messageId : String) (now : Time) : Bool × World :=
  match w.store.getMessage tenant messageId with
  | none => (false, w)
  | some m => (true, reenqueue w m now)

/-- The dead-letter rows a bulk replay goes through. -/
def selected (w : World) (tenant endpointId : String) (since : Option Time) : List Message :=
  ((w.store.listDlq tenant (some endpointId)).filter fun d =>
    since.all fun t => d.message.createdAt ≥ t).map DlqRow.message

/-- The `n`-th row is enqueued at `clock n`. -/
def replayEndpoint (w : World) (tenant endpointId : String) (since : Option Time)
    (clock : Nat → Time) : Nat × World :=
  let ms := selected w tenant endpointId since
  (ms.length, ms.zipIdx.foldl (fun w p => reenqueue w p.1 (clock p.2)) w)

/-- What a bulk replay puts on the transport. -/
def freshCopies (clock : Nat → Time) (ms : List Message) : List Message :=
  ms.zipIdx.map fun p => freshCopy p.1 (clock p.2)

/-! ## Copies on the transport and in the scheduler -/

def Card.copies (c : Card) : List Message := c.queued ++ c.pending

theorem card_enqueue (w : World) (m : Message) (key : String × String) :
    card (enqueue w m) key = withSent (card w key) key [m] := by
  -- Neither write asks the environment anything.
  let idle := answering 0 .network
  have hboth := card_exec none idle (.transportSend m) (exec none idle (.putMessage m) w).2 key
  rw [card_exec none idle (.putMessage m)] at hboth
  refine Eq.trans hboth ?_
  by_cases hk : m.key = key <;> simp [touch, withSent, hk]

theorem withSent_append (c : Card) (key : String × String) (ms ms' : List Message) :
    withSent (withSent c key ms) key ms' = withSent c key (ms ++ ms') := by
  simp only [withSent, List.filter_append, List.append_assoc, List.getLast?_append]
  simp [Option.or_assoc]

theorem enqueue_all (w : World) (ms : List Message) :
    (ms.foldl enqueue w).queue = w.queue ++ ms ∧ (ms.foldl enqueue w).pending = w.pending ∧
      ∀ key, card (ms.foldl enqueue w) key = withSent (card w key) key ms := by
  induction ms generalizing w with
  | nil => simp [withSent]
  | cons m rest ih =>
    obtain ⟨hq, hp, hc⟩ := ih (enqueue w m)
    refine ⟨?_, hp, fun key => ?_⟩
    · rw [List.foldl_cons, hq]
      simp [enqueue]
    · rw [List.foldl_cons, hc, card_enqueue, withSent_append]
      rfl

theorem replayEndpoint_world (w : World) (tenant endpointId : String) (since : Option Time)
    (clock : Nat → Time) : (replayEndpoint w tenant endpointId since clock).2 =
      (freshCopies clock (selected w tenant endpointId since)).foldl enqueue w := by
  simp only [replayEndpoint, freshCopies, List.foldl_map]
  rfl

theorem length_copies_withSent (c : Card) (key : String × String) (ms : List Message) :
    (Card.copies (withSent c key ms)).length =
      (Card.copies c).length + (ms.filter fun m => m.key = key).length := by
  simp only [Card.copies, withSent, List.length_append]
  omega

/-- A fresh copy has the key of its message. -/
theorem freshCopies_keys (clock : Nat → Time) (ms : List Message) :
    (freshCopies clock ms).map Message.key = ms.map Message.key := by
  unfold freshCopies
  rw [List.map_map, ← List.zipIdx_map_fst 0 ms, List.map_map, List.zipIdx_map_fst]
  rfl

theorem mem_freshCopies {clock : Nat → Time} {ms : List Message} {x : Message}
    (hx : x ∈ freshCopies clock ms) : ∃ m ∈ ms, x.key = m.key := by
  have hk := List.mem_map_of_mem (f := Message.key) hx
  rw [freshCopies_keys] at hk
  obtain ⟨m, hm, he⟩ := List.mem_map.mp hk
  exact ⟨m, hm, he.symm⟩

theorem filter_freshCopies (clock : Nat → Time) (ms : List Message) (key : String × String) :
    ((freshCopies clock ms).filter fun m => m.key = key).length =
      (ms.filter fun m => m.key = key).length := by
  have hcount : ∀ l : List Message, (l.filter fun m => m.key = key).length =
      (l.map Message.key).count key := by
    intro l
    rw [← List.countP_eq_length_filter, List.count, List.countP_map]
    exact List.countP_congr fun m _ => by simp
  rw [hcount, hcount, freshCopies_keys]

/-! ## One pass over a copy -/

/-- The dead-letter rows of a message say where it died, as its attempt log does. -/
def Card.graves (c : Card) : List String := c.dlq.map fun r => r.message.endpointId

def Card.deadLog (c : Card) : List String :=
  (c.attempts.filter fun a => a.outcome = .dead).map Attempt.endpointId

/-- The copy a pass has scheduled so far. -/
def Phase.scheduledCopy : Phase → List Message
  | .scheduled x => [x]
  | _ => []

/-- The death a pass has logged and not yet written down. -/
def Phase.unburied (m : Message) : Phase → List String
  | .mourned => [m.endpointId]
  | _ => []

/-- What a pass over `m` has made of its card `c0` so far. -/
structure Booked (c0 : Card) (m : Message) (p : Phase) (c : Card) : Prop where
  queued : c.queued = c0.queued
  pending : c.pending = c0.pending ++ p.scheduledCopy
  graves : Card.graves c ++ p.unburied m = Card.deadLog c
  dead : ∀ s, c.stored = some s → s.status = .dead →
    s.endpointId ∈ Card.graves c ∨ (p = .doomed ∨ p = .mourned) ∧ s.endpointId = m.endpointId

section Pass
variable {en : Engine} {c0 c : Card} {m : Message} {p : Phase} {a : Answer}

/-- Outside the two steps of a burial, a message stored as dead has its row. -/
theorem Booked.known (h : Booked c0 m p c) (hp : ¬(p = .doomed ∨ p = .mourned)) {s : Message}
    (hs : c.stored = some s) (hst : s.status = .dead) : s.endpointId ∈ Card.graves c := by
  rcases h.dead s hs hst with hin | ⟨hopen, -⟩
  · exact hin
  · exact absurd hopen hp

/-- A phase in which nothing is scheduled and no death is open. -/
def Phase.plain : Phase → Prop
  | .scheduled _ | .doomed | .mourned => False
  | _ => True

theorem Booked.put (h : Booked c0 m p c) (hp : p.plain) {x : Message} (hk : x.key = m.key)
    {p' : Phase} (hp' : p'.scheduledCopy = [] ∧ p'.unburied m = [])
    (hx : x.status = .dead → p' = .doomed ∧ x.endpointId = m.endpointId) :
    Booked c0 m p' (touch (some m) a m.key (.putMessage x) c) := by
  obtain ⟨hq, hpe, hg, hd⟩ := h
  have hnone : p.scheduledCopy = [] ∧ p.unburied m = [] := by
    cases p <;> first | exact ⟨rfl, rfl⟩ | exact absurd hp id
  simp only [touch, hk, if_true]
  refine ⟨hq, ?_, ?_, fun s hs hst => ?_⟩
  · rw [hp'.1, ← hnone.1]; exact hpe
  · rw [hp'.2, ← hnone.2]; exact hg
  · obtain rfl : x = s := Option.some.inj hs
    obtain ⟨hdoom, he⟩ := hx hst
    exact .inr ⟨.inl hdoom, he⟩

theorem booked_answered {op : Op} {r : Res op} (hk : p.keyed m) (hal : p.allows en m op)
    (h : Booked c0 m p c) : Booked c0 m (p.next m op r) (touch (some m) a m.key op c) := by
  cases op with
  | putMessage x =>
    have hx : x.key = m.key := (Phase.stores_same hal).key
    cases p with
    | begun =>
      obtain rfl | rfl | rfl | ⟨t, rfl⟩ := hal
      · exact h.put trivial hx ⟨rfl, rfl⟩ fun _ => ⟨rfl, rfl⟩
      · exact h.put trivial hx ⟨rfl, rfl⟩ fun hst => by cases hst
      · exact h.put trivial hx ⟨rfl, rfl⟩ fun hst => by cases hst
      · exact h.put trivial hx ⟨rfl, rfl⟩ fun hst => by cases hst
    | answered o =>
      cases o with
      | delivered => obtain rfl := hal; exact h.put trivial hx ⟨rfl, rfl⟩ fun hst => by cases hst
      | permanent => obtain rfl := hal; exact h.put trivial hx ⟨rfl, rfl⟩ fun _ => ⟨rfl, rfl⟩
      | retryable => obtain rfl := hal; exact h.put trivial hx ⟨rfl, rfl⟩ fun _ => ⟨rfl, rfl⟩
    | failed => obtain ⟨t, rfl⟩ := hal; exact h.put trivial hx ⟨rfl, rfl⟩ fun hst => by cases hst
    | _ => exact absurd hal id
  | appendAttempt x =>
    obtain ⟨ht, hi, he, -, hlog⟩ := hal
    have hx : (x.tenant, x.messageId) = m.key := by rw [ht, hi]; rfl
    have hq := h.queued
    have hpe := h.pending
    have hg := h.graves
    simp only [touch, hx, if_true]
    have hdead : x.outcome ≠ .dead → Card.deadLog { c with attempts := c.attempts ++ [x] } =
        Card.deadLog c := by
      intro ho
      simp [Card.deadLog, ho]
    cases p with
    | doomed =>
      have ho : x.outcome = .dead := hlog
      refine ⟨hq, hpe, ?_, fun s hs hst => ?_⟩
      · have hlogged : Card.deadLog { c with attempts := c.attempts ++ [x] } =
            Card.deadLog c ++ [m.endpointId] := by simp [Card.deadLog, ho, he]
        rw [hlogged, ← hg]
        simp [Phase.next, Phase.unburied, Card.graves]
      · rcases h.dead s hs hst with hin | ⟨-, he'⟩
        · exact .inl hin
        · exact .inr ⟨.inr rfl, he'⟩
    | accepted =>
      have ho : x.outcome = .delivered := hlog
      refine ⟨hq, hpe, ?_, fun s hs hst => .inl (h.known (by simp) hs hst)⟩
      rw [hdead (by rw [ho]; simp)]
      exact hg
    | answered o =>
      cases o with
      | retryable =>
        refine ⟨hq, hpe, ?_, fun s hs hst => .inl (h.known (by simp) hs hst)⟩
        rw [hdead (by rw [hlog.1]; simp)]
        exact hg
      | _ => exact absurd hlog id
    | _ => exact absurd hlog id
  | addToDlq x reason =>
    obtain ⟨rfl, rfl⟩ := hal
    obtain ⟨hq, hpe, hg, hd⟩ := h
    simp only [touch, if_true]
    have hrows : Card.graves { c with dlq := c.dlq ++ [{ message := x, reason := reason }] } =
        Card.graves c ++ [x.endpointId] := by simp [Card.graves]
    refine ⟨hq, hpe, ?_, fun s hs hst => ?_⟩
    · rw [hrows]
      exact (List.append_nil _).trans hg
    · rw [hrows]
      rcases hd s hs hst with h1 | ⟨-, h1⟩
      · exact .inl (List.mem_append_left _ h1)
      · exact .inl (by simp [h1])
  | scheduleRetry x t =>
    obtain rfl : p = .waiting x := hal
    have hx : x.key = m.key := Same.key hk
    simp only [touch, hx, if_true]
    refine ⟨h.queued, ?_, h.graves, fun s hs hst => .inl (h.known (by simp) hs hst)⟩
    simpa [Phase.next, Phase.scheduledCopy] using h.pending
  | check url =>
    obtain rfl : p = .trying := hal
    dsimp only [Phase.next]
    split
    · exact h
    · exact ⟨h.queued, h.pending, h.graves, fun s hs hst => .inl (h.known (by simp) hs hst)⟩
  | post url body headers timeoutMs =>
    obtain rfl : p = .trying := hal
    simp only [touch, Option.map_some, if_true]
    exact ⟨h.queued, h.pending, h.graves, fun s hs hst => .inl (h.known (by simp) hs hst)⟩
  | recordEvent => exact absurd hal id
  | finalizeEvent => exact absurd hal id
  | matchEndpoints => exact absurd hal id
  | transportSend => exact absurd hal id
  | _ => exact h

theorem booked_carries (en : Engine) (c0 : Card) (m : Message) :
    Carries en m (Booked c0 m) (fun _ => True) where
  answered _ _ _ _ _ hk hal h := booked_answered hk hal h
  failed _ _ _ _ _ _ _ := trivial
  cut _ _ _ := trivial

/-- Between two passes: one row for each logged death, and a row for a message that is dead. -/
structure Tally (c : Card) : Prop where
  graves : Card.graves c = Card.deadLog c
  dead : ∀ s, c.stored = some s → s.status = .dead → s.endpointId ∈ Card.graves c

theorem Tally.booked (h : Tally c0) (m : Message) : Booked c0 m .begun c0 :=
  ⟨rfl, (List.append_nil _).symm, (List.append_nil _).trans h.graves,
    fun s hs hst => .inl (h.dead s hs hst)⟩

theorem Booked.tally (h : Booked c0 m p c) (hp : p.settled) : Tally c := by
  have hopen : p.unburied m = [] ∧ ¬(p = .doomed ∨ p = .mourned) := by
    cases p <;> first | exact absurd hp id | exact ⟨rfl, by simp⟩
  refine ⟨?_, fun s hs hst => h.known hopen.2 hs hst⟩
  have hg := h.graves
  rw [hopen.1, List.append_nil] at hg
  exact hg

/-- **A whole pass** leaves other cards alone, takes nothing off the queues and schedules
at most one copy. -/
theorem processed_booked (en : Engine) (lang : Lang) {w : World} (h : Tally (card w m.key))
    (answers : Nat → Answer) :
    (∀ key, m.key ≠ key → card (processed lang en w m answers) key = card w key) ∧
      Tally (card (processed lang en w m answers) m.key) ∧
      (Card.copies (card (processed lang en w m answers) m.key)).length ≤
        (Card.copies (card w m.key)).length + 1 := by
  have hobey := process_obeys lang.dialect en m
  have htotal := process_total lang.dialect en m
  rw [← Job.process_eq en { lang := lang, message := m }] at hobey htotal
  obtain ⟨hothers, hown⟩ := (booked_carries en (card w m.key) m).run hobey trivial (h.booked m)
    (unfailing answers)
  obtain ⟨u, s, hrun⟩ := htotal.run_ok (execSeq (some m) (unfailing answers))
    (fun _ _ => ⟨_, _, rfl⟩) (w, 0)
  have hok : (runSeq (some m) (unfailing answers)
      (Job.process en { lang := lang, message := m }) w).1 = .ok u := by simp [runSeq, hrun]
  rw [hok] at hown
  obtain ⟨p, hp, hb⟩ := hown
  refine ⟨hothers, hb.tally hp, ?_⟩
  have hone : p.scheduledCopy.length ≤ 1 := by cases p <;> simp [Phase.scheduledCopy]
  have hq := congrArg List.length hb.queued
  have hpe := congrArg List.length hb.pending
  rw [List.length_append] at hpe
  unfold Card.copies processed
  rw [List.length_append, List.length_append]
  omega

end Pass

/-! ## Runs with replays -/

inductive Act where
  | step (e : Step)
  | replay (tenant messageId : String) (now : Time)
  | replayEndpoint (tenant endpointId : String) (since : Option Time) (clock : Nat → Time)

section Acting
variable (lang : Lang) (en : Engine)

def Run.act (r : Run) : Act → Run
  | .step e => r.step lang en e
  | .replay t id now => { r with world := (replay r.world t id now).2 }
  | .replayEndpoint t id since clock =>
    { r with world := (replayEndpoint r.world t id since clock).2 }

def Run.acts (r : Run) (as : List Act) : Run := as.foldl (Run.act lang en) r

end Acting

/-- Messages are stored, and dead-letter rows filed, under their own tenant and id. -/
structure Own (w : World) : Prop where
  rows : ∀ t, ∀ row ∈ (w.store.tenants t).dlq, row.message.tenant = t
  stored : ∀ key s, (card w key).stored = some s → s.key = key

structure Accounted (w : World) : Prop where
  tally : ∀ key, Tally (card w key)
  own : Own w

section Accounts
variable {lang : Lang} {en : Engine} {r : Run} {w : World}

theorem accounted_empty : Accounted World.empty :=
  ⟨fun _ => ⟨rfl, nofun⟩, fun _ => nofun, fun _ => nofun⟩

theorem Own.exec (h : Own w) (self : Option Message) (a : Answer) (op : Op) :
    Own (exec self a op w).2 := by
  refine ⟨fun t row hrow => ?_, fun key s hs => ?_⟩
  · rw [exec_dlq] at hrow
    cases op with
    | addToDlq m reason =>
      dsimp only at hrow
      split at hrow
      · next hm =>
        rcases List.mem_append.mp hrow with hrow | hrow
        · exact h.rows t row hrow
        · rw [List.mem_singleton.mp hrow]; exact hm
      · exact h.rows t row hrow
    | _ => exact h.rows t row hrow
  · rw [card_exec] at hs
    cases op with
    | putMessage m =>
      dsimp only [touch] at hs
      split at hs
      · next hm => rw [← Option.some.inj hs]; exact hm
      · exact h.stored key s hs
    | _ =>
      dsimp only [touch] at hs
      try split at hs
      all_goals exact h.stored key s hs

theorem Own.runSeq (h : Own w) {α : Type} (self : Option Message) (inputs : Nat → Input)
    (p : Eng α) : Own (runSeq self inputs p w).2 := by
  have hstep : ∀ op (s : World × Nat), Own s.1 → Own (execSeq self inputs op s).2.1 := ?_
  · exact Prog.run_keeps (I := fun s : World × Nat => Own s.1) hstep p (s := (w, 0)) h
  intro op s hs
  simp only [execSeq, execFault]
  cases (inputs s.2).2 with
  | none => exact hs.exec self _ op
  | before => exact hs
  | after => exact hs.exec self _ op

theorem Tally.sent {c : Card} (h : Tally c) (key : String × String) {ms : List Message}
    (hms : ∀ m ∈ ms, m.status = .pending) : Tally (withSent c key ms) := by
  refine ⟨h.graves, fun s hs hst => ?_⟩
  rcases Option.or_eq_some_iff.mp hs with hlast | ⟨-, hold⟩
  · have hmem := (List.mem_filter.mp (List.mem_of_getLast? hlast)).1
    rw [hms s hmem] at hst
    cases hst
  · exact h.dead s hold hst

/-- Rows and logs are the tenants' data; endpoints and queues do not matter. -/
theorem Accounted.of_tenants (h : Accounted w) {w' : World}
    (ht : ∀ t, ∃ endpoints, w'.store.tenants t =
      { w.store.tenants t with endpoints := endpoints }) : Accounted w' := by
  have hcard : ∀ key, card w' key = { card w key with
      queued := (card w' key).queued, pending := (card w' key).pending
      answers := (card w' key).answers } := by
    intro key
    obtain ⟨endpoints, hkey⟩ := ht key.1
    simp only [card, MemoryStateStore.getMessage, MemoryStateStore.attemptsOf,
      MemoryStateStore.listDlq, hkey]
  refine ⟨fun key => ?_, fun t row hrow => ?_, fun key s hs => ?_⟩
  · obtain ⟨hg, hd⟩ := h.tally key
    rw [hcard]
    exact ⟨hg, hd⟩
  · obtain ⟨endpoints, hkey⟩ := ht t
    rw [hkey] at hrow
    exact h.own.rows t row hrow
  · rw [hcard] at hs
    exact h.own.stored key s hs

theorem Accounted.change (h : Accounted w) (change : Change) : Accounted (change.apply w) :=
  h.of_tenants (change.apply_tenants w)

theorem Own.enqueue (h : Own w) (m : Message) : Own (enqueue w m) :=
  (h.exec none (answering 0 .network) (.putMessage m)).exec none (answering 0 .network)
    (.transportSend m)

theorem Accounted.enqueue_all (h : Accounted w) {ms : List Message}
    (hms : ∀ m ∈ ms, m.status = .pending) : Accounted (ms.foldl enqueue w) := by
  refine ⟨fun key => ?_, ?_⟩
  · rw [(Delivery.enqueue_all w ms).2.2]
    exact (h.tally key).sent key hms
  · obtain ⟨-, hown⟩ := h
    clear hms
    induction ms generalizing w with
    | nil => exact hown
    | cons m rest ih => exact ih (hown.enqueue m)

theorem Accounted.processed (h : Accounted w) (lang : Lang) (m : Message)
    (answers : Nat → Answer) : Accounted (Delivery.processed lang en w m answers) := by
  obtain ⟨hothers, hown, -⟩ := processed_booked en lang (h.tally m.key) answers
  refine ⟨fun key => ?_, h.own.runSeq _ _ _⟩
  by_cases hk : m.key = key
  · subst hk; exact hown
  · rw [hothers key hk]; exact h.tally key

theorem Accounted.accepted (h : Accounted w) (lang : Lang) (event : SendEvent)
    (answers : Nat → Answer) : Accounted (Delivery.accepted lang en w event answers) := by
  obtain ⟨sent, hfresh, -, hc⟩ := send_run lang en event answers w
  refine ⟨fun key => ?_, h.own.runSeq _ _ _⟩
  rw [Delivery.accepted, hc]
  exact (h.tally key).sent key fun m hm => (hfresh m hm).1

theorem freshCopies_pending (clock : Nat → Time) (ms : List Message) :
    ∀ m ∈ freshCopies clock ms, m.status = .pending := by
  intro m hm
  obtain ⟨p, -, rfl⟩ := List.mem_map.mp hm
  rfl

theorem Accounted.act (h : Accounted r.world) (a : Act) :
    Accounted (Run.act lang en r a).world := by
  cases a with
  | step e =>
    cases e with
    | create input id secret now => exact h.change (.createEndpoint input id secret now)
    | update t id patch => exact h.change (.updateEndpoint t id patch)
    | rotate t id secret => exact h.change (.rotateSecret t id secret)
    | delete t id => exact h.change (.deleteEndpoint t id)
    | send event answers => exact h.accepted lang event answers
    | process k answers =>
      simp only [Run.act, Run.step]
      cases r.world.queue[k]? with
      | none => exact h
      | some m =>
        have hd : Accounted (dequeue r.world k) := h.of_tenants fun t => ⟨_, rfl⟩
        exact hd.processed lang m answers
    | advance now => exact h.change (.advance now)
  | replay t id now =>
    simp only [Run.act, replay]
    cases r.world.store.getMessage t id with
    | none => exact h
    | some m =>
      have hpending : ∀ x ∈ [freshCopy m now], x.status = .pending := by
        intro x hx
        rw [List.mem_singleton.mp hx]
        rfl
      exact h.enqueue_all hpending
  | replayEndpoint t id since clock =>
    simp only [Run.act]
    rw [replayEndpoint_world]
    exact h.enqueue_all (freshCopies_pending clock _)

theorem Accounted.acts (h : Accounted r.world) (as : List Act) :
    Accounted (Run.acts lang en r as).world := by
  induction as generalizing r with
  | nil => exact h
  | cons a as ih => exact ih (h.act a)

/-! ## How often a bulk replay enqueues a message -/

/-- How often a message died at an endpoint, by its attempt log; the empty id stands for
every endpoint. -/
def deaths (c : Card) (endpointId : String) : Nat :=
  ((Card.deadLog c).filter fun e => endpointId = "" ∨ e = endpointId).length

theorem selected_all (w : World) (tenant endpointId : String) :
    selected w tenant endpointId none =
      ((w.store.tenants tenant).dlq.filter fun d =>
        endpointId = "" ∨ d.message.endpointId = endpointId).map DlqRow.message := by
  unfold selected MemoryStateStore.listDlq
  simp only [Option.all_none, List.filter_true]
  by_cases he : endpointId = "" <;> simp [he]

theorem Accounted.selected_deaths (h : Accounted w) (tenant endpointId : String)
    (key : String × String) :
    ((selected w tenant endpointId none).filter fun m => m.key = key).length =
      if key.1 = tenant then deaths (card w key) endpointId else 0 := by
  split
  · next hk =>
    subst hk
    rw [deaths, ← (h.tally key).graves, selected_all]
    simp only [Card.graves, card, MemoryStateStore.listDlq, List.filter_map, List.length_map,
      List.filter_filter]
    refine congrArg List.length (List.filter_congr fun d _ => ?_)
    simp [Bool.and_comm]
  · next hk =>
    refine List.length_eq_zero_iff.mpr (List.filter_eq_nil_iff.mpr fun m hm => ?_)
    rw [selected_all] at hm
    obtain ⟨row, hrow, rfl⟩ := List.mem_map.mp hm
    have ht := h.own.rows tenant row (List.mem_filter.mp hrow).1
    have hne : row.message.key ≠ key := fun he => hk (by rw [← he]; exact ht)
    simpa using hne

/-- A message that is dead at an endpoint died there at least once. -/
theorem Tally.deaths_pos {c : Card} (h : Tally c) {s : Message} (hs : c.stored = some s)
    (hst : s.status = .dead) : 0 < deaths c s.endpointId := by
  have hin := h.dead s hs hst
  rw [h.graves] at hin
  exact List.length_pos_of_mem (List.mem_filter.mpr ⟨hin, by simp⟩)

/-! ## One live copy -/

/-- A replay that finds no live copy of what it enqueues, and no message twice. -/
def Calm (r : Run) : Act → Prop
  | .step _ => True
  | .replay t id _ => Card.copies (card r.world (t, id)) = []
  | .replayEndpoint t id since _ =>
    ((selected r.world t id since).map Message.key).Nodup ∧
      ∀ m ∈ selected r.world t id since, Card.copies (card r.world m.key) = []

instance (r : Run) : (a : Act) → Decidable (Calm r a)
  | .step _ => .isTrue trivial
  | .replay t id _ => inferInstanceAs (Decidable (Card.copies (card r.world (t, id)) = []))
  | .replayEndpoint .. => inferInstanceAs (Decidable (_ ∧ _))

/-- No message has two live copies, and nothing is known of one that was not sent. -/
structure Single (r : Run) : Prop where
  one : ∀ key, (Card.copies (card r.world key)).length ≤ 1
  blank : ∀ key, key ∉ r.sent.map Message.key → card r.world key = Card.blank

theorem Single.of_cards (h : Single r) {w : World} (hc : ∀ key, card w key = card r.world key) :
    Single { r with world := w } :=
  ⟨fun key => by rw [hc]; exact h.one key, fun key hk => by rw [hc]; exact h.blank key hk⟩

/-- A message the runtime knows anything about was sent. -/
theorem Single.sent (h : Single r) {key : String × String} (hc : card r.world key ≠ Card.blank) :
    key ∈ r.sent.map Message.key := by
  by_contra hno
  exact hc (h.blank key hno)

/-- Messages with distinct keys and no live copy are put on the transport. -/
theorem Single.enqueue (h : Single r) {ms : List Message} {w' : World}
    (hc : ∀ key, card w' key = withSent (card r.world key) key ms)
    (hn : (ms.map Message.key).Nodup) (hfree : ∀ m ∈ ms, Card.copies (card r.world m.key) = [])
    {sent : List Message} (hsub : r.sent ⊆ sent) (hsent : ∀ m ∈ ms, m.key ∈ sent.map Message.key) :
    Single { world := w', sent := sent } := by
  have hnone : ∀ key, (∀ m ∈ ms, m.key ≠ key) → card w' key = card r.world key := by
    intro key hk
    have hnil : ms.filter (fun m => decide (m.key = key)) = [] :=
      List.filter_eq_nil_iff.mpr fun m hm => by simpa using hk m hm
    rw [hc]
    simp [withSent, hnil]
  refine ⟨fun key => ?_, fun key hk => ?_⟩
  · by_cases hin : ∃ m ∈ ms, m.key = key
    · obtain ⟨m, hm, rfl⟩ := hin
      dsimp only
      rw [hc, length_copies_withSent, hfree m hm, filter_key hn hm]
      exact le_rfl
    · dsimp only
      rw [hnone key fun m hm he => hin ⟨m, hm, he⟩]
      exact h.one key
  · dsimp only at hk ⊢
    rw [hnone key fun m hm he => hk (he ▸ hsent m hm)]
    exact h.blank key fun hin => hk (List.map_subset _ hsub hin)

theorem Single.send (h : Single r) (event : SendEvent) (answers : Nat → Answer)
    (hn : ((Run.step lang en r (.send event answers)).sent.map Message.key).Nodup) :
    Single (Run.step lang en r (.send event answers)) := by
  obtain ⟨sent, -, hq, hc⟩ := send_run lang en event answers r.world
  have hnew : (accepted lang en r.world event answers).queue.drop r.world.queue.length = sent := by
    rw [accepted, hq]; simp
  have hstep : Run.step lang en r (.send event answers) =
      { world := accepted lang en r.world event answers, sent := r.sent ++ sent } := by
    rw [← hnew]; rfl
  rw [hstep] at hn ⊢
  rw [List.map_append] at hn
  obtain ⟨-, hns, hdisj⟩ := List.nodup_append.mp hn
  refine h.enqueue hc hns (fun m hm => ?_) (List.subset_append_left _ _) fun m hm => ?_
  · have hblank := h.blank m.key fun he => hdisj _ he _ (List.mem_map_of_mem hm) rfl
    exact congrArg Card.copies hblank
  · exact List.mem_map_of_mem (List.mem_append_right _ hm)

theorem Single.process (h : Single r) (ha : Accounted r.world) {k : Nat} {m : Message}
    (hk : r.world.queue[k]? = some m) (answers : Nat → Answer) :
    Single { r with world := processed lang en (dequeue r.world k) m answers } := by
  have hmem : m ∈ (card r.world m.key).queued :=
    List.mem_filter.mpr ⟨List.mem_of_getElem? hk, by simp⟩
  have hsent : m.key ∈ r.sent.map Message.key := by
    refine h.sent fun hb => ?_
    rw [hb] at hmem
    cases hmem
  have had : Accounted (dequeue r.world k) := ha.of_tenants fun t => ⟨_, rfl⟩
  obtain ⟨hothers, -, hle⟩ := processed_booked en lang (had.tally m.key) answers
  have htaken : (Card.copies (card (dequeue r.world k) m.key)).length + 1 =
      (Card.copies (card r.world m.key)).length := by
    have hlen := filter_eraseIdx_length (P := fun z => decide (z.key = m.key)) hk (by simp)
    simp only [Card.copies, List.length_append]
    have hpe : (card (dequeue r.world k) m.key).pending = (card r.world m.key).pending := rfl
    rw [hpe]
    have hq : (card (dequeue r.world k) m.key).queued.length + 1 =
        (card r.world m.key).queued.length := hlen
    omega
  have hone := h.one m.key
  refine ⟨fun key => ?_, fun key hkey => ?_⟩
  · by_cases hmk : m.key = key
    · subst hmk
      dsimp only
      omega
    · dsimp only
      rw [hothers key hmk, card_dequeue hk hmk]
      exact h.one key
  · have hmk : m.key ≠ key := fun he => hkey (he ▸ hsent)
    dsimp only
    rw [hothers key hmk, card_dequeue hk hmk]
    exact h.blank key hkey

theorem Single.advance (h : Single r) (now : Time) :
    Single { r with world := r.world.advance now } := by
  refine ⟨fun key => ?_, fun key hk => ?_⟩
  · rw [Card.copies, (advance_perm r.world now key).length_eq]
    exact h.one key
  · exact blank_advance (h.blank key hk) now

/-- A row of a tenant belongs to a message the runtime knows. -/
theorem Accounted.row_known (h : Accounted w) {tenant endpointId : String} {since : Option Time}
    {m : Message} (hm : m ∈ selected w tenant endpointId since) : card w m.key ≠ Card.blank := by
  obtain ⟨row, hrow, rfl⟩ := List.mem_map.mp hm
  have hin : row ∈ (w.store.tenants tenant).dlq := by
    have hlist := (List.mem_filter.mp hrow).1
    unfold MemoryStateStore.listDlq at hlist
    dsimp only at hlist
    split at hlist
    · exact hlist
    · exact (List.mem_filter.mp hlist).1
  have ht := h.own.rows tenant row hin
  intro hb
  have hcard : row ∈ (card w row.message.key).dlq := by
    refine List.mem_filter.mpr ⟨?_, by simp⟩
    show row ∈ (w.store.tenants row.message.tenant).dlq
    rw [ht]
    exact hin
  rw [hb] at hcard
  cases hcard

theorem Single.act (h : Single r) (ha : Accounted r.world) (a : Act) (hcalm : Calm r a)
    (hn : ((Run.act lang en r a).sent.map Message.key).Nodup) : Single (Run.act lang en r a) := by
  cases a with
  | step e =>
    cases e with
    | create input id secret now =>
      exact h.of_cards (card_modify r.world _ _ fun _ => ⟨rfl, rfl, rfl⟩)
    | update t id patch => exact h.of_cards (card_update r.world t id patch)
    | rotate t id secret => exact h.of_cards (card_rotate r.world t id secret)
    | delete t id => exact h.of_cards (card_modify r.world _ _ fun _ => ⟨rfl, rfl, rfl⟩)
    | send event answers => exact h.send event answers hn
    | process k answers =>
      cases hk : r.world.queue[k]? with
      | some m => simpa [Run.act, Run.step, hk] using h.process ha hk answers
      | none => simpa [Run.act, Run.step, hk] using h
    | advance now => exact h.advance now
  | replay t id now =>
    simp only [Run.act, replay]
    cases hm : r.world.store.getMessage t id with
    | none => exact h
    | some m =>
      have hkey : m.key = (t, id) := ha.own.stored (t, id) m hm
      refine h.enqueue (card_enqueue r.world _) (by simp) (fun x hx => ?_) (List.Subset.refl _)
        fun x hx => ?_
      all_goals rw [List.mem_singleton.mp hx]
      · show Card.copies (card r.world m.key) = []
        rw [hkey]
        exact hcalm
      · show m.key ∈ _
        refine h.sent fun hb => ?_
        rw [hkey] at hb
        have hstored : (card r.world (t, id)).stored = some m := hm
        rw [hb] at hstored
        cases hstored
  | replayEndpoint t id since clock =>
    simp only [Run.act]
    rw [replayEndpoint_world]
    obtain ⟨hnd, hfree⟩ := hcalm
    refine h.enqueue (enqueue_all r.world _).2.2 ?_ (fun x hx => ?_) (List.Subset.refl _)
      fun x hx => ?_
    · rw [freshCopies_keys]
      exact hnd
    · obtain ⟨m, hm, hk⟩ := mem_freshCopies hx
      rw [hk]
      exact hfree m hm
    · obtain ⟨m, hm, hk⟩ := mem_freshCopies hx
      rw [hk]
      exact h.sent (ha.row_known hm)

theorem act_sent_grows (r : Run) (a : Act) : r.sent <+: (Run.act lang en r a).sent := by
  cases a with
  | step e => exact sent_grows [e]
  | replay t id now => exact List.prefix_rfl
  | replayEndpoint t id since clock => exact List.prefix_rfl

theorem acts_sent_grows (r : Run) (as : List Act) : r.sent <+: (Run.acts lang en r as).sent := by
  induction as generalizing r with
  | nil => exact List.prefix_rfl
  | cons a as ih => exact (act_sent_grows r a).trans (ih _)

theorem Single.acts (h : Single r) (ha : Accounted r.world) {as : List Act}
    (hcalm : Along (Run.act lang en) Calm r as)
    (hn : ((Run.acts lang en r as).sent.map Message.key).Nodup) :
    Single (Run.acts lang en r as) := by
  induction as generalizing r with
  | nil => exact h
  | cons a as ih =>
    refine ih (h.act ha a hcalm.1 ?_) (ha.act a) hcalm.2 hn
    exact hn.sublist ((acts_sent_grows _ as).sublist.map _)

/-! ## Replays over whole runs -/

/-- The message is stored as dead at the endpoint, or at any for the empty id. -/
def deadAt (c : Card) (endpointId : String) : Bool :=
  c.stored.any fun s => s.status = .dead && (endpointId = "" || s.endpointId = endpointId)

/-- A bulk replay enqueues the messages stored as dead, once each, and reports their number;
no message is left with two live copies. -/
structure DeadOnce (w : World) (tenant endpointId : String) (clock : Nat → Time) : Prop where
  enqueued : ∀ key, (card (replayEndpoint w tenant endpointId none clock).2 key).queued.length =
    (card w key).queued.length +
      if key.1 = tenant ∧ deadAt (card w key) endpointId = true then 1 else 0
  number : (replayEndpoint w tenant endpointId none clock).2.queue.length =
    w.queue.length + (replayEndpoint w tenant endpointId none clock).1
  single : ∀ key, (Card.copies (card (replayEndpoint w tenant endpointId none clock).2 key)).length
    ≤ 1

theorem length_freshCopies (clock : Nat → Time) (ms : List Message) :
    (freshCopies clock ms).length = ms.length := by simp [freshCopies]

theorem replayEndpoint_queue (w : World) (tenant endpointId : String) (clock : Nat → Time) :
    (replayEndpoint w tenant endpointId none clock).2.queue =
      w.queue ++ freshCopies clock (selected w tenant endpointId none) := by
  rw [replayEndpoint_world]
  exact (enqueue_all w _).1

theorem replayEndpoint_number (w : World) (tenant endpointId : String) (clock : Nat → Time) :
    (replayEndpoint w tenant endpointId none clock).2.queue.length =
      w.queue.length + (replayEndpoint w tenant endpointId none clock).1 := by
  rw [replayEndpoint_queue, List.length_append, length_freshCopies]
  rfl

theorem Accounted.replayed (h : Accounted w) (tenant endpointId : String) (clock : Nat → Time)
    (key : String × String) :
    (card (replayEndpoint w tenant endpointId none clock).2 key).queued.length =
        (card w key).queued.length +
          (if key.1 = tenant then deaths (card w key) endpointId else 0) ∧
      (card (replayEndpoint w tenant endpointId none clock).2 key).pending =
        (card w key).pending := by
  rw [replayEndpoint_world, (Delivery.enqueue_all w _).2.2]
  refine ⟨?_, rfl⟩
  rw [← h.selected_deaths, ← filter_freshCopies clock]
  simp [withSent]

/-- Where no message was replayed, a message is dead exactly if it died, and it died once. -/
theorem InOrder.deaths {c : Card} (h : InOrder en c) (ht : Tally c) (endpointId : String) :
    deaths c endpointId = if deadAt c endpointId = true then 1 else 0 := by
  obtain ⟨s, hs, -⟩ := h.stored
  have hrows := h.dlq s hs
  have hlen : (Card.graves c).length = c.dlq.length := by simp [Card.graves]
  unfold Delivery.deaths deadAt
  rw [← ht.graves, hs]
  by_cases hst : s.status = .dead
  · rw [if_pos hst] at hrows
    obtain ⟨e, he⟩ := List.length_eq_one_iff.mp (hlen.trans hrows)
    have hin := ht.dead s hs hst
    rw [he, List.mem_singleton] at hin
    subst hin
    rw [he]
    by_cases hep : endpointId = "" ∨ s.endpointId = endpointId <;> simp [hst, hep]
  · rw [if_neg hst] at hrows
    have hnil : Card.graves c = [] := List.length_eq_zero_iff.mp (hlen.trans hrows)
    simp [hnil, hst]

theorem acts_steps (steps : List Step) :
    Run.acts lang en r (steps.map .step) = Run.run lang en r steps := by
  simp only [Run.acts, Run.run, List.foldl_map]
  rfl

/-- Before the first replay, a bulk replay is exact. -/
theorem Orderly.deadOnce (h : Orderly en r) (ha : Accounted r.world) (tenant endpointId : String)
    (clock : Nat → Time) : DeadOnce r.world tenant endpointId clock := by
  have hdeaths : ∀ key, deaths (card r.world key) endpointId =
      if deadAt (card r.world key) endpointId = true then 1 else 0 := by
    intro key
    by_cases hk : key ∈ r.sent.map Message.key
    · obtain ⟨m, hm, rfl⟩ := List.mem_map.mp hk
      exact (h.resting m hm).inOrder.deaths (ha.tally m.key) endpointId
    · rw [h.blank key hk]
      rfl
  have henq : ∀ key, (if key.1 = tenant then deaths (card r.world key) endpointId else 0) =
      if key.1 = tenant ∧ deadAt (card r.world key) endpointId = true then 1 else 0 := by
    intro key
    rw [hdeaths]
    by_cases hk : key.1 = tenant <;> simp [hk]
  refine ⟨fun key => ?_, replayEndpoint_number _ _ _ _, fun key => ?_⟩
  · rw [(ha.replayed tenant endpointId clock key).1, henq]
  · obtain ⟨hq, hp⟩ := ha.replayed tenant endpointId clock key
    rw [Card.copies, List.length_append, hq, hp, henq]
    by_cases hk : key ∈ r.sent.map Message.key
    · obtain ⟨m, hm, rfl⟩ := List.mem_map.mp hk
      have hin := (h.resting m hm).inOrder
      obtain ⟨s, hs, hne⟩ := hin.stored
      have hone := hin.one s hs
      have hnone := hin.none s hs
      rw [List.length_append] at hone hnone
      by_cases hd : deadAt (card r.world m.key) endpointId = true
      · have hst : s.status = .dead := by
          rw [deadAt, hs] at hd
          simp at hd
          exact hd.1
        have := hnone (.inr hst)
        split <;> omega
      · rw [if_neg fun hc => hd hc.2]
        cases hst : s.status with
        | delivering => exact absurd hst hne
        | pending => have := hone (.inl hst); omega
        | retrying => have := hone (.inr (.inl hst)); omega
        | blocked => have := hone (.inr (.inr hst)); omega
        | delivered => have := hnone (.inl hst); omega
        | dead => have := hnone (.inr hst); omega
    · rw [h.blank key hk]
      simp [Card.blank, deadAt]

theorem Accounted.replay_stored (h : Accounted w) {tenant messageId : String} {m : Message}
    (hm : w.store.getMessage tenant messageId = some m) (now : Time) (key : String × String) :
    (Card.copies (card (replay w tenant messageId now).2 key)).length =
      (Card.copies (card w key)).length + if key = (tenant, messageId) then 1 else 0 := by
  have hkey : m.key = (tenant, messageId) := h.own.stored (tenant, messageId) m hm
  have hcopy : (freshCopy m now).key = (tenant, messageId) := hkey
  simp only [replay, hm, reenqueue]
  rw [card_enqueue, length_copies_withSent]
  by_cases hk : key = (tenant, messageId)
  · simp [hcopy, hk]
  · simp [hcopy, hk, Ne.symm hk]

end Accounts

/-- **Replays over whole runs.** A bulk replay enqueues one fresh copy for each dead-letter
row of the endpoint, which is one for each time a message died there, and so reaches every
message that is dead; a single replay enqueues whatever is stored. If no replay found a
live copy of what it enqueued, or a message twice, no message ever has two. Before the
first replay of a run, a bulk replay is exact. -/
theorem replay_enqueues_each_death (lang : Lang) (en : Engine) (as : List Act) :
    let r := Run.acts lang en Run.start as
    let w := r.world
    (∀ tenant endpointId clock,
      let out := replayEndpoint w tenant endpointId none clock
      let rows := w.store.listDlq tenant (some endpointId)
      out.1 = rows.length ∧
        out.2.queue = w.queue ++ freshCopies clock (rows.map DlqRow.message) ∧
        ∀ key, (card out.2 key).queued.length = (card w key).queued.length +
            (if key.1 = tenant then deaths (card w key) endpointId else 0) ∧
          (card out.2 key).pending = (card w key).pending) ∧
    (∀ key s, (card w key).stored = some s → s.status = .dead →
      0 < deaths (card w key) s.endpointId) ∧
    (∀ tenant messageId now m, w.store.getMessage tenant messageId = some m →
      (replay w tenant messageId now).1 = true ∧
        ∀ key, (Card.copies (card (replay w tenant messageId now).2 key)).length =
          (Card.copies (card w key)).length + if key = (tenant, messageId) then 1 else 0) ∧
    ((r.sent.map Message.key).Nodup → Along (Run.act lang en) Calm Run.start as →
      ∀ key, (Card.copies (card w key)).length ≤ 1) ∧
    ((r.sent.map Message.key).Nodup → ∀ steps : List Step, as = steps.map .step →
      ∀ tenant endpointId clock, DeadOnce w tenant endpointId clock) := by
  have hacc : Accounted (Run.acts lang en Run.start as).world := accounted_empty.acts as
  have hrows : ∀ (w : World) tenant endpointId, selected w tenant endpointId none =
      (w.store.listDlq tenant (some endpointId)).map DlqRow.message := by
    intro w tenant endpointId
    simp [selected]
  refine ⟨fun tenant endpointId clock => ⟨?_, ?_, hacc.replayed tenant endpointId clock⟩,
    fun key s hs hst => (hacc.tally key).deaths_pos hs hst, fun tenant messageId now m hm => ?_,
    fun hn hcalm => ?_, fun hn steps has tenant endpointId clock => ?_⟩
  · simp [replayEndpoint, hrows]
  · rw [← hrows]
    exact replayEndpoint_queue _ tenant endpointId clock
  · refine ⟨by simp [replay, hm], hacc.replay_stored hm now⟩
  · have hstart : Single Run.start := ⟨fun _ => Nat.zero_le _, fun _ _ => rfl⟩
    exact (hstart.acts accounted_empty hcalm hn).one
  · subst has
    rw [acts_steps] at hn hacc ⊢
    exact ((orderly_start en).run lang steps hn).deadOnce hacc tenant endpointId clock

/-- A message is refused and dead-lettered, and its endpoint replayed in bulk. -/
def diedAndReplayed : List Act :=
  [.step (.create anyEvent "ep_1" "whsec_1" 0),
    .step (.send orderCreated fun _ => answering 0 .network),
    .step (.process 0 fun _ => answering 0 (.response 404 "" none)),
    .replayEndpoint "acme" "ep_1" none fun _ => 5]

theorem died_and_replayed_calm :
    (∀ key, (Card.copies (card (Run.acts .ts (plainEngine 5) Run.start diedAndReplayed).world
      key)).length ≤ 1) ∧
      (Run.acts .ts (plainEngine 5) Run.start diedAndReplayed).world.queue.length = 1 := by
  refine ⟨(replay_enqueues_each_death .ts (plainEngine 5) diedAndReplayed).2.2.2.1 ?_ ?_, ?_⟩
  · decide +kernel
  · decide +kernel
  · decide +kernel

/-- The row stays: replayed again at once, the message is pending and is enqueued a second
time. -/
theorem replayed_twice :
    let r := Run.acts .ts (plainEngine 5) Run.start diedAndReplayed
    let out := replayEndpoint r.world "acme" "ep_1" none fun _ => 6
    (r.sent.map Message.key).Nodup ∧
      r.sent.map (fun m => (card r.world m.key).stored.map Message.status) = [some .pending] ∧
      out.1 = 1 ∧ r.sent.map (fun m => (Card.copies (card out.2 m.key)).length) = [2] ∧
      ¬ DeadOnce r.world "acme" "ep_1" fun _ => 6 := by
  refine ⟨?_, ?_, ?_, ?_, fun h => ?_⟩
  · decide +kernel
  · decide +kernel
  · decide +kernel
  · decide +kernel
  · have htwo := h.single ("acme", "msg_aaaaaaaaaaaaaaaaaaaa")
    revert htwo
    decide +kernel

end Anyhook.Delivery
