import Anyhook.Lib.Run
import Anyhook.Testing.Pool

/-! The circuit breaker of one endpoint whose messages are processed one after another,
by either engine. Nothing fails and the clock does not go back; between two calls the
endpoint may be changed, disabled, deleted and created again. What a call was seen to do
at its ports says what the stored circuit must be. -/
namespace Anyhook.Breaker
open Anyhook.Core Anyhook.Testing Anyhook.Lib.Program Anyhook.Lib.Run

/-! ## What a call is seen to do -/

structure Seen where
  /-- The last reading of the clock. -/
  clock : Option Time
  /-- What `deliverOnce` got: a refusal of the target, or the class of the response. -/
  outcome : Option Outcome
  /-- What the clock had read last when the circuit was last written. -/
  writtenAt : Option Time
  /-- When POSTs were made. -/
  posts : List Time
  /-- The message was stored as blocked. -/
  parked : Bool
  /-- What was then rescheduled, and for when. -/
  wake : Option (Message × Time)

namespace Seen

def nothing : Seen where
  clock := none
  outcome := none
  writtenAt := none
  posts := []
  parked := false
  wake := none

/-- A port call made at `now`, with its answer. -/
def note (seen : Seen) (now : Time) : (op : Op) → Res op → Seen
  | .now, t => { seen with clock := some t }
  | .check _, v => if v.allowed then seen else { seen with outcome := some .permanent }
  | .post .., res =>
    { seen with outcome := some (outcomeOf res), posts := seen.posts ++ [now] }
  | .putCircuit .., _ => { seen with writtenAt := seen.clock }
  | .putMessage m, _ => if m.status = .blocked then { seen with parked := true } else seen
  | .scheduleRetry m atMs, _ => if seen.parked then { seen with wake := some (m, atMs) } else seen
  | _, _ => seen

def delivered (seen : Seen) : Bool := seen.outcome = some .delivered

/-- `deliverOnce` was reached and got another outcome than delivered. -/
def failed (seen : Seen) : Bool := seen.outcome.any fun o => o ≠ .delivered

end Seen

/-- The failed calls since the last delivered one. The newest call comes first. -/
def failures (history : List Seen) : Nat :=
  ((history.takeWhile fun seen => !seen.delivered).filter Seen.failed).length

/-- When the last failed call put its failure on the circuit. -/
def lastFailure (history : List Seen) : Option Time :=
  (history.find? Seen.failed).bind Seen.writtenAt

/-! ## One call after another -/

/-- A call for the endpoint, and what happened before it. Go holds times in int64: the cooldown,
and every wake-up reckoned from a reading of the clock. -/
structure Visit (en : Engine) (tenant endpointId : String) (answers : Nat → Answer) where
  changes : List Change
  job : Job
  target : job.message.target = (tenant, endpointId)
  fits : job.lang = .go → en.circuitCfg.cooldownMs < 2 ^ 63 ∧
    ∀ n, (answers n).now + 2 * en.circuitCfg.cooldownMs ≤ 2 ^ 63

/-- The runtime, with the number of port calls made and the calls seen. -/
structure Course where
  world : World
  made : Nat
  history : List Seen

/-- A call on its way. -/
structure Watch where
  world : World
  made : Nat
  seen : Seen

/-- The environment answers the `n`-th port call of all by `answers n`. -/
def watch (answers : Nat → Answer) (m : Message) (op : Op) (s : Watch) :
    Except String (Res op) × Watch :=
  (.ok (exec (some m) (answers s.made) op s.world).1,
    { world := (exec (some m) (answers s.made) op s.world).2
      made := s.made + 1
      seen := s.seen.note (answers s.made).now op (exec (some m) (answers s.made) op s.world).1 })

section Calls
variable {en : Engine} {tenant endpointId : String} {answers : Nat → Answer}

def Course.enter (c : Course) (v : Visit en tenant endpointId answers) : Watch where
  world := c.world.changed v.changes
  made := c.made
  seen := .nothing

/-- The call run to its end. -/
def Course.leave (answers : Nat → Answer) (c : Course)
    (v : Visit en tenant endpointId answers) : Watch :=
  ((v.job.process en).run (watch answers v.job.message) (c.enter v)).2

def Course.visit (answers : Nat → Answer) (c : Course) (v : Visit en tenant endpointId answers) :
    Course where
  world := (c.leave answers v).world
  made := (c.leave answers v).made
  history := (c.leave answers v).seen :: c.history

def Course.begin (w : World) : Course where
  world := w
  made := 0
  history := []

/-- The stored circuit of the endpoint. -/
def Course.circuit (c : Course) (tenant endpointId : String) : CircuitRecord :=
  c.world.store.getCircuit tenant endpointId

/-- The breaker after some calls, and what the next call does. -/
structure BreaksRight (en : Engine) (tenant endpointId : String) (answers : Nat → Answer)
    (c : Course) : Prop where
  count : (c.circuit tenant endpointId).consecutiveFailures = failures c.history
  state : (c.circuit tenant endpointId).state =
    if en.circuitCfg.failureThreshold ≤ failures c.history then .opened else .closed
  openedAt : (c.circuit tenant endpointId).openedAt =
    if en.circuitCfg.failureThreshold ≤ failures c.history then lastFailure c.history else none
  known : (c.circuit tenant endpointId).state = .opened →
    ((c.circuit tenant endpointId).openedAt).isSome
  /-- No POST while the cooldown of an open circuit lasts. -/
  quiet : ∀ (v : Visit en tenant endpointId answers) t openedAt,
    (c.circuit tenant endpointId).state = .opened →
      (c.circuit tenant endpointId).openedAt = some openedAt → t ∈ (c.leave answers v).seen.posts →
        ¬ (openedAt ≤ t ∧ t < openedAt + en.circuitCfg.cooldownMs)
  /-- A parked message wakes in the second cooldown after the opening, and is then not
  parked again unless a call failed in between. -/
  wakes : ∀ v : Visit en tenant endpointId answers, (c.leave answers v).seen.parked = true →
    ∃ openedAt atMs, (c.circuit tenant endpointId).openedAt = some openedAt ∧
      (c.leave answers v).seen.wake = some (v.job.message, atMs) ∧
      openedAt + en.circuitCfg.cooldownMs ≤ atMs ∧
      atMs < openedAt + 2 * en.circuitCfg.cooldownMs ∧
      ∀ later : List (Visit en tenant endpointId answers),
        Along (Course.visit answers) (fun c v => (c.leave answers v).seen.failed = false)
          (c.visit answers v) later →
        ∀ v' : Visit en tenant endpointId answers,
          atMs ≤ (answers (later.foldl (Course.visit answers) (c.visit answers v)).made).now →
            ((later.foldl (Course.visit answers) (c.visit answers v)).leave
              answers v').seen.parked = false

end Calls

/-! ## One port call -/

section Ports
variable {answers : Nat → Answer} {m : Message}

def Watch.circuit (m : Message) (s : Watch) : CircuitRecord :=
  s.world.store.getCircuit m.tenant m.endpointId

/-- Only its clock and its number of calls have moved on. -/
structure Watch.Idled (m : Message) (s s' : Watch) : Prop where
  circuit : s'.circuit m = s.circuit m
  made : s.made ≤ s'.made
  outcome : s'.seen.outcome = s.seen.outcome
  posts : s'.seen.posts = s.seen.posts
  parked : s'.seen.parked = s.seen.parked
  wake : s'.seen.wake = s.seen.wake
  writtenAt : s'.seen.writtenAt = s.seen.writtenAt

theorem Watch.Idled.refl (s : Watch) : s.Idled m s := ⟨rfl, le_rfl, rfl, rfl, rfl, rfl, rfl⟩

theorem Watch.Idled.trans {s t u : Watch} (h : s.Idled m t) (h' : t.Idled m u) : s.Idled m u where
  circuit := h'.circuit.trans h.circuit
  made := h.made.trans h'.made
  outcome := h'.outcome.trans h.outcome
  posts := h'.posts.trans h.posts
  parked := h'.parked.trans h.parked
  wake := h'.wake.trans h.wake
  writtenAt := h'.writtenAt.trans h.writtenAt

/-- The calls that say nothing about the breaker. -/
def IdleOp (parked : Bool) : Op → Prop
  | .putCircuit .. | .check _ | .post .. => False
  | .putMessage m => m.status ≠ .blocked
  | .scheduleRetry .. => parked = false
  | _ => True

theorem watch_circuit (op : Op) (s : Watch) :
    (watch answers m op s).2.circuit m = match op with
      | .putCircuit t e rec => if (t, e) = m.target then rec else s.circuit m
      | _ => s.circuit m :=
  exec_getCircuit (some m) (answers s.made) op s.world m.tenant m.endpointId

theorem idle_step {op : Op} {s : Watch} (hop : IdleOp s.seen.parked op) :
    s.Idled m (watch answers m op s).2 := by
  have hcircuit : (watch answers m op s).2.circuit m = s.circuit m := by
    rw [watch_circuit]
    cases op with
    | putCircuit t e rec => exact absurd hop id
    | _ => rfl
  have hseen : ∃ clock, (watch answers m op s).2.seen = { s.seen with clock := clock } := by
    cases op with
    | putCircuit t e rec => exact absurd hop id
    | check url => exact absurd hop id
    | post url body headers timeoutMs => exact absurd hop id
    | putMessage x => exact ⟨s.seen.clock, if_neg hop⟩
    | scheduleRetry x t =>
      have hparked : s.seen.parked = false := hop
      exact ⟨s.seen.clock, if_neg (by simp [hparked])⟩
    | now => exact ⟨_, rfl⟩
    | _ => exact ⟨s.seen.clock, rfl⟩
  obtain ⟨clock, hseen⟩ := hseen
  exact ⟨hcircuit, Nat.le_succ _, by rw [hseen], by rw [hseen], by rw [hseen], by rw [hseen],
    by rw [hseen]⟩

theorem ends_port {α : Type} {op : Op} {k : Res op → Eng α} {Q : α → Watch → Prop} {s : Watch}
    (h : Prog.Ends (watch answers m) (k (exec (some m) (answers s.made) op s.world).1) Q
      (watch answers m op s).2) : Prog.Ends (watch answers m) (port op >>= k) Q s :=
  Prog.ends_call rfl h

/-- A part that makes idle calls only. -/
theorem idles {α : Type} {p : Eng α} {parked : Bool} (hp : Prog.Only (IdleOp parked) p) {s : Watch}
    (hs : s.seen.parked = parked) :
    Prog.Ends (watch answers m) p (fun _ s' => s.Idled m s') s := by
  refine (hp.ends Watch.Idled.refl (fun _ _ _ => Watch.Idled.trans)
    (I := fun s => s.seen.parked = parked) ?_ hs).mono fun _ _ h => h.1
  intro op s hop hs
  have h : s.Idled m (watch answers m op s).2 := idle_step (by rw [hs]; exact hop)
  exact ⟨_, _, rfl, h, h.parked.trans hs⟩

end Ports

/-! ## The parts of a call -/

theorem record_idle (attempt : Attempt) : Prog.Only (IdleOp false) (record attempt) :=
  ⟨trivial, fun _ => ⟨trivial, fun _ => trivial⟩⟩

theorem dlq_idle (m : Message) (attempt : Attempt) (reason : DlqReason) :
    Prog.Only (IdleOp false) (dlq m attempt reason) := by
  refine Prog.only_call (by simp [IdleOp]) fun _ => ?_
  exact Prog.only_bind (record_idle _) fun _ => ⟨trivial, fun _ => trivial⟩

theorem endpointGone_idle (m : Message) : Prog.Only (IdleOp false) (endpointGone m) :=
  ⟨trivial, fun _ => dlq_idle m _ _⟩

theorem rateLimitGate_idle (d : Dialect) (m : Message) (ep : Endpoint) :
    Prog.Only (IdleOp false) (rateLimitGate d m ep) := by
  unfold rateLimitGate
  cases ep.rateLimit with
  | none => trivial
  | some rate =>
    dsimp only
    split
    · refine ⟨trivial, fun now => ⟨trivial, fun stored => ⟨trivial, fun _ => ?_⟩⟩⟩
      split
      · trivial
      · exact ⟨by simp [IdleOp], fun _ => ⟨rfl, fun _ => trivial⟩⟩
    · trivial

section Parts
variable {answers : Nat → Answer} {en : Engine} {m : Message} {d : Dialect} {s : Watch}

/-- What is left of a call once its failure is on the circuit. -/
def rescheduling (d : Dialect) (en : Engine) (m : Message) (attempt : Attempt)
    (result : DeliveryResult) : Eng Unit := do
  let delay ← d.nextDelayMs en.retry m.attemptNo result.retryAfterMs
  match delay with
  | none => dlq m attempt .exhaustedRetries
  | some delay =>
    record attempt
    let base ← port .now
    let next := { m with
      attemptNo := m.attemptNo + 1, status := .retrying, nextAttemptAt := some (base + delay) }
    port (.putMessage next)
    port (.scheduleRetry next (base + delay))

theorem rescheduling_idle (d : Dialect) (en : Engine) (m : Message) (attempt : Attempt)
    (result : DeliveryResult) : Prog.Only (IdleOp false) (rescheduling d en m attempt result) := by
  refine Prog.only_bind ((d.nextDelayMs_reads _ _ _).only trivial trivial) fun delay => ?_
  cases delay with
  | none => exact dlq_idle m _ _
  | some delay =>
    refine Prog.only_bind (record_idle _) fun _ => ⟨trivial, fun base => ?_⟩
    exact ⟨by simp [IdleOp], fun _ => ⟨rfl, fun _ => trivial⟩⟩

/-- A failure is put on the circuit at a reading of the clock. -/
theorem fails_ends {rest : Eng Unit} {circuit : CircuitRecord}
    (hrest : Prog.Only (IdleOp false) rest) (hs : s.seen.parked = false) :
    Prog.Ends (watch answers m)
      (do
        let now ← port .now
        port (.putCircuit m.tenant m.endpointId
          (onFailure circuit now en.circuitCfg.failureThreshold))
        rest)
      (fun _ s' => s.made ≤ s'.made ∧ s'.seen.outcome = s.seen.outcome ∧
        s'.seen.posts = s.seen.posts ∧ s'.seen.parked = false ∧ ∃ k, s.made ≤ k ∧ k < s'.made ∧
          s'.seen.writtenAt = some (answers k).now ∧
          s'.circuit m = onFailure circuit (answers k).now en.circuitCfg.failureThreshold) s := by
  refine ends_port (ends_port ((idles hrest ?_).mono ?_))
  · exact hs
  · intro _ s' h
    have hmade : s.made + 1 + 1 ≤ s'.made := h.made
    refine ⟨by omega, h.outcome, h.posts, h.parked.trans hs, s.made, le_rfl, by omega,
      h.writtenAt, ?_⟩
    rw [h.circuit]
    exact (watch_circuit _ _).trans (if_pos rfl)

/-- The POST of a delivery is made no earlier than the delivery begins. -/
theorem deliver_ends (hclock : Monotone fun n => (answers n).now) (ep : Endpoint) :
    Prog.Ends (watch answers m) (deliverWith d en m ep)
      (fun result s' => s.made ≤ s'.made ∧ s'.seen.outcome = some result.outcome ∧
        s'.seen.parked = s.seen.parked ∧
        ∀ t ∈ s'.seen.posts, t ∈ s.seen.posts ∨ (answers s.made).now ≤ t) s := by
  unfold deliverWith
  cases hv : (answers s.made).verdict.allowed with
  | false =>
    have hseen : (watch answers m (.check ep.url) s).2.seen =
        { s.seen with outcome := some .permanent } := if_neg (by simp [exec, hv])
    refine ends_port ?_
    rw [if_neg (by simp [exec, hv])]
    refine Prog.ends_pure ⟨Nat.le_succ _, ?_, ?_, ?_⟩
    · rw [d.refused_outcome, hseen]
    · rw [hseen]
    · intro t ht
      rw [hseen] at ht
      exact .inl ht
  | true =>
    have hseen : (watch answers m (.check ep.url) s).2.seen = s.seen := if_pos (by simp [exec, hv])
    refine ends_port ?_
    rw [if_pos (by simp [exec, hv])]
    refine ends_port (ends_port (ends_port (ends_port ?_)))
    refine Prog.ends_pure ⟨?_, ?_, ?_, ?_⟩
    · show s.made ≤ s.made + 1 + 1 + 1 + 1 + 1
      omega
    · rw [d.resultOf_outcome]
      rfl
    · show (watch answers m (.check ep.url) s).2.seen.parked = s.seen.parked
      rw [hseen]
    · intro t ht
      have hposts : t ∈ s.seen.posts ++ [(answers (s.made + 1 + 1 + 1)).now] := by
        rw [← hseen]
        exact ht
      obtain h | h := List.mem_append.mp hposts
      · exact .inl h
      · obtain rfl := List.mem_singleton.mp h
        exact .inr (hclock (by omega))

/-- A call that passed the gate with `circuit` got an outcome and put it on the circuit. -/
structure Attempted (en : Engine) (answers : Nat → Answer) (m : Message) (circuit : CircuitRecord)
    (s s' : Watch) : Prop where
  made : s.made ≤ s'.made
  parked : s'.seen.parked = false
  posts : ∀ t ∈ s'.seen.posts, t ∈ s.seen.posts ∨ (answers s.made).now ≤ t
  counted : s'.seen.outcome = some .delivered ∧ s'.circuit m = onSuccess circuit ∨
    s'.seen.failed = true ∧ ∃ k < s'.made, s'.seen.writtenAt = some (answers k).now ∧
      s'.circuit m = onFailure circuit (answers k).now en.circuitCfg.failureThreshold

theorem attemptDelivery_ends (hclock : Monotone fun n => (answers n).now) (ep : Endpoint)
    (circuit : CircuitRecord) (hs : s.seen.parked = false) :
    Prog.Ends (watch answers m) (attemptDelivery d en m ep circuit)
      (fun _ s' => Attempted en answers m circuit s s') s := by
  unfold attemptDelivery
  have hput : s.Idled m (watch answers m (.putMessage { m with status := .delivering }) s).2 :=
    idle_step (by simp [IdleOp])
  refine ends_port ((deliver_ends hclock ep).bind ?_)
  intro result s1 ⟨hmade, hout, hparked, hposts⟩
  have hnow : s1.Idled m (watch answers m .now s1).2 := idle_step trivial
  refine ends_port ?_
  have hmade2 : s.made + 1 + 1 ≤ (watch answers m .now s1).2.made := Nat.succ_le_succ hmade
  have hparked2 : (watch answers m .now s1).2.seen.parked = false :=
    hnow.parked.trans (hparked.trans (hput.parked.trans hs))
  have hout2 : (watch answers m .now s1).2.seen.outcome = some result.outcome :=
    hnow.outcome.trans hout
  have hposts2 : ∀ t ∈ (watch answers m .now s1).2.seen.posts,
      t ∈ s.seen.posts ∨ (answers s.made).now ≤ t := by
    intro t ht
    rw [hnow.posts] at ht
    obtain h | h := hposts t ht
    · exact .inl (by rw [← hput.posts]; exact h)
    · exact .inr ((hclock (Nat.le_succ s.made)).trans h)
  have hfail : ∀ rest : Eng Unit, Prog.Only (IdleOp false) rest → result.outcome ≠ .delivered →
      Prog.Ends (watch answers m)
        (do
          let now ← port .now
          port (.putCircuit m.tenant m.endpointId
            (onFailure circuit now en.circuitCfg.failureThreshold))
          rest)
        (fun _ s' => Attempted en answers m circuit s s') (watch answers m .now s1).2 := by
    intro rest hrest hne
    refine (fails_ends hrest hparked2).mono ?_
    intro _ s' ⟨hm, ho, hp, hpk, k, _, hk, hw, hc⟩
    refine ⟨by omega, hpk, fun t ht => hposts2 t (by rw [← hp]; exact ht), .inr ⟨?_, k, hk, hw, hc⟩⟩
    unfold Seen.failed
    rw [ho, hout2]
    simpa using hne
  cases ho : result.outcome with
  | delivered =>
    refine ends_port (ends_port ((idles (record_idle _) ?_).mono ?_))
    · exact hparked2
    intro _ s' h
    have hm : (watch answers m .now s1).2.made + 1 + 1 ≤ s'.made := h.made
    refine ⟨by omega, h.parked.trans hparked2, ?_, .inl ⟨?_, ?_⟩⟩
    · intro t ht
      rw [h.posts] at ht
      exact hposts2 t ht
    · rw [h.outcome]
      exact hout2.trans (by rw [ho])
    · rw [h.circuit]
      refine (watch_circuit _ _).trans ((watch_circuit _ _).trans (if_pos rfl))
  | permanent => exact hfail _ (dlq_idle m _ _) (by rw [ho]; nofun)
  | retryable => exact hfail _ (rescheduling_idle d en m _ result) (by rw [ho]; nofun)

/-- The wake-up time of a message parked behind a circuit that opened at `o`. -/
theorem wakeAt_ends (hdraw : ∀ n, 0 ≤ (answers n).draw ∧ (answers n).draw < 1) (lang : Lang)
    {circuit : CircuitRecord} {o : Time} (ho : circuit.openedAt = some o)
    (hpos : 0 < circuit.cooldownMs) (hfits : lang = .go → circuit.cooldownMs < 2 ^ 63) :
    Prog.Ends (watch answers m) (lang.dialect.wakeAt circuit)
      (fun atMs s' => s.Idled m s' ∧ o + circuit.cooldownMs ≤ atMs ∧
        atMs < o + 2 * circuit.cooldownMs) s := by
  have hjitter : ∀ n, 0 ≤ circuit.cooldownMs * (answers n).draw ∧
      circuit.cooldownMs * (answers n).draw < circuit.cooldownMs := by
    intro n
    obtain ⟨h0, h1⟩ := hdraw n
    exact ⟨mul_nonneg hpos.le h0, mul_lt_of_lt_one_right hpos h1⟩
  cases lang with
  | ts =>
    show Prog.Ends _ (Core.wakeAt circuit) _ _
    simp only [Core.wakeAt, openingTime, ho, pure_bind, Core.fullJitter, bind_assoc]
    refine ends_port (Prog.ends_pure ⟨idle_step trivial, ?_, ?_⟩)
    · have h := (hjitter s.made).1
      simp only [exec]
      linarith
    · have h := (hjitter s.made).2
      simp only [exec]
      linarith
  | go =>
    show Prog.Ends _ (Go.wakeAt circuit) _ _
    simp only [Go.wakeAt, ho, Go.fullJitter, bind_assoc, pure_bind, Option.getD_some]
    refine ends_port (ends_port (Prog.ends_pure ?_))
    obtain ⟨h0, h1⟩ := hjitter (s.made + 1)
    have hfloor : (⌊circuit.cooldownMs * (answers (s.made + 1)).draw⌋ : ℚ) ≤
        circuit.cooldownMs * (answers (s.made + 1)).draw := Int.floor_le _
    have hint : Go.toInt64 (circuit.cooldownMs * (answers (s.made + 1)).draw) =
        ⌊circuit.cooldownMs * (answers (s.made + 1)).draw⌋ := by
      have habs : |circuit.cooldownMs * (answers (s.made + 1)).draw| < 2 ^ 63 := by
        rw [abs_of_nonneg h0]
        linarith [hfits rfl]
      rw [Go.toInt64_eq habs]
      exact if_pos h0
    have hnonneg : (0 : ℚ) ≤ ⌊circuit.cooldownMs * (answers (s.made + 1)).draw⌋ := by
      exact_mod_cast Int.floor_nonneg.mpr h0
    have hnow : s.Idled m (watch answers m .now s).2 := idle_step trivial
    refine ⟨hnow.trans (idle_step trivial), ?_, ?_⟩
    · show o + circuit.cooldownMs ≤ o + circuit.cooldownMs +
        ((Go.toInt64 (circuit.cooldownMs * (answers (s.made + 1)).draw) : Int) : ℚ)
      rw [hint]
      linarith
    · show o + circuit.cooldownMs +
        ((Go.toInt64 (circuit.cooldownMs * (answers (s.made + 1)).draw) : Int) : ℚ) <
          o + 2 * circuit.cooldownMs
      rw [hint]
      linarith

/-- The circuit as the gate sees it, with the cooldown of the configuration. -/
def gated (en : Engine) (circuit : CircuitRecord) : CircuitRecord :=
  { circuit with cooldownMs := en.circuitCfg.cooldownMs }

/-- A circuit that is open has been opened at some time, not after call `n`. -/
def OpenedBefore (answers : Nat → Answer) (n : Nat) (circuit : CircuitRecord) : Prop :=
  circuit.state = .opened → ∃ o, circuit.openedAt = some o ∧ o ≤ (answers n).now

/-- The gate turned the message away. -/
structure TurnedAway (en : Engine) (answers : Nat → Answer) (m : Message) (s s' : Watch)
    (o : Time) : Prop where
  circuit : s'.circuit m = s.circuit m
  made : s.made ≤ s'.made
  outcome : s'.seen.outcome = s.seen.outcome
  posts : s'.seen.posts = s.seen.posts
  state : (s.circuit m).state = .opened
  openedAt : (s.circuit m).openedAt = some o
  gate : ∃ k, s.made ≤ k ∧ (answers k).now < o + en.circuitCfg.cooldownMs
  wake : ∃ atMs, s'.seen.wake = some (m, atMs) ∧ o + en.circuitCfg.cooldownMs ≤ atMs ∧
    atMs < o + 2 * en.circuitCfg.cooldownMs

/-- The gate let the message through. -/
structure LetThrough (en : Engine) (answers : Nat → Answer) (m : Message) (circuit : CircuitRecord)
    (s s' : Watch) : Prop where
  made : s.made ≤ s'.made
  outcome : s'.seen.outcome = s.seen.outcome
  posts : s'.seen.posts = s.seen.posts
  parked : s'.seen.parked = s.seen.parked
  gate : ∀ o, (s.circuit m).state = .opened → (s.circuit m).openedAt = some o →
    o + en.circuitCfg.cooldownMs ≤ (answers s'.made).now
  circuit : circuit = if (s.circuit m).state = .closed then gated en (s.circuit m)
    else toHalfOpen (gated en (s.circuit m))

theorem park_ends (hdraw : ∀ n, 0 ≤ (answers n).draw ∧ (answers n).draw < 1) {lang : Lang}
    (hfits : lang = .go → en.circuitCfg.cooldownMs < 2 ^ 63) {o : Time}
    (ho : (s.circuit m).openedAt = some o) (hpos : 0 < en.circuitCfg.cooldownMs) :
    Prog.Ends (watch answers m) (park lang.dialect m (gated en (s.circuit m)))
      (fun _ s' => s'.circuit m = s.circuit m ∧ s.made ≤ s'.made ∧
        s'.seen.outcome = s.seen.outcome ∧ s'.seen.posts = s.seen.posts ∧
        ∃ atMs, s'.seen.wake = some (m, atMs) ∧ o + en.circuitCfg.cooldownMs ≤ atMs ∧
          atMs < o + 2 * en.circuitCfg.cooldownMs) s := by
  unfold park
  have hput : (watch answers m (.putMessage { m with status := .blocked }) s).2.seen =
      { s.seen with parked := true } := rfl
  have ho' : (gated en (s.circuit m)).openedAt = some o := ho
  refine ends_port ((wakeAt_ends hdraw lang ho' hpos hfits).bind ?_)
  intro atMs s1 ⟨hidle, hle, hlt⟩
  have hparked : s1.seen.parked = true := by rw [hidle.parked, hput]
  have hsched : (watch answers m (.scheduleRetry m atMs) s1).2.seen =
      { s1.seen with wake := some (m, atMs) } := if_pos hparked
  refine ⟨_, _, rfl, ?_, ?_, ?_, ?_, atMs, ?_, hle, hlt⟩
  · exact (watch_circuit _ _).trans (hidle.circuit.trans (watch_circuit _ _))
  · have hmade : s.made + 1 ≤ s1.made := hidle.made
    show s.made ≤ s1.made + 1
    omega
  · show (watch answers m (.scheduleRetry m atMs) s1).2.seen.outcome = _
    rw [hsched, hidle.outcome, hput]
  · show (watch answers m (.scheduleRetry m atMs) s1).2.seen.posts = _
    rw [hsched, hidle.posts, hput]
  · show (watch answers m (.scheduleRetry m atMs) s1).2.seen.wake = _
    rw [hsched]

theorem circuitGate_ends (hclock : Monotone fun n => (answers n).now)
    (hdraw : ∀ n, 0 ≤ (answers n).draw ∧ (answers n).draw < 1) {lang : Lang}
    (hfits : lang = .go → en.circuitCfg.cooldownMs < 2 ^ 63)
    (hopened : OpenedBefore answers s.made (s.circuit m)) :
    Prog.Ends (watch answers m) (circuitGate lang.dialect en m)
      (fun gate s' => match gate with
        | none => ∃ o, TurnedAway en answers m s s' o
        | some circuit => LetThrough en answers m circuit s s') s := by
  unfold circuitGate
  have hget : s.Idled m (watch answers m (.getCircuit m.tenant m.endpointId) s).2 :=
    idle_step trivial
  have hnow : s.Idled m (watch answers m .now
      (watch answers m (.getCircuit m.tenant m.endpointId) s).2).2 :=
    hget.trans (idle_step trivial)
  refine ends_port (ends_port ?_)
  show Prog.Ends _
    (if (canAttempt (gated en (s.circuit m)) (answers (s.made + 1)).now).allow then
      if (canAttempt (gated en (s.circuit m)) (answers (s.made + 1)).now).probe then do
        port (.putCircuit m.tenant m.endpointId (toHalfOpen (gated en (s.circuit m))))
        return some (toHalfOpen (gated en (s.circuit m)))
      else return some (gated en (s.circuit m))
    else do
      park lang.dialect m (gated en (s.circuit m))
      return none) _ _
  have hsince : (answers s.made).now ≤ (answers (s.made + 1)).now := hclock (Nat.le_succ _)
  have hlatest : (answers (s.made + 1)).now ≤ (answers (s.made + 1 + 1 + 1)).now :=
    hclock (by omega)
  cases hstate : (s.circuit m).state with
  | closed =>
    have hcan : canAttempt (gated en (s.circuit m)) (answers (s.made + 1)).now =
        { allow := true, probe := false } := by simp [canAttempt, gated, hstate]
    rw [hcan, if_pos rfl, if_neg (by simp)]
    refine Prog.ends_pure ⟨hnow.made, hnow.outcome, hnow.posts, hnow.parked, ?_, ?_⟩
    · intro o ho
      rw [hstate] at ho
      cases ho
    · rw [if_pos hstate]
  | halfOpen =>
    have hcan : canAttempt (gated en (s.circuit m)) (answers (s.made + 1)).now =
        { allow := true, probe := true } := by simp [canAttempt, gated, hstate]
    rw [hcan, if_pos rfl, if_pos rfl]
    refine ends_port (Prog.ends_pure ⟨?_, hnow.outcome, hnow.posts, hnow.parked, ?_, ?_⟩)
    · exact hnow.made.trans (Nat.le_succ _)
    · intro o ho
      rw [hstate] at ho
      cases ho
    · rw [if_neg (by simp [hstate])]
  | opened =>
    obtain ⟨o, ho, hbefore⟩ := hopened hstate
    by_cases helapsed : en.circuitCfg.cooldownMs ≤ (answers (s.made + 1)).now - o
    · have hcan : canAttempt (gated en (s.circuit m)) (answers (s.made + 1)).now =
          { allow := true, probe := true } := by simp [canAttempt, gated, hstate, ho, helapsed]
      rw [hcan, if_pos rfl, if_pos rfl]
      refine ends_port (Prog.ends_pure ⟨?_, hnow.outcome, hnow.posts, hnow.parked, ?_, ?_⟩)
      · exact hnow.made.trans (Nat.le_succ _)
      · intro o' _ ho'
        obtain rfl : o = o' := Option.some.inj (ho.symm.trans ho')
        show o + _ ≤ (answers (s.made + 1 + 1 + 1)).now
        linarith
      · rw [if_neg (by simp [hstate])]
    · have hcan : canAttempt (gated en (s.circuit m)) (answers (s.made + 1)).now =
          { allow := false, probe := false } := by simp [canAttempt, gated, hstate, ho, helapsed]
      rw [hcan, if_neg (by simp)]
      have hpos : 0 < en.circuitCfg.cooldownMs := by linarith [not_le.mp helapsed]
      refine Prog.Ends.bind (park_ends hdraw hfits (hnow.circuit ▸ ho) hpos) ?_
      intro _ s' ⟨hc, hm, hout, hposts, hwake⟩
      refine Prog.ends_pure ⟨o, hc.trans hnow.circuit, hnow.made.trans hm, hout.trans hnow.outcome,
        hposts.trans hnow.posts, hstate, ho, ⟨s.made + 1, Nat.le_succ _, ?_⟩, hwake⟩
      linarith [not_le.mp helapsed]

theorem Watch.Idled.turnedAway {s1 s2 : Watch} {o : Time} (h : s.Idled m s1)
    (h2 : TurnedAway en answers m s1 s2 o) : TurnedAway en answers m s s2 o where
  circuit := h2.circuit.trans h.circuit
  made := h.made.trans h2.made
  outcome := h2.outcome.trans h.outcome
  posts := h2.posts.trans h.posts
  state := by rw [← h.circuit]; exact h2.state
  openedAt := by rw [← h.circuit]; exact h2.openedAt
  gate := by
    obtain ⟨k, hk, hlt⟩ := h2.gate
    exact ⟨k, h.made.trans hk, hlt⟩
  wake := h2.wake

theorem Watch.Idled.letThrough {s1 s2 : Watch} {circuit : CircuitRecord} (h : s.Idled m s1)
    (h2 : LetThrough en answers m circuit s1 s2) : LetThrough en answers m circuit s s2 where
  made := h.made.trans h2.made
  outcome := h2.outcome.trans h.outcome
  posts := h2.posts.trans h.posts
  parked := h2.parked.trans h.parked
  gate := by rw [← h.circuit]; exact h2.gate
  circuit := by rw [← h.circuit]; exact h2.circuit

/-- What one call of `processMessage` does, seen from the endpoint's circuit. -/
inductive Passage (en : Engine) (answers : Nat → Answer) (m : Message) (s s' : Watch) : Prop
  | idle (h : s.Idled m s')
  | parked (o : Time) (h : TurnedAway en answers m s s' o)
  | attempted (circuit : CircuitRecord) (s1 : Watch) (h : LetThrough en answers m circuit s s1)
      (h' : Attempted en answers m circuit s1 s')

theorem process_ends (hclock : Monotone fun n => (answers n).now)
    (hdraw : ∀ n, 0 ≤ (answers n).draw ∧ (answers n).draw < 1) {job : Job}
    (hfits : job.lang = .go → en.circuitCfg.cooldownMs < 2 ^ 63)
    (hopened : OpenedBefore answers s.made (s.circuit job.message))
    (hs : s.seen.parked = false) :
    Prog.Ends (watch answers job.message) (job.process en)
      (fun _ s' => Passage en answers job.message s s') s := by
  rw [Job.process_eq]
  unfold processWith
  have hget : s.Idled job.message (watch answers job.message
      (.getEndpoint job.message.tenant job.message.endpointId) s).2 := idle_step trivial
  have hgone : Prog.Ends (watch answers job.message) (endpointGone job.message)
      (fun _ s' => Passage en answers job.message s s') (watch answers job.message
        (.getEndpoint job.message.tenant job.message.endpointId) s).2 :=
    (idles (endpointGone_idle _) (hget.parked.trans hs)).mono fun _ _ h => .idle (hget.trans h)
  refine ends_port ?_
  cases (exec (some job.message) (answers s.made)
    (.getEndpoint job.message.tenant job.message.endpointId) s.world).1 with
  | none => exact hgone
  | some ep =>
    dsimp only
    split
    · exact hgone
    · refine (idles (rateLimitGate_idle _ _ ep) (hget.parked.trans hs)).bind ?_
      intro throttled s1 h1
      have hidle := hget.trans h1
      split
      · exact Prog.ends_pure (.idle hidle)
      · have hopened1 : OpenedBefore answers s1.made (s1.circuit job.message) := by
          intro hstate
          rw [hidle.circuit] at hstate ⊢
          obtain ⟨o, ho, hle⟩ := hopened hstate
          exact ⟨o, ho, hle.trans (hclock hidle.made)⟩
        refine (circuitGate_ends hclock hdraw hfits hopened1).bind ?_
        intro gate s2 h2
        cases gate with
        | none =>
          obtain ⟨o, h2⟩ := h2
          exact Prog.ends_pure (.parked o (hidle.turnedAway h2))
        | some circuit =>
          have hparked : s2.seen.parked = false := h2.parked.trans (hidle.parked.trans hs)
          refine (attemptDelivery_ends hclock ep circuit hparked).mono ?_
          intro _ s3 h3
          exact .attempted circuit s2 (hidle.letThrough h2) h3

end Parts

/-! ## The history of the calls -/

section History
variable {seen : Seen} {history : List Seen}

theorem failures_none (h : seen.outcome = none) :
    failures (seen :: history) = failures history := by
  simp [failures, Seen.delivered, Seen.failed, h]

theorem failures_delivered (h : seen.outcome = some .delivered) :
    failures (seen :: history) = 0 := by
  simp [failures, Seen.delivered, h]

theorem failures_failed (h : seen.failed = true) :
    failures (seen :: history) = failures history + 1 := by
  have hd : seen.delivered = false := by
    unfold Seen.failed at h
    unfold Seen.delivered
    cases ho : seen.outcome with
    | none => rfl
    | some o =>
      rw [ho] at h
      simpa using h
  simp [failures, hd, h]

theorem lastFailure_none (h : seen.failed = false) :
    lastFailure (seen :: history) = lastFailure history := by
  simp [lastFailure, h]

theorem lastFailure_failed (h : seen.failed = true) :
    lastFailure (seen :: history) = seen.writtenAt := by
  simp [lastFailure, h]

end History

/-! ## The breaker after every call -/

section Law
variable {en : Engine} {tenant endpointId : String} {answers : Nat → Answer} {c : Course}
variable {v : Visit en tenant endpointId answers}

theorem enter_circuit (c : Course) (v : Visit en tenant endpointId answers) :
    (c.enter v).circuit v.job.message = c.circuit tenant endpointId := by
  have htarget := v.target
  unfold Message.target at htarget
  obtain ⟨ht, he⟩ := Prod.mk.inj htarget
  obtain ⟨endpoints, h⟩ := c.world.changed_tenants v.changes tenant
  unfold Watch.circuit Course.circuit Course.enter MemoryStateStore.getCircuit
  rw [ht, he, h]

theorem visit_circuit (c : Course) (v : Visit en tenant endpointId answers) :
    (c.visit answers v).circuit tenant endpointId =
      (c.leave answers v).circuit v.job.message := by
  have htarget := v.target
  unfold Message.target at htarget
  obtain ⟨ht, he⟩ := Prod.mk.inj htarget
  unfold Watch.circuit Course.circuit Course.visit
  rw [ht, he]

/-- What the calls made so far say about the stored circuit. -/
structure Tallied (en : Engine) (tenant endpointId : String) (answers : Nat → Answer) (c : Course) :
    Prop where
  count : (c.circuit tenant endpointId).consecutiveFailures = failures c.history
  state : (c.circuit tenant endpointId).state =
    if en.circuitCfg.failureThreshold ≤ failures c.history then .opened else .closed
  openedAt : (c.circuit tenant endpointId).openedAt =
    if en.circuitCfg.failureThreshold ≤ failures c.history then lastFailure c.history else none
  opened : OpenedBefore answers c.made (c.circuit tenant endpointId)

section Step
variable (hclock : Monotone fun n => (answers n).now)
include hclock

theorem Tallied.passage (h : Tallied en tenant endpointId answers c)
    (hdraw : ∀ n, 0 ≤ (answers n).draw ∧ (answers n).draw < 1)
    (v : Visit en tenant endpointId answers) :
    Passage en answers v.job.message (c.enter v) (c.leave answers v) := by
  have hopened : OpenedBefore answers (c.enter v).made ((c.enter v).circuit v.job.message) := by
    rw [enter_circuit]
    exact h.opened
  obtain ⟨u, s', hrun, hp⟩ := process_ends hclock hdraw (fun hgo => (v.fits hgo).1) hopened rfl
  unfold Course.leave
  rw [hrun]
  exact hp

/-- A call without an outcome leaves the circuit as it is. -/
theorem Tallied.unchanged (h : Tallied en tenant endpointId answers c)
    (hcircuit : (c.leave answers v).circuit v.job.message = (c.enter v).circuit v.job.message)
    (hmade : c.made ≤ (c.leave answers v).made) (hnone : (c.leave answers v).seen.outcome = none) :
    Tallied en tenant endpointId answers (c.visit answers v) := by
  have hsame : (c.visit answers v).circuit tenant endpointId = c.circuit tenant endpointId := by
    rw [visit_circuit, hcircuit, enter_circuit]
  have hfail : failures (c.visit answers v).history = failures c.history := failures_none hnone
  have hlast : lastFailure (c.visit answers v).history = lastFailure c.history :=
    lastFailure_none (by simp [Seen.failed, hnone])
  refine ⟨by rw [hsame, hfail, h.count], by rw [hsame, hfail, h.state],
    by rw [hsame, hfail, hlast, h.openedAt], ?_⟩
  intro hstate
  rw [hsame] at hstate ⊢
  obtain ⟨o, ho, hle⟩ := h.opened hstate
  exact ⟨o, ho, hle.trans (hclock hmade)⟩

theorem Tallied.attempted (h : Tallied en tenant endpointId answers c)
    (hpos : 1 ≤ en.circuitCfg.failureThreshold) {circuit : CircuitRecord} {s1 : Watch}
    (hl : LetThrough en answers v.job.message circuit (c.enter v) s1)
    (ha : Attempted en answers v.job.message circuit s1 (c.leave answers v)) :
    Tallied en tenant endpointId answers (c.visit answers v) := by
  have hcirc := hl.circuit
  rw [enter_circuit] at hcirc
  have hcount : circuit.consecutiveFailures = failures c.history := by
    rw [← h.count, hcirc]
    split <;> rfl
  obtain ⟨hout, hc⟩ | ⟨hfailed, k, hk, hw, hc⟩ := ha.counted
  · have hzero : failures (c.visit answers v).history = 0 := failures_delivered hout
    have hbelow : ¬ en.circuitCfg.failureThreshold ≤ 0 := by omega
    have hvisit := (visit_circuit c v).trans hc
    refine ⟨by rw [hvisit, hzero]; rfl, by rw [hvisit, hzero, if_neg hbelow]; rfl,
      by rw [hvisit, hzero, if_neg hbelow]; rfl, ?_⟩
    intro hstate
    rw [hvisit] at hstate
    cases hstate
  · have hsucc : failures (c.visit answers v).history = failures c.history + 1 :=
      failures_failed hfailed
    have hlast : lastFailure (c.visit answers v).history = some (answers k).now :=
      (lastFailure_failed hfailed).trans hw
    have hvisit := (visit_circuit c v).trans hc
    -- A probe failed exactly when the count had reached the threshold before.
    have hopens : circuit.state = .halfOpen ∨
        en.circuitCfg.failureThreshold ≤ circuit.consecutiveFailures + 1 ↔
          en.circuitCfg.failureThreshold ≤ failures c.history + 1 := by
      rw [hcount]
      constructor
      · intro hor
        obtain hhalf | hle := hor
        · by_contra hlt
          have hclosed := h.state
          rw [if_neg (by omega)] at hclosed
          rw [hcirc, if_pos hclosed] at hhalf
          have : (c.circuit tenant endpointId).state = .halfOpen := hhalf
          rw [hclosed] at this
          cases this
        · exact hle
      · exact .inr
    refine ⟨?_, ?_, ?_, ?_⟩
    · rw [hvisit, onFailure_consecutiveFailures, hcount, hsucc]
    · rw [hvisit, onFailure_state, hsucc]
      simp only [hopens]
    · rw [hvisit, onFailure_openedAt, hsucc, hlast]
      simp only [hopens]
    · intro hstate
      rw [hvisit, onFailure_state] at hstate
      rw [hvisit, onFailure_openedAt]
      split at hstate
      · rename_i hor
        rw [if_pos hor]
        exact ⟨_, rfl, hclock hk.le⟩
      · cases hstate

theorem Tallied.visit (h : Tallied en tenant endpointId answers c)
    (hdraw : ∀ n, 0 ≤ (answers n).draw ∧ (answers n).draw < 1)
    (hpos : 1 ≤ en.circuitCfg.failureThreshold) (v : Visit en tenant endpointId answers) :
    Tallied en tenant endpointId answers (c.visit answers v) := by
  cases h.passage hclock hdraw v with
  | idle hi => exact h.unchanged hclock hi.circuit hi.made hi.outcome
  | parked o ht => exact h.unchanged hclock ht.circuit ht.made ht.outcome
  | attempted circuit s1 hl ha => exact h.attempted hclock hpos hl ha

/-- A call that does not fail leaves an open circuit as it is, or closes it. -/
theorem Tallied.still_opened (h : Tallied en tenant endpointId answers c)
    (hdraw : ∀ n, 0 ≤ (answers n).draw ∧ (answers n).draw < 1)
    (hok : (c.leave answers v).seen.failed = false) {o : Time}
    (ho : (c.circuit tenant endpointId).state = .opened →
      (c.circuit tenant endpointId).openedAt = some o)
    (hstate : ((c.visit answers v).circuit tenant endpointId).state = .opened) :
    ((c.visit answers v).circuit tenant endpointId).openedAt = some o := by
  rw [visit_circuit] at hstate ⊢
  cases h.passage hclock hdraw v with
  | idle hi =>
    rw [hi.circuit, enter_circuit] at hstate ⊢
    exact ho hstate
  | parked _ ht =>
    rw [ht.circuit, enter_circuit] at hstate ⊢
    exact ho hstate
  | attempted circuit s1 hl ha =>
    obtain ⟨-, hc⟩ | ⟨hfailed, -⟩ := ha.counted
    · rw [hc] at hstate
      cases hstate
    · rw [hok] at hfailed
      cases hfailed

/-- While an open circuit cools down, a call makes no POST. -/
theorem Tallied.no_post (h : Tallied en tenant endpointId answers c)
    (hdraw : ∀ n, 0 ≤ (answers n).draw ∧ (answers n).draw < 1) {t o : Time}
    (hstate : (c.circuit tenant endpointId).state = .opened)
    (ho : (c.circuit tenant endpointId).openedAt = some o)
    (ht : t ∈ (c.leave answers v).seen.posts) : o + en.circuitCfg.cooldownMs ≤ t := by
  cases h.passage hclock hdraw v with
  | idle hi =>
    rw [hi.posts] at ht
    cases ht
  | parked _ hp =>
    rw [hp.posts] at ht
    cases ht
  | attempted circuit s1 hl ha =>
    obtain hold | hnew := ha.posts t ht
    · rw [hl.posts] at hold
      cases hold
    · have hgate := hl.gate o
      rw [enter_circuit] at hgate
      exact (hgate hstate ho).trans hnew

/-- A parked message was turned away by the gate. -/
theorem Tallied.turnedAway (h : Tallied en tenant endpointId answers c)
    (hdraw : ∀ n, 0 ≤ (answers n).draw ∧ (answers n).draw < 1)
    (hparked : (c.leave answers v).seen.parked = true) :
    ∃ o, TurnedAway en answers v.job.message (c.enter v) (c.leave answers v) o := by
  cases h.passage hclock hdraw v with
  | idle hi =>
    rw [hi.parked] at hparked
    cases hparked
  | parked o hp => exact ⟨o, hp⟩
  | attempted circuit s1 hl ha =>
    rw [ha.parked] at hparked
    cases hparked

/-- Through later calls none of which fails, the opening time stays. -/
theorem Tallied.opening_stays (h : Tallied en tenant endpointId answers c)
    (hdraw : ∀ n, 0 ≤ (answers n).draw ∧ (answers n).draw < 1)
    (hpos : 1 ≤ en.circuitCfg.failureThreshold) {o : Time}
    (ho : (c.circuit tenant endpointId).state = .opened →
      (c.circuit tenant endpointId).openedAt = some o)
    (later : List (Visit en tenant endpointId answers))
    (hlater : Along (Course.visit answers) (fun c v => (c.leave answers v).seen.failed = false)
      c later) :
    Tallied en tenant endpointId answers (later.foldl (Course.visit answers) c) ∧
      (((later.foldl (Course.visit answers) c).circuit tenant endpointId).state = .opened →
        ((later.foldl (Course.visit answers) c).circuit tenant endpointId).openedAt = some o) := by
  induction later generalizing c with
  | nil => exact ⟨h, ho⟩
  | cons v later ih =>
    exact ih (h.visit hclock hdraw hpos v) (h.still_opened hclock hdraw hlater.1 ho) hlater.2

theorem Tallied.breaksRight (h : Tallied en tenant endpointId answers c)
    (hdraw : ∀ n, 0 ≤ (answers n).draw ∧ (answers n).draw < 1)
    (hpos : 1 ≤ en.circuitCfg.failureThreshold) :
    BreaksRight en tenant endpointId answers c where
  count := h.count
  state := h.state
  openedAt := h.openedAt
  known := by
    intro hstate
    obtain ⟨o, ho, -⟩ := h.opened hstate
    rw [ho]
    rfl
  quiet := by
    intro v t o hstate ho ht hwindow
    have hle := h.no_post hclock hdraw hstate ho ht
    linarith [hwindow.2]
  wakes := by
    intro v hparked
    obtain ⟨o, ht⟩ := h.turnedAway hclock hdraw hparked
    obtain ⟨atMs, hwake, hle, hlt⟩ := ht.wake
    have hopened := ht.openedAt
    rw [enter_circuit] at hopened
    refine ⟨o, atMs, hopened, hwake, hle, hlt, ?_⟩
    intro later hlater v' hstart
    have hsame : ((c.visit answers v).circuit tenant endpointId).state = .opened →
        ((c.visit answers v).circuit tenant endpointId).openedAt = some o := by
      intro _
      rw [visit_circuit, ht.circuit, enter_circuit]
      exact hopened
    obtain ⟨hkept, hstays⟩ :=
      (h.visit hclock hdraw hpos v).opening_stays hclock hdraw hpos hsame later hlater
    by_contra hagain
    obtain ⟨o', ht'⟩ := hkept.turnedAway hclock hdraw (by simpa using hagain)
    have hstate' := ht'.state
    have hopened' := ht'.openedAt
    rw [enter_circuit] at hstate' hopened'
    obtain rfl : o = o' := Option.some.inj ((hstays hstate').symm.trans hopened')
    obtain ⟨k, hk, hearly⟩ := ht'.gate
    have hclose : (answers (later.foldl (Course.visit answers) (c.visit answers v)).made).now ≤
        (answers k).now := hclock hk
    linarith

end Step

/-- **The breaker of one endpoint, call after call.** For every sequence of calls, from a
fresh circuit. -/
theorem sequential_breaker (en : Engine) (tenant endpointId : String) (answers : Nat → Answer)
    (w : World) (cooldownMs : Time)
    (hfresh : w.store.getCircuit tenant endpointId = initialCircuit cooldownMs)
    (hpos : 1 ≤ en.circuitCfg.failureThreshold) (hclock : Monotone fun n => (answers n).now)
    (hdraw : ∀ n, 0 ≤ (answers n).draw ∧ (answers n).draw < 1)
    (visits : List (Visit en tenant endpointId answers)) :
    BreaksRight en tenant endpointId answers
      (visits.foldl (Course.visit answers) (Course.begin w)) := by
  have hbegin : Tallied en tenant endpointId answers (Course.begin w) := by
    have hbelow : ¬ en.circuitCfg.failureThreshold ≤ failures (Course.begin w).history := by
      show ¬ en.circuitCfg.failureThreshold ≤ 0
      omega
    have hcircuit : (Course.begin w).circuit tenant endpointId = initialCircuit cooldownMs := hfresh
    refine ⟨by rw [hcircuit]; rfl, by rw [hcircuit, if_neg hbelow]; rfl,
      by rw [hcircuit, if_neg hbelow]; rfl, ?_⟩
    intro hstate
    rw [hcircuit] at hstate
    cases hstate
  have hkept : ∀ c, Tallied en tenant endpointId answers c →
      Tallied en tenant endpointId answers (visits.foldl (Course.visit answers) c) := by
    induction visits with
    | nil => exact fun c h => h
    | cons v visits ih => exact fun c h => ih _ (h.visit hclock hdraw hpos v)
  exact (hkept _ hbegin).breaksRight hclock hdraw hpos

end Law

/-- A millisecond a port call, for a second; every answer a 500. -/
def ticking (n : Nat) : Answer := answering (min n 1000 : Nat) (.response 500 "" none)

def delivering (lang : Lang) (messageId : String) :
    Visit (plainEngine 1) "acme" "ep_1" ticking where
  changes := []
  job := { lang := lang, message := messageFor messageId }
  target := rfl
  fits := by
    intro _
    refine ⟨show (100 : ℚ) < 2 ^ 63 by norm_num, fun n => ?_⟩
    show ((min n 1000 : Nat) : ℚ) + 2 * 100 ≤ 2 ^ 63
    have hsecond : ((min n 1000 : Nat) : ℚ) ≤ 1000 := by exact_mod_cast min_le_right n 1000
    linarith

/-- The first failure opens the circuit, and the Go engine parks the next message. -/
theorem opens_and_parks :
    (((Course.begin oneEndpoint).visit ticking (delivering .ts "msg_a")).leave ticking
        (delivering .go "msg_b")).seen.parked = true ∧
      BreaksRight (plainEngine 1) "acme" "ep_1" ticking
        ((Course.begin oneEndpoint).visit ticking (delivering .ts "msg_a")) := by
  have hclock : Monotone fun n => (ticking n).now := by
    intro i j hij
    show ((min i 1000 : Nat) : ℚ) ≤ (min j 1000 : Nat)
    exact_mod_cast min_le_min_right 1000 hij
  have hdraw : ∀ n, 0 ≤ (ticking n).draw ∧ (ticking n).draw < 1 := by
    intro n
    show (0 : ℚ) ≤ 0 ∧ (0 : ℚ) < 1
    norm_num
  refine ⟨by decide +kernel, ?_⟩
  exact sequential_breaker (plainEngine 1) "acme" "ep_1" ticking oneEndpoint defaultCooldownMs rfl
    le_rfl hclock hdraw [delivering .ts "msg_a"]

end Anyhook.Breaker
