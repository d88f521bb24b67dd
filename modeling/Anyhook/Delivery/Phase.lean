import Anyhook.Go.Engine

/-! How far one call of `processMessage` has come with its message. The phase follows
the writes that make up the message's state: the stored row, the attempt log, the
dead-letter row and the wake-up. `process_obeys` says that every path of either engine
writes in the order of the phases, touches nothing but its own message and endpoint,
and returns only once the message is delivered, scheduled again or dead-lettered. -/
namespace Anyhook.Delivery
open Anyhook.Core Anyhook.Lib.Program Anyhook.Lib.CodeUnits

inductive Phase where
  /-- Nothing stored yet. -/
  | begun
  /-- Stored as waiting; `copy` is to be scheduled. -/
  | waiting (copy : Message)
  | scheduled (copy : Message)
  /-- Stored as delivering, no outcome yet. -/
  | trying
  | answered (outcome : Outcome)
  /-- Answered with success and stored as delivered, not logged. -/
  | accepted
  | delivered
  /-- Logged as retried, next attempt not stored. -/
  | failed
  /-- Stored as dead, not logged. -/
  | doomed
  /-- Logged as dead, no dead-letter row. -/
  | mourned
  | buried
  deriving DecidableEq

/-- The rows a call for `m` may store. -/
def Phase.stores (m x : Message) : Phase → Prop
  | .begun => x = { m with status := .dead } ∨ x = { m with status := .delivering } ∨
      x = { m with status := .blocked } ∨
      ∃ t, x = { m with status := .retrying, nextAttemptAt := some t }
  | .answered .delivered => x = { m with status := .delivered }
  | .answered _ => x = { m with status := .dead }
  | .failed => ∃ t, x = { m with
      attemptNo := m.attemptNo + 1, status := .retrying, nextAttemptAt := some t }
  | _ => False

/-- The attempts a call for `m` may log. Only a slot of the schedule is retried. -/
def Phase.logs (en : Engine) (m : Message) (outcome : AttemptOutcome) : Phase → Prop
  | .doomed => outcome = .dead
  | .accepted => outcome = .delivered
  | .answered .retryable =>
    outcome = .retried ∧ 0 ≤ m.attemptNo ∧ m.attemptNo < en.retry.scheduleMs.length
  | _ => False

def Phase.allows (en : Engine) (m : Message) (p : Phase) : Op → Prop
  | .getEndpoint t e | .getCircuit t e | .getRateBucket t e | .putCircuit t e _
  | .putRateBucket t e _ => (t, e) = m.target
  | .putMessage x => p.stores m x
  | .appendAttempt a => a.tenant = m.tenant ∧ a.messageId = m.messageId ∧
      a.endpointId = m.endpointId ∧ a.attemptNo = m.attemptNo ∧ p.logs en m a.outcome
  | .addToDlq x _ => x = m ∧ p = .mourned
  | .scheduleRetry x _ => p = .waiting x
  | .check _ | .post .. => p = .trying
  | .recordAttempt _ | .now | .next => True
  | .recordEvent .. | .finalizeEvent .. | .matchEndpoints .. | .transportSend _ => False

def Phase.next (m : Message) (p : Phase) : (op : Op) → Res op → Phase
  | .putMessage x, _ => match p with
    | .begun => match x.status with
      | .dead => .doomed
      | .delivering => .trying
      | _ => .waiting m
    | .answered .delivered => .accepted
    | .answered _ => .doomed
    | .failed => .waiting x
    | p => p
  | .appendAttempt _, _ => match p with
    | .doomed => .mourned
    | .accepted => .delivered
    | .answered .retryable => .failed
    | p => p
  | .addToDlq .., _ => match p with
    | .mourned => .buried
    | p => p
  | .scheduleRetry x _, _ => match p with
    | .waiting _ => .scheduled x
    | p => p
  | .check _, v => if v.allowed then p else .answered .permanent
  | .post .., res => .answered (outcomeOf res)
  | .recordEvent .., _ | .finalizeEvent .., _ | .getEndpoint .., _ | .matchEndpoints .., _
  | .getCircuit .., _ | .putCircuit .., _ | .getRateBucket .., _ | .putRateBucket .., _
  | .transportSend _, _ | .recordAttempt _, _ | .now, _ | .next, _ => p

/-- The message is delivered, scheduled again or dead-lettered. -/
def Phase.settled : Phase → Prop
  | .scheduled _ => True
  | .delivered => True
  | .buried => True
  | _ => False

/-- The monitor of a call for message `m`, kept with it as its view. -/
def monitor (en : Engine) : Monitor Op Res (Message × Phase) where
  allows g op := g.2.allows en g.1 op
  next g op r := (g.1, g.2.next g.1 op r)

/-! ## The footprint of a call -/

/-- The same message to the same endpoint, perhaps in another state. -/
structure Same (m x : Message) : Prop where
  tenant : x.tenant = m.tenant
  messageId : x.messageId = m.messageId
  endpointId : x.endpointId = m.endpointId

theorem Same.refl (m : Message) : Same m m := ⟨rfl, rfl, rfl⟩

theorem Same.key {m x : Message} (h : Same m x) : x.key = m.key := by
  simp [Message.key, h.tenant, h.messageId]

theorem Phase.stores_same {m x : Message} {p : Phase} (h : p.stores m x) : Same m x := by
  cases p with
  | begun => obtain rfl | rfl | rfl | ⟨t, rfl⟩ := h <;> exact ⟨rfl, rfl, rfl⟩
  | answered o => cases o <;> obtain rfl := h <;> exact ⟨rfl, rfl, rfl⟩
  | failed => obtain ⟨t, rfl⟩ := h; exact ⟨rfl, rfl, rfl⟩
  | _ => exact absurd h id

/-- What is about to be scheduled is the call's own message. -/
def Phase.keyed (m : Message) : Phase → Prop
  | .waiting x => Same m x
  | _ => True

theorem Phase.keyed_next {en : Engine} {m : Message} {p : Phase} {op : Op} (h : p.keyed m)
    (ha : p.allows en m op) (r : Res op) : (p.next m op r).keyed m := by
  cases op with
  | putMessage x =>
    have hs := Phase.stores_same ha
    cases p with
    | begun =>
      dsimp only [Phase.next]
      split
      · trivial
      · trivial
      · exact .refl m
    | answered o => cases o <;> trivial
    | failed => exact hs
    | _ => exact h
  | appendAttempt a =>
    cases p with
    | answered o => cases o <;> trivial
    | _ => exact h
  | addToDlq x r => cases p <;> exact h
  | scheduleRetry x t => cases p <;> first | exact h | trivial
  | check url =>
    dsimp only [Phase.next]
    split
    · exact h
    · trivial
  | post url body headers timeoutMs => trivial
  | _ => exact h

/-- An operation on nothing but the message and endpoint of the call. -/
def Footprint (m : Message) : Op → Prop
  | .getEndpoint t e | .getCircuit t e | .getRateBucket t e | .putCircuit t e _
  | .putRateBucket t e _ => (t, e) = m.target
  | .putMessage x | .addToDlq x _ | .scheduleRetry x _ => Same m x
  | .appendAttempt a =>
    a.tenant = m.tenant ∧ a.messageId = m.messageId ∧ a.endpointId = m.endpointId
  | .recordAttempt _ | .check _ | .post .. | .now | .next => True
  | .recordEvent .. | .finalizeEvent .. | .matchEndpoints .. | .transportSend _ => False

theorem Phase.footprint {en : Engine} {m : Message} {p : Phase} {op : Op} (h : p.keyed m)
    (ha : p.allows en m op) : Footprint m op := by
  cases op with
  | putMessage x => exact Phase.stores_same ha
  | appendAttempt a => exact ⟨ha.1, ha.2.1, ha.2.2.1⟩
  | addToDlq x r => obtain ⟨rfl, -⟩ := ha; exact .refl _
  | scheduleRetry x t =>
    have hp : p = .waiting x := ha
    rw [hp] at h
    exact h
  | check url => trivial
  | post url body headers timeoutMs => trivial
  | _ => exact ha

/-! ## The gates -/

/-- How far a message gets before a delivery is tried. -/
inductive Pass where
  | gone
  | throttled
  | blocked
  | admitted (endpoint : Endpoint) (circuit : CircuitRecord)

section Parts
variable (d : Dialect) (en : Engine) (m : Message)

def gates : Eng Pass := do
  let endpoint ← port (.getEndpoint m.tenant m.endpointId)
  match endpoint with
  | none => return .gone
  | some endpoint =>
    if endpoint.disabled then return .gone
    else
      let throttled ← rateLimitGate d m endpoint
      if throttled then return .throttled
      else
        let circuit ← circuitGate d en m
        match circuit with
        | none => return .blocked
        | some circuit => return .admitted endpoint circuit

def afterGates : Pass → Eng Unit
  | .gone => endpointGone m
  | .throttled => return ()
  | .blocked => return ()
  | .admitted endpoint circuit => attemptDelivery d en m endpoint circuit

theorem processWith_eq : processWith d en m = gates d en m >>= afterGates d en m := by
  unfold processWith gates
  rw [bind_assoc]
  refine congrArg _ (funext fun endpoint => ?_)
  cases endpoint with
  | none => rfl
  | some ep =>
    dsimp only
    split
    · rfl
    · rw [bind_assoc]
      refine congrArg _ (funext fun throttled => ?_)
      cases throttled with
      | true => rfl
      | false =>
        simp only [Bool.false_eq_true, if_false]
        rw [bind_assoc]
        refine congrArg _ (funext fun circuit => ?_)
        cases circuit <;> rfl

/-! ## The parts of `processMessage` -/

theorem reads_obeys {α : Type} {done : Message × Phase → α → Prop} {p : Phase} {prog : Eng α}
    (hp : Reads prog) (hd : ∀ a, done (m, p) a) : Obeys (monitor en) done (m, p) prog :=
  hp.obeys ⟨trivial, fun _ => rfl⟩ ⟨trivial, fun _ => rfl⟩ hd

theorem record_obeys {p : Phase} {a : Attempt} (ha : p.allows en m (.appendAttempt a)) :
    Obeys (monitor en) (fun g _ => g = (m, p.next m (.appendAttempt a) ())) (m, p) (record a) :=
  ⟨ha, fun _ => ⟨trivial, fun _ => rfl⟩⟩

/-- Dead-lettering, from any phase that may still store the message as dead. -/
theorem dlq_obeys {p : Phase} (status : AttemptStatus) (latencyMs : Time) (snippet : Slice)
    (ts : Time) (outcome : AttemptOutcome) (r : DlqReason)
    (hs : p.stores m { m with status := .dead })
    (hn : p.next m (.putMessage { m with status := .dead }) () = .doomed) :
    Obeys (monitor en) (fun g _ => g = (m, .buried)) (m, p)
      (dlq m (attemptOf m status latencyMs snippet ts outcome) r) := by
  refine obeys_perform_bind.mpr ⟨hs, fun _ => ?_⟩
  have hd : (monitor en).next (m, p) (.putMessage { m with status := .dead }) () = (m, .doomed) :=
    congrArg (m, ·) hn
  rw [hd, obeys_bind]
  refine (record_obeys en m (p := .doomed) (a := attemptOf m status latencyMs snippet ts .dead)
    ⟨rfl, rfl, rfl, rfl, rfl⟩).mono ?_
  rintro g _ rfl
  exact ⟨⟨rfl, rfl⟩, fun _ => rfl⟩

theorem endpointGone_obeys :
    Obeys (monitor en) (fun g _ => g = (m, .buried)) (m, .begun) (endpointGone m) :=
  obeys_perform_bind.mpr ⟨trivial, fun _ => dlq_obeys en m _ _ _ _ _ _ (.inl rfl) rfl⟩

/-- The rate-limit gate schedules the message as it is, or leaves it alone. -/
theorem rateLimitGate_obeys (ep : Endpoint) :
    Obeys (monitor en) (fun g throttled => g = (m, if throttled then .scheduled m else .begun))
      (m, .begun) (rateLimitGate d m ep) := by
  unfold rateLimitGate
  cases ep.rateLimit with
  | none => rfl
  | some rate =>
    dsimp only
    split
    · refine obeys_perform_bind.mpr ⟨trivial, fun now => ?_⟩
      refine obeys_perform_bind.mpr ⟨rfl, fun stored => ?_⟩
      refine obeys_perform_bind.mpr ⟨rfl, fun _ => ?_⟩
      split
      · rfl
      · exact ⟨.inr (.inr (.inr ⟨_, rfl⟩)), fun _ => ⟨rfl, fun _ => rfl⟩⟩
    · rfl

theorem park_obeys (c : CircuitRecord) :
    Obeys (monitor en) (fun g _ => g = (m, .scheduled m)) (m, .begun) (park d m c) := by
  refine obeys_perform_bind.mpr ⟨.inr (.inr (.inl rfl)), fun _ => ?_⟩
  rw [obeys_bind]
  exact reads_obeys en m (p := .waiting m) (d.wakeAt_reads c) fun _ => ⟨rfl, fun _ => rfl⟩

theorem circuitGate_obeys :
    Obeys (monitor en) (fun g circuit => g = (m, if circuit.isSome then .begun else .scheduled m))
      (m, .begun) (circuitGate d en m) := by
  refine obeys_perform_bind.mpr ⟨rfl, fun stored => ?_⟩
  refine obeys_perform_bind.mpr ⟨trivial, fun now => ?_⟩
  dsimp only
  split
  · split
    · exact ⟨rfl, fun _ => rfl⟩
    · rfl
  · rw [obeys_bind]
    refine (park_obeys d en m _).mono ?_
    rintro g _ rfl
    rfl

/-- Throttled and blocked passes schedule the very copy they were given. -/
def PassPhase : Pass → Phase
  | .throttled => .scheduled m
  | .blocked => .scheduled m
  | _ => .begun

theorem gates_obeys :
    Obeys (monitor en) (fun g pass => g = (m, PassPhase m pass)) (m, .begun) (gates d en m) := by
  refine obeys_perform_bind.mpr ⟨rfl, fun endpoint => ?_⟩
  cases endpoint with
  | none => rfl
  | some ep =>
    dsimp only
    split
    · rfl
    · rw [obeys_bind]
      refine (rateLimitGate_obeys d en m ep).mono ?_
      rintro g throttled rfl
      cases throttled with
      | true => rfl
      | false =>
        simp only [Bool.false_eq_true, if_false]
        rw [obeys_bind]
        refine (circuitGate_obeys d en m).mono ?_
        rintro g circuit rfl
        cases circuit <;> rfl

theorem deliverWith_obeys (ep : Endpoint) :
    Obeys (monitor en) (fun g res => g = (m, .answered res.outcome)) (m, .trying)
      (deliverWith d en m ep) := by
  refine obeys_perform_bind.mpr ⟨rfl, fun v => ?_⟩
  cases hv : v.allowed with
  | false =>
    simp only [Bool.false_eq_true, if_false]
    rw [obeys_pure, d.refused_outcome]
    simp [monitor, Phase.next, hv]
  | true =>
    have hg : (monitor en).next (m, .trying) (.check ep.url) v = (m, .trying) := by
      simp [monitor, Phase.next, hv]
    rw [hg]
    refine obeys_perform_bind.mpr ⟨trivial, fun t1 => ?_⟩
    refine obeys_perform_bind.mpr ⟨trivial, fun t2 => ?_⟩
    refine obeys_perform_bind.mpr ⟨rfl, fun res => ?_⟩
    refine obeys_perform_bind.mpr ⟨trivial, fun t3 => ?_⟩
    rw [obeys_pure, d.resultOf_outcome]
    rfl

theorem onDelivered_obeys (c : CircuitRecord) (status : AttemptStatus) (latencyMs : Time)
    (snippet : Slice) (ts : Time) (outcome : AttemptOutcome) :
    Obeys (monitor en) (fun g _ => g.2.settled) (m, .answered .delivered)
      (onDelivered m c (attemptOf m status latencyMs snippet ts outcome)) := by
  refine obeys_perform_bind.mpr ⟨rfl, fun _ => ?_⟩
  refine obeys_perform_bind.mpr ⟨rfl, fun _ => ?_⟩
  refine (record_obeys en m (p := .accepted)
    (a := attemptOf m status latencyMs snippet ts .delivered) ⟨rfl, rfl, rfl, rfl, rfl⟩).mono ?_
  rintro g _ rfl
  trivial

theorem onPermanent_obeys (c : CircuitRecord) (status : AttemptStatus) (latencyMs : Time)
    (snippet : Slice) (ts : Time) (outcome : AttemptOutcome) (res : DeliveryResult) :
    Obeys (monitor en) (fun g _ => g.2.settled) (m, .answered .permanent)
      (onPermanent en m c (attemptOf m status latencyMs snippet ts outcome) res) := by
  refine obeys_perform_bind.mpr ⟨trivial, fun now => ?_⟩
  refine obeys_perform_bind.mpr ⟨rfl, fun _ => ?_⟩
  refine (dlq_obeys en m (p := .answered .permanent) _ _ _ _ _ _ rfl rfl).mono ?_
  rintro g _ rfl
  trivial

theorem onRetryable_obeys (c : CircuitRecord) (status : AttemptStatus) (latencyMs : Time)
    (snippet : Slice) (ts : Time) (res : DeliveryResult) :
    Obeys (monitor en) (fun g _ => g.2.settled) (m, .answered .retryable)
      (onRetryable d en m c (attemptOf m status latencyMs snippet ts .retried) res) := by
  have hdead : Obeys (monitor en) (fun g _ => g.2.settled) (m, .answered .retryable)
      (dlq m (attemptOf m status latencyMs snippet ts .retried) .exhaustedRetries) := by
    refine (dlq_obeys en m (p := .answered .retryable) _ _ _ _ _ _ rfl rfl).mono ?_
    rintro g _ rfl
    trivial
  refine obeys_perform_bind.mpr ⟨trivial, fun now => ?_⟩
  refine obeys_perform_bind.mpr ⟨rfl, fun _ => ?_⟩
  by_cases hslot : m.attemptNo < 0 ∨ m.attemptNo ≥ en.retry.scheduleMs.length
  · rw [d.nextDelayMs_exhausted _ _ _ hslot]
    exact hdead
  · rw [not_or, not_lt, not_le] at hslot
    rw [obeys_bind]
    refine reads_obeys en m (p := .answered .retryable) (d.nextDelayMs_reads ..) fun delay => ?_
    cases delay with
    | none => exact hdead
    | some delay =>
      dsimp only
      rw [obeys_bind]
      refine (record_obeys en m (p := .answered .retryable)
        ⟨rfl, rfl, rfl, rfl, rfl, hslot.1, hslot.2⟩).mono ?_
      rintro g _ rfl
      exact ⟨trivial, fun _ => ⟨⟨_, rfl⟩, fun _ => ⟨rfl, fun _ => trivial⟩⟩⟩

theorem attemptDelivery_obeys (ep : Endpoint) (c : CircuitRecord) :
    Obeys (monitor en) (fun g _ => g.2.settled) (m, .begun) (attemptDelivery d en m ep c) := by
  refine obeys_perform_bind.mpr ⟨.inr (.inl rfl), fun _ => ?_⟩
  rw [obeys_bind]
  refine (deliverWith_obeys d en m ep).mono ?_
  rintro g res rfl
  refine obeys_perform_bind.mpr ⟨trivial, fun ts => ?_⟩
  change Obeys (monitor en) _ (m, .answered res.outcome) _
  cases ho : res.outcome with
  | delivered => exact onDelivered_obeys en m c _ _ _ _ _
  | permanent => exact onPermanent_obeys en m c _ _ _ _ _ res
  | retryable => exact onRetryable_obeys d en m c _ _ _ _ res

/-- **Every path of either engine follows the phases and settles its message.** -/
theorem process_obeys :
    Obeys (monitor en) (fun g _ => g.2.settled) (m, .begun) (processWith d en m) := by
  rw [processWith_eq, obeys_bind]
  refine (gates_obeys d en m).mono ?_
  rintro g pass rfl
  cases pass with
  | gone =>
    refine (endpointGone_obeys en m).mono ?_
    rintro g _ rfl
    trivial
  | throttled => trivial
  | blocked => trivial
  | admitted ep c => exact attemptDelivery_obeys d en m ep c

end Parts
end Anyhook.Delivery
