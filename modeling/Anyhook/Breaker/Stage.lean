import Anyhook.Go.Engine

/-! How far one call of `processMessage` has come with its endpoint's circuit. The
stage follows the port calls of either engine: the read, the gate's decision, the
half-open write of a probe, the delivery's outcome and the write that records it.
`process_obeys` says that no path of either engine touches the circuit otherwise;
every statement about concurrent calls is derived from it. -/
namespace Anyhook.Breaker
open Anyhook.Core Anyhook.Lib.Program

/-- `circuit` is always the record the call will compute its next write from, with
the cooldown of the engine's configuration. -/
inductive Stage where
  | fresh
  | read (circuit : CircuitRecord)
  | parked
  | admitted (circuit : CircuitRecord)
  | probe (circuit : CircuitRecord)
  | probing (circuit : CircuitRecord)
  | answered (circuit : CircuitRecord) (outcome : Outcome) (asProbe : Bool)
  | recorded (outcome : Outcome)
  deriving DecidableEq

/-- The gate's decision at time `now` on the circuit that was read. -/
def Stage.gate (circuit : CircuitRecord) (now : Time) : Stage :=
  if (canAttempt circuit now).allow then
    if (canAttempt circuit now).probe then .probe (toHalfOpen circuit) else .admitted circuit
  else .parked

def Stage.answer (outcome : Outcome) : Stage → Stage
  | .admitted c => .answered c outcome false
  | .probing c => .answered c outcome true
  | s => s

/-- A circuit write moves a probe on, or records an outcome. -/
def Stage.wrote : Stage → Stage
  | .probe c => .probing c
  | .answered _ o _ => .recorded o
  | s => s

def Stage.next (en : Engine) (s : Stage) : (op : Op) → Res op → Stage
  | .getCircuit .., rec => match s with
    | .fresh => .read { rec with cooldownMs := en.circuitCfg.cooldownMs }
    | s => s
  | .now, t => match s with
    | .read c => .gate c t
    | s => s
  | .putCircuit .., _ => s.wrote
  | .check _, v => if v.allowed then s else s.answer .permanent
  | .post .., res => s.answer (outcomeOf res)
  | .recordEvent .., _ | .finalizeEvent .., _ | .getEndpoint .., _ | .matchEndpoints .., _
  | .putMessage _, _ | .appendAttempt _, _ | .getRateBucket .., _ | .putRateBucket .., _
  | .addToDlq .., _ | .transportSend _, _ | .scheduleRetry .., _ | .recordAttempt _, _
  | .next, _ => s

/-- The record a call may write at its stage. -/
def Stage.mayWrite (en : Engine) (rec : CircuitRecord) : Stage → Prop
  | .probe c => rec = c ∧ c.state = .halfOpen
  | .answered c .delivered _ => rec = onSuccess c
  | .answered c _ _ => ∃ now, rec = onFailure c now en.circuitCfg.failureThreshold
  | _ => False

/-- A call that has passed the gate and has no outcome yet may look at its target. -/
def Stage.mayDeliver : Stage → Prop
  | .admitted _ => True
  | .probing _ => True
  | _ => False

/-- All that is left to a parked call: store the message as blocked and schedule it. -/
def ParkOp (m : Message) : Op → Prop
  | .putMessage m' => m' = { m with status := .blocked }
  | .scheduleRetry m' _ => m' = m
  | .now | .next => True
  | _ => False

def Stage.allows (en : Engine) (m : Message) (s : Stage) (op : Op) : Prop :=
  (s = .parked → ParkOp m op) ∧ match op with
    | .getCircuit t e => (t, e) = m.target ∧ s = .fresh
    | .putCircuit t e rec => (t, e) = m.target ∧ s.mayWrite en rec
    | .check _ => s.mayDeliver
    | .post .. => s.mayDeliver
    | _ => True

/-- The monitor of a call for message `m`, kept with it as its view. -/
def monitor (en : Engine) : Monitor Op Res (Message × Stage) where
  allows g op := g.2.allows en g.1 op
  next g op r := (g.1, g.2.next en op r)

/-! ## The parts of `processMessage` -/

section Parts
variable (d : Dialect) (en : Engine) (m : Message)

/-- A call that is not parked may make every call its stage has no rule about. -/
theorem free {s : Stage} (hs : s ≠ .parked) {P Q : Prop} (h : Q) : (s = .parked → P) ∧ Q :=
  ⟨fun hp => absurd hp hs, h⟩

/-- Neither clock nor draw moves a call that is not at the gate. -/
theorem reads_obeys {α : Type} {done : Message × Stage → α → Prop} {s : Stage} {p : Eng α}
    (hp : Reads p) (hs : ∀ c, s ≠ .read c) (hd : ∀ a, done (m, s) a) :
    Obeys (monitor en) done (m, s) p := by
  refine hp.obeys ⟨⟨fun _ => trivial, trivial⟩, fun t => ?_⟩
    ⟨⟨fun _ => trivial, trivial⟩, fun q => rfl⟩ hd
  cases s with
  | read c => exact absurd rfl (hs c)
  | _ => rfl

theorem record_obeys (a : Attempt) {s : Stage} (hs : s ≠ .parked) :
    Obeys (monitor en) (fun g _ => g = (m, s)) (m, s) (record a) :=
  ⟨free hs trivial, fun _ => ⟨free hs trivial, fun _ => rfl⟩⟩

theorem dlq_obeys (a : Attempt) (r : DlqReason) {s : Stage} (hs : s ≠ .parked) :
    Obeys (monitor en) (fun _ _ => True) (m, s) (dlq m a r) := by
  refine obeys_perform_bind.mpr ⟨free hs trivial, fun _ => ?_⟩
  rw [obeys_bind]
  refine (record_obeys en m _ hs).mono ?_
  rintro g _ rfl
  exact ⟨free hs trivial, fun _ => trivial⟩

theorem endpointGone_obeys : Obeys (monitor en) (fun _ _ => True) (m, .fresh) (endpointGone m) :=
  ⟨⟨nofun, trivial⟩, fun _ => dlq_obeys en m _ _ nofun⟩

/-- The rate-limit gate runs before the circuit is read and leaves the stage alone. -/
theorem rateLimitGate_obeys (ep : Endpoint) :
    Obeys (monitor en) (fun g _ => g = (m, .fresh)) (m, .fresh) (rateLimitGate d m ep) := by
  have hf : Stage.fresh ≠ .parked := nofun
  unfold rateLimitGate
  cases ep.rateLimit with
  | none => rfl
  | some rate =>
    dsimp only
    split
    · refine obeys_perform_bind.mpr ⟨free hf trivial, fun now => ?_⟩
      refine obeys_perform_bind.mpr ⟨free hf trivial, fun stored => ?_⟩
      refine obeys_perform_bind.mpr ⟨free hf trivial, fun _ => ?_⟩
      split
      · rfl
      · exact ⟨free hf trivial, fun _ => ⟨free hf trivial, fun _ => rfl⟩⟩
    · rfl

theorem park_obeys (c : CircuitRecord) :
    Obeys (monitor en) (fun _ _ => True) (m, .parked) (park d m c) := by
  refine obeys_perform_bind.mpr ⟨⟨fun _ => rfl, trivial⟩, fun _ => ?_⟩
  rw [obeys_bind]
  refine reads_obeys en m (d.wakeAt_reads c) nofun fun _ => ?_
  exact ⟨⟨fun _ => rfl, trivial⟩, fun _ => trivial⟩

/-- What the gate hands on: nothing after parking, else the circuit of the stage. -/
def Gated : Message × Stage → Option CircuitRecord → Prop
  | _, none => True
  | g, some c => g = (m, .admitted c) ∨ g = (m, .probing c)

theorem circuitGate_obeys :
    Obeys (monitor en) (Gated m) (m, .fresh) (circuitGate d en m) := by
  refine obeys_perform_bind.mpr ⟨⟨nofun, rfl, rfl⟩, fun stored => ?_⟩
  refine obeys_perform_bind.mpr ⟨⟨nofun, trivial⟩, fun now => ?_⟩
  let circuit := { stored with cooldownMs := en.circuitCfg.cooldownMs }
  change Obeys (monitor en) (Gated m) (m, .gate circuit now) _
  unfold Stage.gate
  cases ha : (canAttempt circuit now).allow with
  | false =>
    simp only [circuit] at ha
    simp only [ha, Bool.false_eq_true, if_false]
    rw [obeys_bind]
    exact (park_obeys d en m _).mono fun _ _ _ => trivial
  | true =>
    simp only [circuit] at ha
    simp only [ha, if_true]
    cases hp : (canAttempt circuit now).probe with
    | false =>
      simp only [Bool.false_eq_true, if_false]
      exact .inl rfl
    | true =>
      simp only [if_true]
      exact ⟨⟨nofun, rfl, rfl, rfl⟩, fun _ => .inr rfl⟩

/-- The stage a call is at once its delivery has an outcome. -/
def Answered (c : CircuitRecord) (g : Message × Stage) (res : DeliveryResult) : Prop :=
  ∃ asProbe, g = (m, .answered c res.outcome asProbe)

theorem deliverWith_obeys (ep : Endpoint) {c : CircuitRecord} {s : Stage}
    (hs : s = .admitted c ∨ s = .probing c) :
    Obeys (monitor en) (Answered m c) (m, s) (deliverWith d en m ep) := by
  have hp : s ≠ .parked := by rcases hs with rfl | rfl <;> nofun
  have hd : s.mayDeliver := by rcases hs with rfl | rfl <;> trivial
  have ha : ∀ o, ∃ b, s.answer o = .answered c o b := by
    intro o; rcases hs with rfl | rfl
    · exact ⟨false, rfl⟩
    · exact ⟨true, rfl⟩
  have hn : ∀ t, (monitor en).next (m, s) .now t = (m, s) := by
    intro t; rcases hs with rfl | rfl <;> rfl
  refine obeys_perform_bind.mpr ⟨free hp hd, fun v => ?_⟩
  cases hv : v.allowed with
  | false =>
    obtain ⟨b, hb⟩ := ha .permanent
    refine ⟨b, ?_⟩
    rw [d.refused_outcome]
    simp [monitor, Stage.next, hv, hb]
  | true =>
    have hg : (monitor en).next (m, s) (.check ep.url) v = (m, s) := by
      simp [monitor, Stage.next, hv]
    rw [hg]
    refine obeys_perform_bind.mpr ⟨free hp trivial, fun t1 => ?_⟩
    rw [hn t1]
    refine obeys_perform_bind.mpr ⟨free hp trivial, fun t2 => ?_⟩
    rw [hn t2]
    refine obeys_perform_bind.mpr ⟨free hp hd, fun res => ?_⟩
    obtain ⟨b, hb⟩ := ha (outcomeOf res)
    have hr : (monitor en).next (m, s) (.post ep.url m.payload _ en.timeoutMs) res =
        (m, .answered c (outcomeOf res) b) := congrArg (m, ·) hb
    rw [hr]
    refine obeys_perform_bind.mpr ⟨⟨nofun, trivial⟩, fun t3 => ⟨b, ?_⟩⟩
    rw [d.resultOf_outcome]
    rfl

theorem onDelivered_obeys (c : CircuitRecord) (a : Attempt) (b : Bool) :
    Obeys (monitor en) (fun _ _ => True) (m, .answered c .delivered b) (onDelivered m c a) := by
  have hr : Stage.recorded .delivered ≠ .parked := nofun
  refine obeys_perform_bind.mpr ⟨⟨nofun, rfl, rfl⟩, fun _ => ?_⟩
  refine obeys_perform_bind.mpr ⟨free hr trivial, fun _ => ?_⟩
  exact (record_obeys en m _ hr).mono fun _ _ _ => trivial

theorem onPermanent_obeys (c : CircuitRecord) (a : Attempt) (res : DeliveryResult) (b : Bool) :
    Obeys (monitor en) (fun _ _ => True) (m, .answered c .permanent b)
      (onPermanent en m c a res) :=
  ⟨⟨nofun, trivial⟩, fun now => ⟨⟨nofun, rfl, now, rfl⟩, fun _ => dlq_obeys en m _ _ nofun⟩⟩

theorem onRetryable_obeys (c : CircuitRecord) (a : Attempt) (res : DeliveryResult) (b : Bool) :
    Obeys (monitor en) (fun _ _ => True) (m, .answered c .retryable b)
      (onRetryable d en m c a res) := by
  have hr : Stage.recorded .retryable ≠ .parked := nofun
  refine obeys_perform_bind.mpr ⟨⟨nofun, trivial⟩, fun now => ?_⟩
  refine obeys_perform_bind.mpr ⟨⟨nofun, rfl, now, rfl⟩, fun _ => ?_⟩
  rw [obeys_bind]
  refine reads_obeys en m (d.nextDelayMs_reads ..) nofun fun delay => ?_
  cases delay with
  | none => exact dlq_obeys en m _ _ hr
  | some delay =>
    dsimp only
    rw [obeys_bind]
    refine (record_obeys en m a hr).mono ?_
    rintro g _ rfl
    refine ⟨free hr trivial, fun _ => ⟨free hr trivial, fun _ => ?_⟩⟩
    exact ⟨free hr trivial, fun _ => trivial⟩

theorem attemptDelivery_obeys (ep : Endpoint) {c : CircuitRecord} {s : Stage}
    (hs : s = .admitted c ∨ s = .probing c) :
    Obeys (monitor en) (fun _ _ => True) (m, s) (attemptDelivery d en m ep c) := by
  have hp : s ≠ .parked := by rcases hs with rfl | rfl <;> nofun
  refine obeys_perform_bind.mpr ⟨free hp trivial, fun _ => ?_⟩
  rw [obeys_bind]
  refine (deliverWith_obeys d en m ep hs).mono ?_
  rintro g res ⟨b, rfl⟩
  refine obeys_perform_bind.mpr ⟨⟨nofun, trivial⟩, fun ts => ?_⟩
  change Obeys (monitor en) _ (m, .answered c res.outcome b) _
  cases ho : res.outcome with
  | delivered => exact onDelivered_obeys en m c _ b
  | permanent => exact onPermanent_obeys en m c _ res b
  | retryable => exact onRetryable_obeys d en m c _ res b

/-- **Every path of either engine follows the stages.** -/
theorem process_obeys :
    Obeys (monitor en) (fun _ _ => True) (m, .fresh) (processWith d en m) := by
  refine obeys_perform_bind.mpr ⟨⟨nofun, trivial⟩, fun endpoint => ?_⟩
  cases endpoint with
  | none => exact endpointGone_obeys en m
  | some ep =>
    dsimp only
    split
    · exact endpointGone_obeys en m
    · rw [obeys_bind]
      refine (rateLimitGate_obeys d en m ep).mono ?_
      rintro g throttled rfl
      cases throttled with
      | true => trivial
      | false =>
        simp only [Bool.false_eq_true, if_false]
        rw [obeys_bind]
        refine (circuitGate_obeys d en m).mono ?_
        intro g circuit hg
        cases circuit with
        | none => trivial
        | some c =>
          rcases hg with rfl | rfl
          · exact attemptDelivery_obeys d en m ep (.inl rfl)
          · exact attemptDelivery_obeys d en m ep (.inr rfl)

end Parts
end Anyhook.Breaker
