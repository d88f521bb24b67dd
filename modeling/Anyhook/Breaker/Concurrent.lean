import Anyhook.Breaker.Stage
import Anyhook.Testing.Pool

/-! Concurrent deliveries to one endpoint and its circuit. A call decides and writes
from the record it read, and other calls may write in between. The two sections
say exactly when that does no harm: a failed delivery does not weaken the breaker
unless its snapshot was overtaken, and a second probe starts unless the late call
read a circuit that is still cooling down. -/
namespace Anyhook.Breaker
open Anyhook.Core Anyhook.Testing Anyhook.Lib.Program Anyhook.Lib.Interleave

variable {ι : Type} [DecidableEq ι] (en : Engine) (jobs : ι → Job)

abbrev BreakerConf (ι : Type) := PoolConf ι (Message × Stage)

/-- The pool of delivery calls, each watched by its stage. -/
def calls : System Op Res String World Input ι (Message × Stage) := pool jobs (monitor en)

/-- Every call at its first port call, over any world. -/
def opening (w : World) : BreakerConf ι :=
  start en jobs w fun i => ((jobs i).message, .fresh)

omit [DecidableEq ι] in
theorem opening_obeyed (w : World) :
    (calls en jobs).Obeyed (fun _ _ => True) (opening en jobs w) := by
  intro i
  change Obeys (monitor en) _ ((jobs i).message, .fresh) ((jobs i).process en)
  rw [Job.process_eq]
  exact process_obeys _ en _

/-- Each call is watched for its own message. -/
def Named (c : BreakerConf ι) : Prop := ∀ i, (c.view i).1 = (jobs i).message

theorem Named.step {c : BreakerConf ι} (h : Named jobs c) (e : ι × Input) :
    Named jobs ((calls en jobs).step c e) := by
  intro j
  obtain hv | ⟨rfl, -, op, k, -, hv⟩ := pool_step_view jobs (monitor en) c e.1 e.2 j
  · exact (congrArg Prod.fst hv).trans (h j)
  · exact (congrArg Prod.fst hv).trans (h e.1)

/-! ## A failed delivery and the breaker -/

/-- The outcome of the call's delivery, once it has one. -/
def Stage.outcome? : Stage → Option Outcome
  | .answered _ o _ => some o
  | .recorded o => some o
  | _ => none

/-- An outcome, once known, never changes. -/
theorem Stage.outcome?_next {s : Stage} {o : Outcome} (h : s.outcome? = some o) (op : Op)
    (r : Res op) : (s.next en op r).outcome? = some o := by
  cases s with
  | answered c o' b =>
    cases op with
    | check u => dsimp only [Stage.next]; split <;> exact h
    | _ => exact h
  | recorded o' =>
    cases op with
    | check u => dsimp only [Stage.next]; split <;> exact h
    | _ => exact h
  | _ => cases h

theorem outcome?_run {c : BreakerConf ι} {i : ι} {o : Outcome} (es : List (ι × Input))
    (h : (c.view i).2.outcome? = some o) :
    (((calls en jobs).run c es).view i).2.outcome? = some o := by
  refine System.run_invariant (I := fun c : BreakerConf ι => (c.view i).2.outcome? = some o) ?_ h
  intro c e hc
  obtain hv | ⟨rfl, -, op, k, -, hv⟩ := pool_step_view jobs (monitor en) c e.1 e.2 i
  · exact (congrArg (·.2.outcome?) hv).trans hc
  · exact (congrArg (·.2.outcome?) hv).trans (Stage.outcome?_next en hc op _)

/-- The call's delivery failed, permanently or retryably, as its stage at the end
of the run tells. -/
def Failed (fin : BreakerConf ι) (i : ι) : Prop :=
  ∃ o, (fin.view i).2.outcome? = some o ∧ o ≠ .delivered

/-- From `r` to `r'` an open circuit closed, or the failure count dropped. -/
def Weakens (r r' : CircuitRecord) : Prop :=
  (r.state = .opened ∧ r'.state = .closed) ∨ r'.consecutiveFailures < r.consecutiveFailures

/-- A step of a call whose delivery failed weakens no stored circuit. -/
def NeverWeakens (fin c : BreakerConf ι) (e : ι × Input) : Prop :=
  Failed fin e.1 → ∀ t ep, ¬ Weakens (c.shared.store.getCircuit t ep)
    (((calls en jobs).step c e).shared.store.getCircuit t ep)

/-- The stored record has overtaken the snapshot a call is about to write from: it
counts more failures than the write will, or it is open where the snapshot neither
was half-open nor is one failure short of the threshold. -/
def Overtaken (threshold : Nat) (stored : CircuitRecord) : Stage → Prop
  | .probe s => s.consecutiveFailures < stored.consecutiveFailures
  | .answered s _ _ => s.consecutiveFailures + 1 < stored.consecutiveFailures ∨
      (stored.state = .opened ∧ s.state ≠ .halfOpen ∧ s.consecutiveFailures + 1 < threshold)
  | _ => False

/-- No circuit write of a call whose delivery failed comes from an overtaken snapshot. -/
def WritesCurrent (fin c : BreakerConf ι) (e : ι × Input) : Prop :=
  Failed fin e.1 → ∀ t ep rec, circuitWrite c e = some ((t, ep), rec) →
    ¬ Overtaken en.circuitCfg.failureThreshold (c.shared.store.getCircuit t ep) (c.view e.1).2

theorem not_weakens_self (r : CircuitRecord) : ¬ Weakens r r := by
  rintro (⟨h1, h2⟩ | h)
  · rw [h1] at h2; cases h2
  · exact lt_irrefl _ h

/-- For a call that is not a success, the record it may write weakens the stored one
exactly when it was overtaken. -/
theorem weakens_iff_overtaken {s : Stage} (stored : CircuitRecord) {rec : CircuitRecord}
    (hw : s.mayWrite en rec) (ho : s.outcome? ≠ some .delivered) :
    Weakens stored rec ↔ Overtaken en.circuitCfg.failureThreshold stored s := by
  cases s with
  | probe c =>
    obtain ⟨rfl, hh⟩ := hw
    simp [Weakens, Overtaken, hh]
  | answered c o b =>
    have hf : ∃ now, rec = onFailure c now en.circuitCfg.failureThreshold := by
      cases o with
      | delivered => exact absurd rfl ho
      | permanent => exact hw
      | retryable => exact hw
    obtain ⟨now, rfl⟩ := hf
    unfold Weakens Overtaken
    rw [onFailure_state, onFailure_consecutiveFailures]
    by_cases hh : c.state = .halfOpen ∨ en.circuitCfg.failureThreshold ≤ c.consecutiveFailures + 1
    · rw [if_pos hh]
      have hn : ¬ (c.state ≠ .halfOpen ∧
          c.consecutiveFailures + 1 < en.circuitCfg.failureThreshold) := by
        rintro ⟨h1, h2⟩
        rcases hh with h | h
        · exact h1 h
        · omega
      simp [hn]
    · rw [if_neg hh]
      have hn : c.state ≠ .halfOpen ∧
          c.consecutiveFailures + 1 < en.circuitCfg.failureThreshold := by
        rw [not_or, not_le] at hh
        exact hh
      simp only [and_true, hn, ne_eq, not_false_eq_true]
      exact or_comm
  | _ => exact absurd hw id

/-- One step: a failing call weakens nothing exactly when it writes from a current snapshot. -/
theorem step_weakens_iff {fin c : BreakerConf ι} {e : ι × Input}
    (hobey : (calls en jobs).Obeyed (fun _ _ => True) c)
    (ho : ∀ o, (c.view e.1).2.outcome? = some o → (fin.view e.1).2.outcome? = some o) :
    WritesCurrent en fin c e ↔ NeverWeakens en jobs fin c e := by
  refine imp_congr_right fun hfail => ?_
  have hnd : (c.view e.1).2.outcome? ≠ some .delivered := by
    intro hd
    obtain ⟨o, h1, h2⟩ := hfail
    rw [ho _ hd] at h1
    exact h2 (Option.some.inj h1).symm
  cases hcw : circuitWrite c e with
  | none =>
    constructor
    · intro _ t ep
      have hs := step_getCircuit jobs (monitor en) c e t ep
      rw [hcw] at hs
      rw [calls, hs]
      exact not_weakens_self _
    · rintro _ t ep rec ⟨⟩
  | some p =>
    obtain ⟨⟨t, ep⟩, rec⟩ := p
    have hmay : (c.view e.1).2.mayWrite en rec := by
      unfold circuitWrite at hcw
      cases hc : c.rest e.1 with
      | pure r => simp [hc, Prog.head] at hcw
      | throw x => simp [hc, Prog.head] at hcw
      | call op k =>
        have hal := hobey.allows hc
        cases op <;> simp [hc, Prog.head] at hcw
        obtain ⟨-, ⟨rfl, rfl⟩, rfl⟩ := hcw
        exact hal.2.2
    have hiff := weakens_iff_overtaken en (c.shared.store.getCircuit t ep) hmay hnd
    constructor
    · intro h t' ep'
      have hs := step_getCircuit jobs (monitor en) c e t' ep'
      rw [hcw] at hs
      rw [calls, hs]
      dsimp only
      split
      · next heq =>
        cases heq
        exact fun hw => h _ _ _ rfl (hiff.mp hw)
      · exact not_weakens_self _
    · rintro h t' ep' rec' ⟨⟩ hov
      have hs := step_getCircuit jobs (monitor en) c e t ep
      rw [hcw] at hs
      refine h t ep ?_
      rw [calls, hs]
      simpa using hiff.mpr hov

/-- **A failed delivery and the breaker.** In a run of any number of concurrent calls,
no call whose delivery failed closes an open circuit or lowers a failure count if and
only if none of them writes from a snapshot that the stored record has overtaken. -/
theorem failure_never_weakens_iff (w : World) (es : List (ι × Input)) :
    (calls en jobs).Along (NeverWeakens en jobs ((calls en jobs).run (opening en jobs w) es))
        (opening en jobs w) es ↔
      (calls en jobs).Along (WritesCurrent en ((calls en jobs).run (opening en jobs w) es))
        (opening en jobs w) es := by
  suffices h : ∀ (c fin : BreakerConf ι), (calls en jobs).Obeyed (fun _ _ => True) c →
      (calls en jobs).run c es = fin →
      ((calls en jobs).Along (NeverWeakens en jobs fin) c es ↔
        (calls en jobs).Along (WritesCurrent en fin) c es) from
    h _ _ (opening_obeyed en jobs w) rfl
  induction es with
  | nil => exact fun _ _ _ _ => Iff.rfl
  | cons e es ih =>
    intro c fin hobey hfin
    refine and_congr ?_ (ih _ _ hobey.step hfin)
    refine (step_weakens_iff en jobs hobey fun o h => ?_).symm
    rw [← hfin]
    exact outcome?_run en jobs (e :: es) h

def threeJobs (i : Fin 3) : Job where
  lang := .ts
  message := threeMessages i

/-- `n` port calls of call `i`, its POST failing on the network. -/
def failing (i : Fin 3) (n : Nat) : List (Fin 3 × Input) :=
  List.replicate n (i, answering 0 .network, .none)

/-- `late` reads the circuit; `i` and `j` fail and open it; `late` delivers and fails. -/
def overtakenRun (late i j : Fin 3) : List (Fin 3 × Input) :=
  failing late 2 ++ failing i 12 ++ failing j 12 ++ failing late 9

/-- With threshold 2, the last write of call 0 closes the circuit and lowers its count. -/
theorem failure_closes_open_circuit :
    ¬ ∀ (en : Engine) (jobs : Fin 3 → Job) (w : World) (es : List (Fin 3 × Input)),
      (calls en jobs).Along (NeverWeakens en jobs ((calls en jobs).run (opening en jobs w) es))
        (opening en jobs w) es := by
  intro h
  have hlast := (h (plainEngine 2) threeJobs oneEndpoint
    (overtakenRun 0 1 2 ++ [(0, answering 0 .network, .none)])).after
  refine hlast ⟨.retryable, by decide +kernel, by decide⟩ "acme" "ep_1" (.inl ?_)
  decide +kernel

/-! ## One probe at a time -/

/-- The call was admitted as a probe and its outcome is not recorded. -/
def Stage.unrecorded : Stage → Prop
  | .probe _ => True
  | .probing _ => True
  | .answered _ _ asProbe => asProbe = true
  | _ => False

def Stage.isProbing : Stage → Bool
  | .probing _ => true
  | _ => false

def isPost : Op → Bool
  | .post .. => true
  | _ => false

/-- A delivery POST is in flight that was admitted as a probe. -/
def ProbePost (c : BreakerConf ι) (i : ι) : Prop :=
  (c.rest i).head.any isPost = true ∧ (c.view i).2.isProbing = true

def AtMostOneProbe (c : BreakerConf ι) : Prop :=
  ∀ i j, (jobs i).message.target = (jobs j).message.target → ProbePost c i → ProbePost c j → i = j

/-- In this step the call takes its gate decision on the circuit it read. -/
def AtGate (c : BreakerConf ι) (e : ι × Input) (circuit : CircuitRecord) : Prop :=
  (c.view e.1).2 = .read circuit ∧ (c.rest e.1).head = some .now ∧ e.2.2 = .none

/-- Another call probes the same endpoint and has not recorded its outcome. -/
def Second (c : BreakerConf ι) (i : ι) : Prop :=
  ∃ j, j ≠ i ∧ (jobs j).message.target = (jobs i).message.target ∧ (c.view j).2.unrecorded

/-- After the step at most one probe POST is in flight to any endpoint; a call that
comes to the gate as the second one is parked by it; and a parked call does nothing
but store its message as blocked and schedule it. -/
structure SingleProbe (c : BreakerConf ι) (e : ι × Input) : Prop where
  inFlight : AtMostOneProbe jobs ((calls en jobs).step c e)
  second : ∀ circuit, AtGate c e circuit → Second jobs c e.1 →
    (((calls en jobs).step c e).view e.1).2 = .parked
  parked : ∀ i op, (c.view i).2 = .parked → (c.rest i).head = some op → ParkOp (jobs i).message op

/-- A call that comes to the gate as the second one has read an open circuit whose
cooldown is not over at its clock reading. -/
def SecondCooling (c : BreakerConf ι) (e : ι × Input) : Prop :=
  ∀ circuit, AtGate c e circuit → Second jobs c e.1 →
    circuit.state = .opened ∧ e.2.1.now - circuit.openedAt.getD 0 < circuit.cooldownMs

/-- The gate parks exactly behind an open circuit that is still cooling down. -/
theorem gate_parked_iff (circuit : CircuitRecord) (now : Time) :
    Stage.gate circuit now = .parked ↔
      circuit.state = .opened ∧ now - circuit.openedAt.getD 0 < circuit.cooldownMs := by
  unfold Stage.gate canAttempt
  cases hs : circuit.state with
  | closed => simp
  | halfOpen => simp
  | opened =>
    by_cases ht : now - circuit.openedAt.getD 0 ≥ circuit.cooldownMs
    · simp [ht]
    · simp [ht, not_le.mp ht]

/-- A call becomes an unrecorded probe at the gate only. -/
theorem Stage.unrecorded_next {s : Stage} {op : Op} {r : Res op}
    (h : (s.next en op r).unrecorded) :
    s.unrecorded ∨ ∃ circuit, s = .read circuit ∧ op = .now := by
  cases op with
  | now =>
    cases s with
    | read c => exact .inr ⟨c, rfl, rfl⟩
    | _ => exact .inl h
  | getCircuit t ep => cases s <;> exact .inl h
  | putCircuit t ep rec => cases s <;> first | exact .inl h | exact .inl trivial | cases h
  | check url =>
    dsimp only [Stage.next] at h
    split at h
    · exact .inl h
    · cases s <;> first | exact .inl h | exact .inl trivial | cases h
  | post url body headers timeoutMs =>
    cases s <;> first | exact .inl h | exact .inl trivial | cases h
  | _ => exact .inl h

/-- The stage of a call that takes its gate decision. -/
theorem step_atGate {c : BreakerConf ι} {e : ι × Input} {circuit : CircuitRecord}
    (h : AtGate c e circuit) :
    (((calls en jobs).step c e).view e.1).2 = .gate circuit e.2.1.now := by
  obtain ⟨i, a, f⟩ := e
  obtain ⟨hs, hh, hf⟩ := h
  cases hc : c.rest i with
  | pure r => simp [hc, Prog.head] at hh
  | throw x => simp [hc, Prog.head] at hh
  | call op k =>
    simp only [hc, Prog.head, Option.some.injEq] at hh
    subst hh
    have hv := (pool_step_call jobs (monitor en) hc (a, f)).2.1
    rw [if_pos hf] at hv
    rw [calls, hv]
    simp only at hs
    simp [monitor, Stage.next, hs, exec]

/-- At most one call to each endpoint is an unrecorded probe. -/
def OneUnrecorded (c : BreakerConf ι) : Prop :=
  ∀ i j, (jobs i).message.target = (jobs j).message.target →
    (c.view i).2.unrecorded → (c.view j).2.unrecorded → i = j

/-- A step makes a call an unrecorded probe only if it is at the gate and no other is. -/
theorem step_unrecorded {c : BreakerConf ι} {e : ι × Input} (hc : SecondCooling jobs c e) {i : ι}
    (h : (((calls en jobs).step c e).view i).2.unrecorded) :
    (c.view i).2.unrecorded ∨ i = e.1 ∧ ¬ Second jobs c i := by
  obtain hv | ⟨rfl, hf, op, k, hr, hv⟩ := pool_step_view jobs (monitor en) c e.1 e.2 i
  · exact .inl (hv ▸ h)
  · have hn : ((c.view e.1).2.next en op
        (exec (some (jobs e.1).message) e.2.1 op c.shared).1).unrecorded := by
      exact (congrArg (fun g => g.2.unrecorded) hv).mp h
    rcases Stage.unrecorded_next en hn with hu | ⟨circuit, hs, rfl⟩
    · exact .inl hu
    · refine .inr ⟨rfl, fun hsec => ?_⟩
      have hg : AtGate c e circuit := ⟨hs, by rw [hr]; rfl, hf⟩
      have hp := (gate_parked_iff circuit e.2.1.now).mpr (hc circuit hg hsec)
      rw [step_atGate en jobs hg, hp] at h
      exact h

theorem OneUnrecorded.step {c : BreakerConf ι} (h : OneUnrecorded jobs c) {e : ι × Input}
    (hc : SecondCooling jobs c e) : OneUnrecorded jobs ((calls en jobs).step c e) := by
  intro i j ht hi hj
  by_contra hij
  rcases step_unrecorded en jobs hc hi with hi' | ⟨rfl, hni⟩
  · rcases step_unrecorded en jobs hc hj with hj' | ⟨rfl, hnj⟩
    · exact hij (h i j ht hi' hj')
    · exact hnj ⟨i, hij, ht, hi'⟩
  · rcases step_unrecorded en jobs hc hj with hj' | ⟨rfl, -⟩
    · exact hni ⟨j, Ne.symm hij, ht.symm, hj'⟩
    · exact hij rfl

omit [DecidableEq ι] in
theorem OneUnrecorded.atMostOne {c : BreakerConf ι} (h : OneUnrecorded jobs c) :
    AtMostOneProbe jobs c := by
  have hu : ∀ s : Stage, s.isProbing = true → s.unrecorded := by
    intro s hs
    cases s with
    | probing c => trivial
    | _ => cases hs
  rintro i j ht ⟨-, hi⟩ ⟨-, hj⟩
  exact h i j ht (hu _ hi) (hu _ hj)

omit [DecidableEq ι] in
theorem opening_oneUnrecorded (w : World) : OneUnrecorded jobs (opening en jobs w) := by
  intro i j _ hi
  exact absurd hi id

/-- **One probe at a time.** A run of concurrent calls keeps at most one probe POST in
flight to each endpoint and parks every second call, if and only if every call that
comes to the gate while a probe is unrecorded has read a circuit still cooling down. -/
theorem single_probe_iff (w : World) (es : List (ι × Input)) :
    (calls en jobs).Along (SingleProbe en jobs) (opening en jobs w) es ↔
      (calls en jobs).Along (SecondCooling jobs) (opening en jobs w) es := by
  constructor
  · refine System.Along.mono fun c e h circuit hg hsec => ?_
    rw [← gate_parked_iff, ← step_atGate en jobs hg]
    exact h.second circuit hg hsec
  · refine System.Along.strengthen
      (I := fun c => (calls en jobs).Obeyed (fun _ _ => True) c ∧ Named jobs c ∧
        OneUnrecorded jobs c) ?_ ?_
      ⟨opening_obeyed en jobs w, fun _ => rfl, opening_oneUnrecorded en jobs w⟩
    · rintro c e ⟨ho, hn, h1⟩ hc
      exact ⟨ho.step, hn.step en jobs e, h1.step en jobs hc⟩
    · rintro c e ⟨ho, hn, h1⟩ hc
      refine ⟨(h1.step en jobs hc).atMostOne jobs, fun circuit hg hsec => ?_, fun i op hp hh => ?_⟩
      · rw [step_atGate en jobs hg, gate_parked_iff]
        exact hc circuit hg hsec
      · cases hr : c.rest i with
        | pure r => simp [hr, Prog.head] at hh
        | throw x => simp [hr, Prog.head] at hh
        | call op' k =>
          simp only [hr, Prog.head, Option.some.injEq] at hh
          subst hh
          rw [← hn i]
          exact (ho.allows hr).1 hp

def twoJobs (i : Bool) : Job where
  lang := if i then .ts else .go
  message := messageFor (if i then "msg_a" else "msg_b")

/-- The endpoint's circuit opened at time 0. -/
def openedAtZero : World where
  store := oneEndpoint.store.putCircuit "acme" "ep_1"
    { state := .opened, consecutiveFailures := 5, openedAt := some 0, cooldownMs := 100 }
  queue := []
  pending := []
  posts := []

/-- `n` port calls of call `i`; eight of them bring a probe to its POST. -/
def probing (i : Bool) (n : Nat) : List (Bool × Input) :=
  List.replicate n (i, answering 1000 .network, .none)

/-- After the cooldown the half-open record of the first probe admits a second one. -/
theorem half_open_admits_second_probe :
    ¬ ∀ (en : Engine) (jobs : Bool → Job) (w : World) (es : List (Bool × Input)),
      (calls en jobs).Along (SingleProbe en jobs) (opening en jobs w) es := by
  intro h
  have hlast := (h (plainEngine 5) twoJobs openedAtZero
    (probing true 8 ++ probing false 7 ++ [(false, answering 1000 .network, .none)])).after
  refine absurd (hlast.inFlight true false rfl ?_ ?_) (by decide)
  · exact ⟨by decide +kernel, by decide +kernel⟩
  · exact ⟨by decide +kernel, by decide +kernel⟩

end Anyhook.Breaker
