import Anyhook.Aws.StateDynamo
import Anyhook.Breaker.Stage
import Anyhook.Testing.Pool

/-! When the breaker of the DynamoDB store trips. The count that trips it belongs to
the record a call read before its POST, so it is right about the deliveries recorded
up to that read and not about those recorded since. A ledger notes, beside the run,
what every committed circuit write recorded; the theorem says that without a success
in the gap no trip is false. -/
namespace Anyhook.Breaker
open Anyhook.Core Anyhook.Testing Anyhook.Aws Anyhook.Lib.Program Anyhook.Lib.Interleave

variable {ι : Type} [DecidableEq ι] (en : Engine) (messages : ι → Message)

abbrev DynamoConf (ι : Type) := Conf DynamoOp DynamoRes String Unit CircuitTable ι (Message × Stage)

/-- The stages over single commands. The read before the gate is the one that counts;
the version read inside `putCircuit` leaves the stage as it is. -/
def dynamoMonitor : Monitor DynamoOp DynamoRes (Message × Stage) where
  allows g
    | .getItem t e => (t, e) = g.1.target
    | .putItem t e item _ => (t, e) = g.1.target ∧ g.2.mayWrite en item.record
    | .other op => (∀ t e, op ≠ .getCircuit t e) ∧ ∀ t e rec, op ≠ .putCircuit t e rec
  next g
    | .getItem .., item => match g.2 with
      | .fresh =>
        let stored := (item.map CircuitItem.record).getD (initialCircuit defaultCooldownMs)
        (g.1, .read { stored with cooldownMs := en.circuitCfg.cooldownMs })
      | s => (g.1, s)
    | .putItem .., _ => (g.1, g.2.wrote)
    | .other op, r => (g.1, g.2.next en op r)

/-- Concurrent calls of `processMessage` over the table. -/
def dynamoCalls :
    System DynamoOp DynamoRes String CircuitTable DynamoInput ι (Message × Stage) where
  exec _ inp op table := command inp op table
  monitor := dynamoMonitor en

/-- Every call at its start, and no circuit stored yet. -/
def emptyTable : DynamoConf ι where
  shared _ := none
  rest i := Aws.processMessage en (messages i)
  view i := (messages i, .fresh)

/-- Each port is lowered to commands that follow the stages. -/
theorem ports_obey (g : Message × Stage) (op : Op) (h : (monitor en).allows g op) :
    Obeys (dynamoMonitor en) (fun g' r => g' = (monitor en).next g op r) g (ports op) := by
  obtain ⟨m, s⟩ := g
  cases op with
  | getCircuit t e =>
    obtain ⟨ht, hs⟩ := h.2
    simp only at hs
    subst hs
    exact ⟨ht, fun item => rfl⟩
  | putCircuit t e rec =>
    obtain ⟨ht, hw⟩ := h.2
    refine obeys_perform_bind.mpr ⟨ht, fun current => ?_⟩
    have hn : (dynamoMonitor en).next (m, s) (.getItem t e) current = (m, s) := by
      cases s with
      | fresh => exact absurd hw id
      | _ => rfl
    rw [hn]
    exact ⟨⟨ht, hw⟩, fun _ => rfl⟩
  | _ => exact ⟨⟨nofun, nofun⟩, fun _ => rfl⟩

omit [DecidableEq ι] in
theorem emptyTable_obeyed :
    (dynamoCalls en).Obeyed (fun _ _ => True) (emptyTable en messages) := by
  intro i
  exact (process_obeys dialect en (messages i)).interp (ports_obey en)

/-! ## The ledger -/

/-- The circuit as a read would return it. -/
def stored (c : DynamoConf ι) (target : String × String) : CircuitRecord :=
  ((c.shared target).map CircuitItem.record).getD (initialCircuit defaultCooldownMs)

/-- What the committed circuit writes recorded for each endpoint, newest first, and
which calls had a success of their endpoint recorded since they read its circuit. -/
structure Ledger (ι : Type) where
  outcomes : String × String → List Outcome
  overtaken : ι → Bool

def Ledger.empty : Ledger ι where
  outcomes _ := []
  overtaken _ := false

/-- The circuit write a step commits. -/
def commitOf (c : DynamoConf ι) (e : ι × DynamoInput) :
    Option ((String × String) × CircuitRecord) :=
  match (c.rest e.1).head with
  | some (.putItem t ep item expected) =>
    if commits c.shared e.2.fault (t, ep) expected then some ((t, ep), item.record) else none
  | _ => none

/-- The step is the call's read of the circuit. -/
def readsCircuit (c : DynamoConf ι) (e : ι × DynamoInput) : Bool :=
  (match (c.rest e.1).head with
    | some (.getItem ..) => true
    | _ => false) && (c.view e.1).2 == .fresh && e.2.fault == .none

/-- A committed outcome is entered; a success overtakes every call of its endpoint
until that call reads again. -/
def enter (l : Ledger ι) (c : DynamoConf ι) (e : ι × DynamoInput) : Ledger ι :=
  match commitOf c e, (c.view e.1).2 with
  | some (target, _), .answered _ o _ => {
      outcomes := Function.update l.outcomes target (o :: l.outcomes target)
      overtaken := fun j => l.overtaken j || (o == .delivered && (messages j).target == target) }
  | _, _ =>
    if readsCircuit c e then { l with overtaken := Function.update l.overtaken e.1 false } else l

/-- Whenever this step takes a stored circuit from closed to open, the last
`failureThreshold` deliveries recorded for its endpoint were all failures. -/
def NoFalseTrip (l : Ledger ι) (c : DynamoConf ι) (e : ι × DynamoInput) : Prop :=
  ∀ target, (stored c target).state = .closed →
    (stored ((dynamoCalls en).step c e) target).state = .opened →
    en.circuitCfg.failureThreshold ≤ ((enter messages l c e).outcomes target).length ∧
      ∀ o ∈ ((enter messages l c e).outcomes target).take en.circuitCfg.failureThreshold,
        o ≠ .delivered

/-- The call is about to record a success. -/
def Stage.succeeds : Stage → Bool
  | .answered _ .delivered _ => true
  | _ => false

/-- A half-open write, or one that records a failure, is not made by a call that a
success has overtaken. -/
def NotOvertaken (l : Ledger ι) (c : DynamoConf ι) (e : ι × DynamoInput) : Prop :=
  (commitOf c e).isSome = true → (c.view e.1).2.succeeds = false → l.overtaken e.1 = false

instance (l : Ledger ι) (c : DynamoConf ι) (e : ι × DynamoInput) :
    Decidable (NotOvertaken l c e) :=
  inferInstanceAs (Decidable (_ → _ → _))

/-! ## One step -/

/-- A stored circuit changes by committed writes only. -/
theorem stored_step (c : DynamoConf ι) (e : ι × DynamoInput) (target : String × String) :
    stored ((dynamoCalls en).step c e) target = match commitOf c e with
      | some (t, rec) => if t = target then rec else stored c target
      | none => stored c target := by
  obtain ⟨i, inp⟩ := e
  cases hc : c.rest i with
  | pure r => simp [System.step, commitOf, hc, Prog.head]
  | throw x => simp [System.step, commitOf, hc, Prog.head]
  | call op k =>
    unfold stored
    rw [System.step_shared_of_call hc]
    cases op with
    | getItem t ep => simp [commitOf, hc, Prog.head, dynamoCalls, command]
    | other op => simp [commitOf, hc, Prog.head, dynamoCalls, command]
    | putItem t ep item expected =>
      simp only [commitOf, hc, Prog.head, dynamoCalls, command]
      by_cases hcm : commits c.shared inp.fault (t, ep) expected = true
      · by_cases ht : (t, ep) = target
        · subst ht; simp [hcm]
        · simp [hcm, ht, Ne.symm ht]
      · simp [hcm]

/-- The record a call holds on to. -/
def Stage.snapshot : Stage → Option CircuitRecord
  | .read s => some s
  | .admitted s => some s
  | .probe s => some s
  | .probing s => some s
  | .answered s _ _ => some s
  | _ => none

/-- Apart from reading the circuit, a call keeps its snapshot, drops it, or marks it
half-open when it was not closed. -/
theorem Stage.snapshot_next {s : Stage} {op : Op} {r : Res op} {rec : CircuitRecord}
    (hop : ∀ t e, op ≠ .getCircuit t e) (h : (s.next en op r).snapshot = some rec) :
    s.snapshot = some rec ∨
      ∃ rec0, s.snapshot = some rec0 ∧ rec0.state ≠ .closed ∧ rec = toHalfOpen rec0 := by
  cases op with
  | getCircuit t e => exact absurd rfl (hop t e)
  | now =>
    cases s with
    | read c =>
      dsimp only [Stage.next, Stage.gate] at h
      split at h
      · split at h
        · next hp =>
          exact .inr ⟨c, rfl, ((canAttempt_probe c r).mp hp).2, (Option.some.inj h).symm⟩
        · exact .inl h
      · cases h
    | _ => exact .inl h
  | putCircuit t e rec' => cases s <;> first | exact .inl h | cases h
  | check url =>
    dsimp only [Stage.next] at h
    split at h
    · exact .inl h
    · cases s <;> exact .inl h
  | post url body headers timeoutMs => cases s <;> exact .inl h
  | _ => exact .inl h

/-- The failures recorded for an endpoint since its last success. -/
def trailing (l : Ledger ι) (target : String × String) : Nat :=
  ((l.outcomes target).takeWhile (· != .delivered)).length

/-- A record that counts no more failures than `n`, and is not closed only from the
threshold on. -/
structure Sound (n : Nat) (rec : CircuitRecord) : Prop where
  count : rec.consecutiveFailures ≤ n
  tripped : rec.state ≠ .closed → en.circuitCfg.failureThreshold ≤ rec.consecutiveFailures

variable {en} in
theorem Sound.mono {n n' : Nat} {rec : CircuitRecord} (h : Sound en n rec) (hn : n ≤ n') :
    Sound en n' rec := ⟨h.count.trans hn, h.tripped⟩

variable {en} in
theorem Sound.toHalfOpen {n : Nat} {rec : CircuitRecord} (h : Sound en n rec)
    (hs : rec.state ≠ .closed) : Sound en n (toHalfOpen rec) := ⟨h.count, fun _ => h.tripped hs⟩

variable {en} in
theorem Sound.onFailure {n : Nat} {rec : CircuitRecord} (h : Sound en n rec) (now : Time) :
    Sound en (n + 1) (onFailure rec now en.circuitCfg.failureThreshold) := by
  refine ⟨?_, fun hs => ?_⟩
  · rw [onFailure_consecutiveFailures]
    exact Nat.succ_le_succ h.count
  · rw [onFailure_state] at hs
    rw [onFailure_consecutiveFailures]
    split at hs
    · next hopen =>
      rcases hopen with hh | ht
      · exact (h.tripped (by rw [hh]; nofun)).trans (Nat.le_succ _)
      · exact ht
    · exact absurd rfl hs

/-- The record was `rec` before the step, or is its half-open form. -/
def Kept (rec' : CircuitRecord) (before : Option CircuitRecord) : Prop :=
  before = some rec' ∨ ∃ rec, before = some rec ∧ rec.state ≠ .closed ∧ rec' = toHalfOpen rec

/-- A step that is not a read of the circuit gives no call a new snapshot. -/
theorem step_snapshot {c : DynamoConf ι} {e : ι × DynamoInput}
    (hobey : (dynamoCalls en).Obeyed (fun _ _ => True) c) (hr : readsCircuit c e = false) (j : ι)
    {rec : CircuitRecord} (h : (((dynamoCalls en).step c e).view j).2.snapshot = some rec) :
    Kept rec (c.view j).2.snapshot := by
  obtain ⟨i, inp⟩ := e
  obtain hv | ⟨rfl, op, k, r, hc, hx, hv⟩ := System.step_view (S := dynamoCalls en) c i inp j
  · rw [hv] at h; exact .inl h
  · rw [hv] at h
    have hal := hobey.allows hc
    cases op with
    | getItem t ep =>
      have hf : inp.fault = .none := by
        by_contra hf
        simp [dynamoCalls, command, hf] at hx
      have hs : (c.view j).2 ≠ .fresh := by
        intro hs
        simp [readsCircuit, hc, Prog.head, hs, hf] at hr
      revert h hs
      cases hview : c.view j with
      | mk m s =>
        intro h hs
        cases s with
        | fresh => exact absurd rfl hs
        | _ => exact .inl h
    | putItem t ep item expected =>
      revert h
      cases hview : c.view j with
      | mk m s => intro h; cases s <;> first | exact .inl h | cases h
    | other op => exact Stage.snapshot_next en hal.1 h

theorem sound_initial (n : Nat) (cooldownMs : Time) : Sound en n (initialCircuit cooldownMs) :=
  ⟨Nat.zero_le n, fun h => absurd rfl h⟩

/-- What the ledger knows about the records stored and held. -/
structure Counted (l : Ledger ι) (c : DynamoConf ι) : Prop where
  obeyed : (dynamoCalls en).Obeyed (fun _ _ => True) c
  named : ∀ i, (c.view i).1 = messages i
  table : ∀ target, Sound en (trailing l target) (stored c target)
  held : ∀ i rec, l.overtaken i = false → (c.view i).2.snapshot = some rec →
    Sound en (trailing l (messages i).target) rec

omit [DecidableEq ι] in
theorem emptyTable_counted : Counted en messages .empty (emptyTable en messages) where
  obeyed := emptyTable_obeyed en messages
  named _ := rfl
  table _ := sound_initial en _ _
  held _ _ _ h := by cases h

theorem named_step {c : DynamoConf ι} (h : ∀ i, (c.view i).1 = messages i) (e : ι × DynamoInput)
    (i : ι) : (((dynamoCalls en).step c e).view i).1 = messages i := by
  obtain hv | ⟨rfl, op, k, r, -, -, hv⟩ := System.step_view (S := dynamoCalls en) c e.1 e.2 i
  · exact (congrArg Prod.fst hv).trans (h i)
  · refine (congrArg Prod.fst hv).trans (Eq.trans ?_ (h e.1))
    cases op with
    | getItem t ep =>
      cases hview : c.view e.1 with
      | mk m s => cases s <;> rfl
    | _ => rfl

section Step
variable {en messages} {l : Ledger ι} {c : DynamoConf ι} {e : ι × DynamoInput}

/-- Snapshots stay sound over a step that reads no circuit, for the calls whose
trailing count did not shrink. -/
theorem Counted.held_step (h : Counted en messages l c) (hr : readsCircuit c e = false)
    {l' : Ledger ι} (hl : ∀ j, l'.overtaken j = false → l.overtaken j = false ∧
      trailing l (messages j).target ≤ trailing l' (messages j).target) (i : ι)
    (rec : CircuitRecord) (ho : l'.overtaken i = false)
    (hs : (((dynamoCalls en).step c e).view i).2.snapshot = some rec) :
    Sound en (trailing l' (messages i).target) rec := by
  obtain ⟨ho', ht⟩ := hl i ho
  rcases step_snapshot en h.obeyed hr i hs with hk | ⟨rec0, hk, hne, rfl⟩
  · exact (h.held i rec ho' hk).mono ht
  · exact ((h.held i rec0 ho' hk).toHalfOpen hne).mono ht

/-- Nothing is entered and nothing read. -/
theorem Counted.step_idle (h : Counted en messages l c) (hc : commitOf c e = none)
    (hr : readsCircuit c e = false) :
    Counted en messages (enter messages l c e) ((dynamoCalls en).step c e) := by
  have hl : enter messages l c e = l := by simp [enter, hc, hr]
  rw [hl]
  refine ⟨h.obeyed.step, named_step en messages h.named e, fun target => ?_,
    h.held_step hr fun j hj => ⟨hj, le_rfl⟩⟩
  rw [stored_step, hc]
  exact h.table target

/-- A call reads the circuit: its snapshot is the stored record. -/
theorem Counted.step_read (h : Counted en messages l c) (hr : readsCircuit c e = true) :
    Counted en messages (enter messages l c e) ((dynamoCalls en).step c e) := by
  obtain ⟨i, inp⟩ := e
  simp only [readsCircuit, Bool.and_eq_true, beq_iff_eq] at hr
  obtain ⟨⟨hop, hs⟩, hf⟩ := hr
  cases hc : c.rest i with
  | pure r => simp [hc, Prog.head] at hop
  | throw x => simp [hc, Prog.head] at hop
  | call op k =>
    cases op with
    | putItem t ep item expected => simp [hc, Prog.head] at hop
    | other op => simp [hc, Prog.head] at hop
    | getItem t ep =>
      have htgt : (t, ep) = (messages i).target := h.named i ▸ h.obeyed.allows hc
      have hcm : commitOf c (i, inp) = none := by simp [commitOf, hc, Prog.head]
      have hl : enter messages l c (i, inp) =
          { l with overtaken := Function.update l.overtaken i false } := by
        simp [enter, hcm, readsCircuit, hc, Prog.head, hs, hf]
      have hview : (((dynamoCalls en).step c (i, inp)).view i).2 =
          .read { stored c (t, ep) with cooldownMs := en.circuitCfg.cooldownMs } := by
        unfold System.step
        simp only [hc, dynamoCalls, command, hf, if_true, Function.update_self]
        cases hv : c.view i with
        | mk m s =>
          rw [hv] at hs
          simp only at hs
          subst hs
          rfl
      rw [hl]
      refine ⟨h.obeyed.step, named_step en messages h.named _, fun target => ?_,
        fun j rec ho hsn => ?_⟩
      · rw [stored_step, hcm]
        exact h.table target
      · by_cases hj : j = i
        · subst hj
          rw [hview] at hsn
          obtain rfl := Option.some.inj hsn
          rw [← htgt]
          exact ⟨(h.table _).count, (h.table _).tripped⟩
        · rw [(System.step_other hj inp).2] at hsn
          simp only [Function.update_of_ne hj] at ho
          exact h.held j rec ho hsn

omit [DecidableEq ι] in
/-- A committed write is one its stage allows, to the call's own endpoint. -/
theorem Counted.commit_allowed (h : Counted en messages l c) {target : String × String}
    {rec : CircuitRecord} (hc : commitOf c e = some (target, rec)) :
    target = (messages e.1).target ∧ (c.view e.1).2.mayWrite en rec ∧ readsCircuit c e = false := by
  unfold commitOf at hc
  cases hr : c.rest e.1 with
  | pure r => simp [hr, Prog.head] at hc
  | throw x => simp [hr, Prog.head] at hc
  | call op k =>
    cases op with
    | getItem t ep => simp [hr, Prog.head] at hc
    | other op => simp [hr, Prog.head] at hc
    | putItem t ep item expected =>
      obtain ⟨ht, hw⟩ := h.obeyed.allows hr
      rw [h.named e.1] at ht
      simp only [hr, Prog.head, Option.ite_none_right_eq_some, Option.some.injEq,
        Prod.mk.injEq] at hc
      obtain ⟨-, rfl, rfl⟩ := hc
      exact ⟨ht, hw, by simp [readsCircuit, hr, Prog.head]⟩

omit [DecidableEq ι] in
theorem trailing_cons (l l' : Ledger ι) {target : String × String} {o : Outcome}
    (hl : l'.outcomes = Function.update l.outcomes target (o :: l.outcomes target))
    (other : String × String) :
    trailing l' other =
      if other = target then if o = .delivered then 0 else trailing l target + 1
      else trailing l other := by
  unfold trailing
  rw [hl]
  by_cases ht : other = target
  · subst ht
    cases o <;> simp
  · simp [ht]

/-- A committed write of a call that is not overtaken. -/
theorem Counted.step_commit (h : Counted en messages l c) {target : String × String}
    {rec : CircuitRecord} (hc : commitOf c e = some (target, rec)) (hn : NotOvertaken l c e) :
    Counted en messages (enter messages l c e) ((dynamoCalls en).step c e) := by
  obtain ⟨htgt, hmay, hr⟩ := h.commit_allowed hc
  have hnamed := named_step en messages h.named e
  have hn' := hn (by rw [hc]; rfl)
  have hst : ∀ t, stored ((dynamoCalls en).step c e) t =
      if target = t then rec else stored c t := by
    intro t
    rw [stored_step, hc]
  cases hs : (c.view e.1).2 with
  | probe s =>
    rw [hs] at hmay
    obtain ⟨rfl, -⟩ := hmay
    have hl : enter messages l c e = l := by simp [enter, hc, hs, hr]
    have hov := hn' (by rw [hs]; rfl)
    rw [hl]
    refine ⟨h.obeyed.step, hnamed, fun t => ?_, h.held_step hr fun j hj => ⟨hj, le_rfl⟩⟩
    rw [hst]
    split
    · next heq =>
      subst heq
      rw [htgt]
      exact h.held e.1 rec hov (by rw [hs]; rfl)
    · exact h.table t
  | answered s o b =>
    have hl : enter messages l c e = {
        outcomes := Function.update l.outcomes target (o :: l.outcomes target)
        overtaken := fun j =>
          l.overtaken j || (o == .delivered && (messages j).target == target) } := by
      simp [enter, hc, hs]
    have htr := trailing_cons l (enter messages l c e) (by rw [hl])
    refine ⟨h.obeyed.step, hnamed, fun t => ?_, h.held_step hr fun j hj => ?_⟩
    · rw [hst, htr]
      by_cases heq : target = t
      · subst heq
        simp only [if_true]
        rw [hs] at hmay
        by_cases ho : o = .delivered
        · subst ho
          obtain rfl := hmay
          exact ⟨le_rfl, fun hne => absurd rfl hne⟩
        · rw [if_neg ho]
          have hov := hn' (by rw [hs]; cases o <;> first | rfl | exact absurd rfl ho)
          have hf : ∃ now, rec = onFailure s now en.circuitCfg.failureThreshold := by
            cases o with
            | delivered => exact absurd rfl ho
            | permanent => exact hmay
            | retryable => exact hmay
          obtain ⟨now, rfl⟩ := hf
          rw [htgt]
          exact (h.held e.1 s hov (by rw [hs]; rfl)).onFailure now
      · rw [if_neg heq, if_neg (Ne.symm heq)]
        exact h.table t
    · -- a success overtakes the calls of its endpoint; for the others nothing shrank
      simp only [hl, Bool.or_eq_false_iff] at hj
      refine ⟨hj.1, ?_⟩
      rw [htr]
      split
      · next heq =>
        have ho : o ≠ .delivered := by
          rintro rfl
          simp [heq] at hj
        rw [if_neg ho, heq]
        exact Nat.le_succ _
      · exact le_rfl
  | _ => rw [hs] at hmay; exact absurd hmay id

theorem Counted.step (h : Counted en messages l c) (hn : NotOvertaken l c e) :
    Counted en messages (enter messages l c e) ((dynamoCalls en).step c e) := by
  cases hc : commitOf c e with
  | some p => exact h.step_commit hc hn
  | none =>
    cases hr : readsCircuit c e with
    | true => exact h.step_read hr
    | false => exact h.step_idle hc hr

omit [DecidableEq ι] in
/-- A trailing count of at least `n` means that the last `n` outcomes are failures. -/
theorem last_failures {n : Nat} {target : String × String} (h : n ≤ trailing l target) :
    n ≤ (l.outcomes target).length ∧ ∀ o ∈ (l.outcomes target).take n, o ≠ .delivered := by
  obtain ⟨rest, hrest⟩ := List.takeWhile_prefix (fun o => o != Outcome.delivered)
    (l := l.outcomes target)
  refine ⟨?_, fun o ho => ?_⟩
  · rw [← hrest, List.length_append]
    exact le_trans h (Nat.le_add_right _ _)
  · rw [← hrest, List.take_append_of_le_length h] at ho
    have hall := List.all_eq_true.mp List.all_takeWhile o (List.mem_of_mem_take ho)
    simpa using hall

end Step

/-- **No false trip.** From an empty table, over any interleaving: if no call writes a
half-open or a failure record after a success of its endpoint was recorded behind its
back, every step that opens a closed circuit ends `failureThreshold` failures in a row. -/
theorem no_false_trip (es : List (ι × DynamoInput))
    (h : (dynamoCalls en).AlongWith (enter messages) NotOvertaken .empty
      (emptyTable en messages) es) :
    (dynamoCalls en).AlongWith (enter messages) (NoFalseTrip en messages) .empty
      (emptyTable en messages) es := by
  refine h.strengthen (I := Counted en messages) (fun l c e hi hn => hi.step hn) ?_
    (emptyTable_counted en messages)
  intro l c e hi hn target _ hopen
  have hsound := (hi.step hn).table target
  exact last_failures (hsound.tripped (by rw [hopen]; nofun) |>.trans hsound.count)

/-- The environment of the traces: one endpoint, and a receiver that answers `http`. -/
def replying (http : HttpResult) : DynamoInput where
  fault := .none
  answer
    | .getEndpoint t id => some {
        endpointId := id, tenant := t, url := "https://a/h", eventTypes := ["*"]
        description := none, disabled := false, rateLimit := none, createdAt := 0
        secrets := ["whsec_1"] }
    | .recordEvent _ eventId _ => { isNew := true, eventId := eventId, messageCount := 0 }
    | .matchEndpoints .. => []
    | .getCircuit .. => initialCircuit defaultCooldownMs
    | .getRateBucket .. => none
    | .check _ => { allowed := true, reason := none }
    | .post .. => http
    | .now => 0
    | .next => 0
    | .finalizeEvent .. | .putMessage _ | .appendAttempt _ | .putCircuit .. | .putRateBucket ..
    | .addToDlq .. | .transportSend _ | .scheduleRetry .. | .recordAttempt _ => ()

/-- `n` commands of call `i`. -/
def commandsOf (i : Fin 3) (n : Nat) (http : HttpResult) : List (Fin 3 × DynamoInput) :=
  List.replicate n (i, replying http)

/-- Two deliveries one after the other fail and trip a breaker of threshold 2. -/
theorem two_failures_trip :
    (dynamoCalls (plainEngine 2)).AlongWith (enter threeMessages) NotOvertaken .empty
        (emptyTable (plainEngine 2) threeMessages)
        (commandsOf 0 13 .network ++ commandsOf 1 13 .network) ∧
      (stored ((dynamoCalls (plainEngine 2)).run (emptyTable (plainEngine 2) threeMessages)
        (commandsOf 0 13 .network ++ commandsOf 1 13 .network)) ("acme", "ep_1")).state = .opened ∧
      (dynamoCalls (plainEngine 2)).AlongWith (enter threeMessages)
        (NoFalseTrip (plainEngine 2) threeMessages) .empty
        (emptyTable (plainEngine 2) threeMessages)
        (commandsOf 0 13 .network ++ commandsOf 1 13 .network) :=
  ⟨by decide +kernel, by decide +kernel, no_false_trip _ _ _ (by decide +kernel)⟩

/-- A failure; a second call reads the count; a success is recorded; the second call
fails and trips the breaker on its stale count. -/
theorem success_in_the_gap_trips :
    ¬ ∀ (en : Engine) (messages : Fin 3 → Message) (es : List (Fin 3 × DynamoInput)),
      (dynamoCalls en).AlongWith (enter messages) (NoFalseTrip en messages) .empty
        (emptyTable en messages) es := by
  intro h
  have hlast := (h (plainEngine 2) threeMessages
    (commandsOf 0 13 .network ++ commandsOf 1 2 .network ++
      commandsOf 2 12 (.response 200 "" none) ++ commandsOf 1 10 .network ++
      [(1, replying .network)])).after
  have hfail := (hlast ("acme", "ep_1") (by decide +kernel) (by decide +kernel)).2
  exact hfail .delivered (by decide +kernel) rfl

end Anyhook.Breaker
