import Anyhook.Lib.Interleave
import Anyhook.Aws.DynamoStore

/-! Concurrent changes of one endpoint. `updateEndpoint` and `rotateSecret` read the
whole item and write the whole item back; nothing guards the window between. A secret
that a rotation has returned stays in force, and a deleted endpoint stays deleted, as
long as every write-back finds the secrets its call read. -/
namespace Anyhook.Aws.Store
open Anyhook.Core Anyhook.Testing Anyhook.Lib.Program Anyhook.Lib.Interleave
open Anyhook.Lib.OrderedMap

/-! ## The system -/

inductive EndpointCall where
  | update (patch : MemoryStateStore.EndpointPatch)
  | rotate (secret : String)
  | delete

def EndpointCall.program (tenant endpointId : String) : EndpointCall → Ddb Unit
  | .update patch => do
    let _ ← updateEndpoint tenant endpointId patch
    return ()
  | .rotate secret => do
    let _ ← rotateSecret tenant endpointId secret
    return ()
  | .delete => deleteEndpoint tenant endpointId

/-- A call is watched for the row it read last. -/
def readMonitor : Monitor TableOp TableRes (Option Row) where
  allows _ _ := True
  next g
    | .getItem .., row => row
    | _, _ => g

/-- Reads are up to date: what is at stake is the window between two commands. -/
def current : TableAnswer where
  lag := 0
  size := 0
  more := false

abbrev EndpointConf (ι : Type) := Conf TableOp TableRes String Unit Table ι (Option Row)

def endpointPool (ι : Type) : System TableOp TableRes String Table Unit ι (Option Row) where
  exec _ _ op t := (.ok (tableExec current op t).1, (tableExec current op t).2)
  monitor := readMonitor

def endpointRow (e : Endpoint) : Row where
  pk := tenantPk e.tenant
  sk := endpointSk e.endpointId
  attrs := .endpoint e
  version := none

variable {ι : Type} (e₀ : Endpoint) (jobs : ι → EndpointCall)

/-- Every call at its first command, over a table that holds the endpoint. -/
def endpointStart (t : Table) : EndpointConf ι where
  shared := { t with rows := t.rows.set (endpointRow e₀).key (endpointRow e₀) }
  rest i := (jobs i).program e₀.tenant e₀.endpointId
  view _ := none

/-! ## The law -/

/-- The secrets rotations have returned so far, the latest first, and whether a delete
has returned. -/
structure Returned where
  secrets : List String
  deleted : Bool

def Returned.nothing : Returned where
  secrets := []
  deleted := false

def EndpointCall.returns (log : Returned) : EndpointCall → Returned
  | .update _ => log
  | .rotate secret => { log with secrets := secret :: log.secrets }
  | .delete => { log with deleted := true }

/-- The log after a step: a call that returns by it is entered. -/
def noteReturn [DecidableEq ι] (log : Returned) (c : EndpointConf ι) (ev : ι × Unit) : Returned :=
  if (c.rest ev.1).result? = none ∧ (((endpointPool ι).step c ev).rest ev.1).result? = some () then
    (jobs ev.1).returns log
  else log

/-- The endpoint as `getEndpoint` finds it. -/
def storedEndpoint (c : EndpointConf ι) : Option Endpoint :=
  (c.shared.rows.get (endpointRow e₀).key).bind fun row => row.attrs.endpoint?

/-- A secret with fewer than two returned rotations after it is stored, and a deleted
endpoint is not. -/
structure NeverUndone (log : Returned) (c : EndpointConf ι) : Prop where
  kept : log.deleted = false → ∀ s ∈ log.secrets.take 2,
    ∃ e, storedEndpoint e₀ c = some e ∧ s ∈ e.secrets
  gone : log.deleted = true → storedEndpoint e₀ c = none

def Row.secrets? (row : Row) : Option (List String) := row.attrs.endpoint?.map Endpoint.secrets

/-- The step is a write-back, and the stored secrets are not those its call read. -/
def writesOverOthers (c : EndpointConf ι) (ev : ι × Unit) : Bool :=
  match (c.rest ev.1).head with
  | some (.putItem row _) =>
    (c.shared.rows.get row.key).bind Row.secrets? ≠ (c.view ev.1).bind Row.secrets?
  | _ => false

/-- A write-back finds the secrets its call read: nobody rotated or deleted in between. -/
def WritesOverRead (c : EndpointConf ι) (ev : ι × Unit) : Prop := writesOverOthers c ev = false

instance (c : EndpointConf ι) (ev : ι × Unit) : Decidable (WritesOverRead c ev) :=
  inferInstanceAs (Decidable (_ = false))

/-! ## Where a call can be -/

/-- The item a call writes back for the one it read. -/
def EndpointCall.changed (existing : Endpoint) : EndpointCall → Endpoint
  | .update patch => patch.apply existing
  | .rotate secret => MemoryStateStore.rotated existing secret
  | .delete => existing

def EndpointCall.writeBack (j : EndpointCall) (existing : Endpoint) : Ddb Unit :=
  .call (.putItem (endpointRow (j.changed existing)) .none) fun _ => pure ()

/-- What a call makes of the item it reads. -/
def EndpointCall.found (j : EndpointCall) (endpointId : String) : Option Row → Ddb Unit
  | none => .throw ("endpoint not found: " ++ endpointId)
  | some row => match row.attrs.endpoint? with
    | none => .throw "TypeError"
    | some existing => j.writeBack existing

theorem EndpointCall.program_eq {j : EndpointCall} (hj : j ≠ .delete) (tenant endpointId : String) :
    j.program tenant endpointId =
      .call (.getItem (tenantPk tenant, endpointSk endpointId) false) (j.found endpointId) := by
  cases j with
  | delete => exact absurd rfl hj
  | update patch =>
    refine congrArg (Prog.call _) (funext fun item => ?_)
    cases item with
    | none => rfl
    | some row =>
      obtain ⟨pk, sk, attrs, version⟩ := row
      cases attrs <;> rfl
  | rotate secret =>
    refine congrArg (Prog.call _) (funext fun item => ?_)
    cases item with
    | none => rfl
    | some row =>
      obtain ⟨pk, sk, attrs, version⟩ := row
      cases attrs <;> rfl

/-- The endpoint has the keys of the one the calls are for. -/
def Named (e : Endpoint) : Prop := e.tenant = e₀.tenant ∧ e.endpointId = e₀.endpointId

/-- A call is at its start, about to write back what it read, or at its end. -/
inductive At (j : EndpointCall) (view : Option Row) : Ddb Unit → Prop
  | start : At j view (j.program e₀.tenant e₀.endpointId)
  | writing (existing : Endpoint) (hj : j ≠ .delete) (hname : Named e₀ existing)
      (hread : view = some (endpointRow existing)) : At j view (j.writeBack existing)
  | returned : At j view (.pure ())
  | failed (x : String) : At j view (.throw x)

/-! ## The invariant -/

/-- While the endpoint is not deleted, the last two secrets returned are its first. -/
structure Sound (log : Returned) (c : EndpointConf ι) : Prop where
  forms : ∀ i, At e₀ (jobs i) (c.view i) (c.rest i)
  present : log.deleted = false → ∃ e, c.shared.rows.get (endpointRow e₀).key =
    some (endpointRow e) ∧ Named e₀ e ∧ log.secrets.take 2 <+: e.secrets
  gone : log.deleted = true → c.shared.rows.get (endpointRow e₀).key = none

variable {e₀ jobs} {log : Returned} {c : EndpointConf ι}

theorem Named.key {e : Endpoint} (h : Named e₀ e) : (endpointRow e).key = (endpointRow e₀).key := by
  simp [endpointRow, Row.key, h.1, h.2]

theorem EndpointCall.changed_named (j : EndpointCall) {e : Endpoint} (h : Named e₀ e) :
    Named e₀ (j.changed e) := by
  cases j <;> exact h

theorem sound_start (t : Table) : Sound e₀ jobs .nothing (endpointStart e₀ jobs t) where
  forms _ := .start
  present _ := ⟨e₀, OMap.get_set_self .., ⟨rfl, rfl⟩, List.nil_prefix⟩
  gone h := by cases h

theorem Sound.neverUndone (h : Sound e₀ jobs log c) : NeverUndone e₀ log c where
  kept hd s hs := by
    obtain ⟨e, hget, -, hpre⟩ := h.present hd
    exact ⟨e, by rw [storedEndpoint, hget]; rfl, hpre.subset hs⟩
  gone hd := by simp [storedEndpoint, h.gone hd]

variable [DecidableEq ι]

/-- One command of a call: no command fails. -/
theorem endpointPool_step {i : ι} {op : TableOp} {k : TableRes op → Ddb Unit}
    (hc : c.rest i = .call op k) :
    (endpointPool ι).step c (i, ()) = {
      shared := (tableExec current op c.shared).2
      rest := Function.update c.rest i (k (tableExec current op c.shared).1)
      view := Function.update c.view i
        (readMonitor.next (c.view i) op (tableExec current op c.shared).1) } := by
  unfold System.step
  simp only [hc]
  rfl

/-- The call that moves may be anywhere it can be; the others stay. -/
theorem Sound.forms_step (h : Sound e₀ jobs log c) {i : ι} {c' : EndpointConf ι}
    {p : Ddb Unit} {v : Option Row} (hr : c'.rest = Function.update c.rest i p)
    (hv : c'.view = Function.update c.view i v) (hp : At e₀ (jobs i) v p) (j : ι) :
    At e₀ (jobs j) (c'.view j) (c'.rest j) := by
  rw [hr, hv]
  by_cases hj : j = i
  · subst hj
    rw [Function.update_self, Function.update_self]
    exact hp
  · rw [Function.update_of_ne hj, Function.update_of_ne hj]
    exact h.forms j

/-- A read leaves the table alone; its call goes on with the stored endpoint, or fails. -/
theorem Sound.read (h : Sound e₀ jobs log c) {i : ι} (hj : jobs i ≠ .delete)
    (hc : c.rest i = (jobs i).program e₀.tenant e₀.endpointId) :
    Sound e₀ jobs (noteReturn jobs log c (i, ())) ((endpointPool ι).step c (i, ())) := by
  rw [EndpointCall.program_eq hj] at hc
  have hstep := endpointPool_step hc
  have hsee : (tableExec current (.getItem (endpointRow e₀).key false) c.shared).1 =
      c.shared.rows.get (endpointRow e₀).key := see_zero ..
  have hend : At e₀ (jobs i) (c.shared.rows.get (endpointRow e₀).key)
      ((jobs i).found e₀.endpointId (c.shared.rows.get (endpointRow e₀).key)) ∧
      ((jobs i).found e₀.endpointId (c.shared.rows.get (endpointRow e₀).key)).result? = none := by
    cases hd : log.deleted with
    | true =>
      rw [h.gone hd]
      exact ⟨.failed _, rfl⟩
    | false =>
      obtain ⟨e, hget, hname, -⟩ := h.present hd
      rw [hget]
      exact ⟨.writing e hj hname rfl, rfl⟩
  have hlog : noteReturn jobs log c (i, ()) = log := by
    unfold noteReturn
    rw [hstep]
    refine if_neg fun hret => ?_
    have hres := hret.2
    dsimp only at hres
    rw [Function.update_self] at hres
    have hnone := (congrArg (fun r => ((jobs i).found e₀.endpointId r).result?) hsee).trans hend.2
    cases hres.symm.trans hnone
  rw [hlog]
  refine ⟨h.forms_step (v := c.shared.rows.get (endpointRow e₀).key) ?_ ?_ hend.1, ?_, ?_⟩
  · rw [hstep]; exact congrArg (Function.update c.rest i) (congrArg _ hsee)
  · rw [hstep]; exact congrArg (Function.update c.view i) hsee
  · rw [hstep]; exact h.present
  · rw [hstep]; exact h.gone

/-- A step by which a call returns enters it in the log. -/
theorem noteReturn_of_returns {i : ι} {op : TableOp} {k : TableRes op → Ddb Unit}
    (hc : c.rest i = .call op k) (hk : ∀ r, k r = .pure ()) :
    noteReturn jobs log c (i, ()) = (jobs i).returns log := by
  unfold noteReturn
  rw [endpointPool_step hc]
  refine if_pos ⟨by rw [hc]; rfl, ?_⟩
  dsimp only
  rw [Function.update_self, hk]
  rfl

theorem Sound.delete (h : Sound e₀ jobs log c) {i : ι} (hj : jobs i = .delete)
    (hc : c.rest i = (jobs i).program e₀.tenant e₀.endpointId) :
    Sound e₀ jobs (noteReturn jobs log c (i, ())) ((endpointPool ι).step c (i, ())) := by
  have hcall : c.rest i = .call (.deleteItem (endpointRow e₀).key) .pure := by
    rw [hc, hj]
    rfl
  have hstep := endpointPool_step hcall
  have hdel : (noteReturn jobs log c (i, ())).deleted = true := by
    rw [noteReturn_of_returns hcall fun _ => rfl, hj]
    rfl
  refine ⟨h.forms_step (by rw [hstep]) (by rw [hstep]) .returned, ?_, ?_⟩
  · intro hno
    rw [hdel] at hno
    cases hno
  · intro _
    rw [hstep]
    simp [tableExec, Table.commit, OMap.get_delete]

/-- What a write-back leaves of the secrets, where it finds the ones that were read. -/
theorem EndpointCall.returns_secrets (j : EndpointCall) {existing : Endpoint} (hj : j ≠ .delete)
    (h : log.secrets.take 2 <+: existing.secrets) :
    (j.returns log).secrets.take 2 <+: (j.changed existing).secrets := by
  cases j with
  | delete => exact absurd rfl hj
  | update patch => exact h
  | rotate secret =>
    have hone : log.secrets.take 1 <+: existing.secrets.take 1 :=
      List.prefix_take_iff.mpr
        ⟨(List.take_prefix_take_left (by omega)).trans h, List.length_take_le ..⟩
    exact (List.prefix_cons_inj secret).mpr hone

theorem Sound.write (h : Sound e₀ jobs log c) {i : ι} {existing : Endpoint}
    (hw : WritesOverRead c (i, ())) (hname : Named e₀ existing)
    (hread : c.view i = some (endpointRow existing))
    (hc : c.rest i = (jobs i).writeBack existing) (hj : jobs i ≠ .delete) :
    Sound e₀ jobs (noteReturn jobs log c (i, ())) ((endpointPool ι).step c (i, ())) := by
  have hchanged := (jobs i).changed_named hname
  have hmatch : (c.shared.rows.get (endpointRow e₀).key).bind Row.secrets? =
      some existing.secrets := by
    unfold WritesOverRead writesOverOthers at hw
    rw [hc] at hw
    dsimp only [EndpointCall.writeBack, Prog.head] at hw
    rw [hchanged.key, hread] at hw
    exact of_not_not (of_decide_eq_false hw)
  have hlive : log.deleted = false := by
    cases hd : log.deleted with
    | false => rfl
    | true =>
      rw [h.gone hd] at hmatch
      cases hmatch
  obtain ⟨e, hget, -, hpre⟩ := h.present hlive
  have hsame : e.secrets = existing.secrets := by
    rw [hget] at hmatch
    exact Option.some.inj hmatch
  have hstep := endpointPool_step hc
  have hlog : noteReturn jobs log c (i, ()) = (jobs i).returns log :=
    noteReturn_of_returns hc fun _ => rfl
  have hkeep : ((jobs i).returns log).deleted = log.deleted := by
    cases hji : jobs i with
    | delete => exact absurd hji hj
    | update patch => rfl
    | rotate secret => rfl
  rw [hlog]
  refine ⟨h.forms_step (by rw [hstep]; rfl) (by rw [hstep]) .returned, fun _ => ?_, fun hdel => ?_⟩
  · refine ⟨(jobs i).changed existing, ?_, hchanged, ?_⟩
    · rw [hstep]
      simp [tableExec, Condition.holds, Table.commit, hchanged.key]
    · exact (jobs i).returns_secrets hj (hsame ▸ hpre)
  · rw [hkeep, hlive] at hdel
    cases hdel

theorem Sound.step (h : Sound e₀ jobs log c) (ev : ι × Unit) (hw : WritesOverRead c ev) :
    Sound e₀ jobs (noteReturn jobs log c ev) ((endpointPool ι).step c ev) := by
  obtain ⟨i, u⟩ := ev
  have hat := h.forms i
  -- a call that has ended does not move, and is not entered again
  have hended : (c.rest i).head = none → Sound e₀ jobs (noteReturn jobs log c (i, ()))
      ((endpointPool ι).step c (i, ())) := by
    intro hhead
    have hstay : (endpointPool ι).step c (i, ()) = c := by
      unfold System.step
      cases hr : c.rest i with
      | call op k => rw [hr] at hhead; cases hhead
      | pure a => rfl
      | throw x => rfl
    have hlog : noteReturn jobs log c (i, ()) = log := by
      unfold noteReturn
      rw [hstay]
      refine if_neg fun hret => ?_
      rw [hret.1] at hret
      cases hret.2
    rw [hstay, hlog]
    exact h
  cases hr : c.rest i with
  | pure a => exact hended (by rw [hr]; rfl)
  | throw x => exact hended (by rw [hr]; rfl)
  | call op k =>
    rw [hr] at hat
    generalize hp : Prog.call op k = p at hat
    cases hat with
    | start =>
      by_cases hj : jobs i = .delete
      · exact h.delete hj (hr.trans hp)
      · exact h.read hj (hr.trans hp)
    | writing existing hj hname hread => exact h.write hw hname hread (hr.trans hp) hj
    | returned => cases hp
    | failed x => cases hp

/-! ## The result -/

/-- In every run in which each write-back finds the secrets its call read, no returned
secret is undone and no deleted endpoint comes back, after any step. -/
theorem rotation_never_undone (e₀ : Endpoint) (jobs : ι → EndpointCall) (t : Table)
    (es : List (ι × Unit))
    (h : (endpointPool ι).Along WritesOverRead (endpointStart e₀ jobs t) es) :
    (endpointPool ι).AlongWith (noteReturn jobs)
      (fun log c ev => NeverUndone e₀ (noteReturn jobs log c ev) ((endpointPool ι).step c ev))
      .nothing (endpointStart e₀ jobs t) es :=
  System.Along.noting (fun _ _ ev hs hw => hs.step ev hw)
    (fun _ _ ev hs hw => (hs.step ev hw).neverUndone) (sound_start t) h

def oneSecret : Endpoint := anyEvent.endpoint "ep_1" "whsec_0" 0

def disable : MemoryStateStore.EndpointPatch where
  url := none
  eventTypes := none
  disabled := some true

/-- An update next to another call. -/
def updateAnd (other : EndpointCall) (i : Fin 2) : EndpointCall :=
  if i.val = 0 then .update disable else other

/-- The rotation runs in full before the update starts. -/
theorem rotated_then_updated_kept :
    (endpointPool (Fin 2)).Along WritesOverRead
        (endpointStart oneSecret (updateAnd (.rotate "whsec_1")) .empty)
        [(1, ()), (1, ()), (0, ()), (0, ())] ∧
      (endpointPool (Fin 2)).AlongWith (noteReturn (updateAnd (.rotate "whsec_1")))
        (fun log c ev => NeverUndone oneSecret
          (noteReturn (updateAnd (.rotate "whsec_1")) log c ev) ((endpointPool (Fin 2)).step c ev))
        .nothing (endpointStart oneSecret (updateAnd (.rotate "whsec_1")) .empty)
        [(1, ()), (1, ()), (0, ()), (0, ())] :=
  ⟨by decide +kernel, rotation_never_undone _ _ _ _ (by decide +kernel)⟩

/-- An update that reads before a rotation and writes after it puts the old secret back. -/
theorem update_undoes_rotation :
    ¬ ∀ (e₀ : Endpoint) (jobs : Fin 2 → EndpointCall) (t : Table) (es : List (Fin 2 × Unit)),
      (endpointPool (Fin 2)).AlongWith (noteReturn jobs)
        (fun log c ev => NeverUndone e₀ (noteReturn jobs log c ev)
          ((endpointPool (Fin 2)).step c ev)) .nothing (endpointStart e₀ jobs t) es := by
  intro h
  have hlast := (h oneSecret (updateAnd (.rotate "whsec_1")) .empty
    ([(0, ()), (1, ()), (1, ())] ++ [(0, ())])).after
  obtain ⟨e, he, hs⟩ := hlast.kept (by decide +kernel) "whsec_1" (by decide +kernel)
  have hstored : (storedEndpoint oneSecret ((endpointPool (Fin 2)).step ((endpointPool (Fin 2)).run
      (endpointStart oneSecret (updateAnd (.rotate "whsec_1")) .empty)
      [(0, ()), (1, ()), (1, ())]) (0, ()))).map Endpoint.secrets = some ["whsec_0"] := by
    decide +kernel
  rw [he] at hstored
  rw [Option.some.inj hstored] at hs
  exact absurd hs (by decide)

end Anyhook.Aws.Store
