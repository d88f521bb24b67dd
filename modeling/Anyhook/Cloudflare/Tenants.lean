import Anyhook.Lib.Run
import Anyhook.Cloudflare.Schedule
import Anyhook.Cloudflare.Writes

/-! Tenants on Cloudflare do not see each other. A call of DoStateStore or DoScheduler goes
to the object of its tenant's index and to objects of its tenant's endpoints only; the names
of two tenants' objects are never the same, whatever characters their ids are made of. -/
namespace Anyhook.Cloudflare.Store
open Anyhook.Core Anyhook.Testing Anyhook.Lib.Program Anyhook.Lib.Run Anyhook.Lib.OrderedMap

/-! ## Calls -/

/-- `N` is the type of the times a retry is scheduled for. -/
inductive Call (N : Type) where
  | store (op : StoreOp)
  | scheduleRetry (m : Message) (atMs : N)

namespace Call
variable {N : Type}

def tenant : Call N → String
  | .store op => storeTenant op
  | .scheduleRetry m _ => m.tenant

/-- What the caller gets: an answer or an error. -/
@[reducible] def Result : Call N → Type
  | .store op => Except String (StoreRes op)
  | .scheduleRetry _ _ => Unit

end Call

/-- The storage of all objects, and their alarms. -/
structure Objects (N : Type) where
  cloud : Cloud
  alarms : Stub → Option N

namespace Objects
variable {N : Type} [LinearOrder N] (fmt : NumberText N)

/-- DoScheduler.scheduleRetry, the object's own method included. -/
def scheduleRetry (s : Objects N) (m : Message) (atMs : N) : Objects N :=
  let o := endpointStub m.tenant m.endpointId
  { cloud := s.cloud.put o (schedKey fmt atMs m.messageId) (.message m)
    alarms := if (s.alarms o).all fun a => decide (atMs < a)
      then Function.update s.alarms o (some atMs) else s.alarms }

def reply (s : Objects N) : (c : Call N) → c.Result
  | .store op => ((DoStateStore.perform op).run cloudExec s.cloud).1
  | .scheduleRetry _ _ => ()

def step (s : Objects N) : Call N → Objects N
  | .store op => { s with cloud := ((DoStateStore.perform op).run cloudExec s.cloud).2 }
  | .scheduleRetry m atMs => s.scheduleRetry fmt m atMs

end Objects

/-! ## Objects of a tenant -/

/-- No object belongs to two tenants. -/
theorem Owned.tenant_eq {t t' : String} {o : Stub} (h : Owned t o) (h' : Owned t' o) : t = t' := by
  obtain rfl | ⟨ep, rfl⟩ := h <;> obtain heq | ⟨ep', heq⟩ := h'
  · exact Stub.tenantIndex.inj heq
  · cases heq
  · cases heq
  · exact (endpointDoName_injective (Stub.endpoint.inj heq)).1

/-- The object an operation is about. -/
def DoOp.object : DoOp → Stub
  | .get o _ | .put o _ _ | .delete o _ | .list o _ => o

/-- The program keeps to the tenant's objects. -/
abbrev Inside {α : Type} (tenant : String) (p : Cf α) : Prop :=
  Within (fun op : DoOp => Owned tenant op.object) p

/-- Every method keeps to the objects of the tenant it is called for. -/
theorem inside_perform (op : StoreOp) : Inside (storeTenant op) (DoStateStore.perform op) :=
  within_perform_of {
    get := fun _ _ ho => ho
    list := fun _ _ ho => ho
    put := fun _ _ hw => hw.tenant ▸ owned_slot _
    delete := fun _ => owned_index _ }

/-! ## Two runs -/

section Runs
variable {N : Type} [LinearOrder N] {fmt : NumberText N} {t : String}

/-- The two storages agree on the tenant's objects. -/
def Alike (tenant : String) (c c' : Cloud) : Prop := ∀ o, Owned tenant o → c o = c' o

theorem alike_update {c c' : Cloud} (h : Alike t c c') {o : Stub} (ho : Owned t o)
    (f : OMap String Val → OMap String Val) :
    Alike t (Function.update c o (f (c o))) (Function.update c' o (f (c' o))) := by
  intro o' ho'
  rw [Function.update_apply, Function.update_apply, h o ho]
  split
  · rfl
  · exact h o' ho'

/-- An operation on an object of the tenant answers alike. -/
theorem cloudExec_alike {c c' : Cloud} (h : Alike t c c') (op : DoOp) (hop : Owned t op.object) :
    (cloudExec op c).1 = (cloudExec op c').1 ∧ Alike t (cloudExec op c).2 (cloudExec op c').2 := by
  cases op with
  | get o key => exact ⟨by simp only [cloudExec, h o hop], h⟩
  | put o key v => exact ⟨rfl, alike_update h hop (·.set key v)⟩
  | delete o key => exact ⟨rfl, alike_update h hop (·.delete key)⟩
  | list o keyStart => exact ⟨by simp only [cloudExec, Cloud.list, h o hop], h⟩

/-- An operation on another tenant's object leaves the tenant's objects alone. -/
theorem cloudExec_other {c : Cloud} {u : String} (hu : u ≠ t) {op : DoOp}
    (hop : Owned u op.object) : Alike t (cloudExec op c).2 c := by
  have hother : ∀ o, Owned t o → o ≠ op.object := by
    intro o ho heq
    exact hu (Owned.tenant_eq (heq ▸ hop) ho)
  intro o ho
  cases op with
  | get o' key => rfl
  | put o' key v => exact Function.update_of_ne (hother o ho) _ _
  | delete o' key => exact Function.update_of_ne (hother o ho) _ _
  | list o' keyStart => rfl

/-- The two states agree on the tenant's objects. -/
def Agree (tenant : String) (s s' : Objects N) : Prop :=
  Alike tenant s.cloud s'.cloud ∧ ∀ o, Owned tenant o → s.alarms o = s'.alarms o

theorem agree_own {s s' : Objects N} (h : Agree t s s') {call : Call N} (hc : call.tenant = t) :
    s.reply call = s'.reply call ∧ Agree t (s.step fmt call) (s'.step fmt call) := by
  obtain ⟨hcloud, halarms⟩ := h
  cases call with
  | store op =>
    have hrun := (inside_perform op).run_rel cloudExec (R := Alike t)
      (fun _ op c c' hcc hop => cloudExec_alike hcc op (hc ▸ hop)) hcloud
    exact ⟨hrun.1, hrun.2, halarms⟩
  | scheduleRetry m atMs =>
    have ho : Owned t (endpointStub m.tenant m.endpointId) := by
      rw [← hc]
      exact owned_endpoint m.tenant m.endpointId
    refine ⟨rfl, (cloudExec_alike hcloud (.put _ _ (.message m)) ho).2, ?_⟩
    intro o ho'
    simp only [Objects.step, Objects.scheduleRetry]
    rw [halarms _ ho]
    split
    · rw [Function.update_apply, Function.update_apply, halarms o ho']
    · exact halarms o ho'

theorem agree_other {s s' : Objects N} (h : Agree t s s') {call : Call N} (hc : call.tenant ≠ t) :
    Agree t (s.step fmt call) s' := by
  obtain ⟨hcloud, halarms⟩ := h
  cases call with
  | store op =>
    have hrun : Alike t ((DoStateStore.perform op).run cloudExec s.cloud).2 s.cloud := by
      refine (inside_perform op).run_keeps (I := fun c => Alike t c s.cloud) ?_ fun _ _ => rfl
      intro op c hop hi o ho
      exact (cloudExec_other hc hop o ho).trans (hi o ho)
    exact ⟨fun o ho => (hrun o ho).trans (hcloud o ho), halarms⟩
  | scheduleRetry m atMs =>
    have hne : ∀ o, Owned t o → o ≠ endpointStub m.tenant m.endpointId := by
      intro o ho heq
      exact hc (Owned.tenant_eq (owned_endpoint m.tenant m.endpointId) (heq ▸ ho))
    refine ⟨?_, ?_⟩
    · intro o ho
      exact (Function.update_of_ne (hne o ho) _ _).trans (hcloud o ho)
    · intro o ho
      simp only [Objects.step, Objects.scheduleRetry]
      split
      · rw [Function.update_of_ne (hne o ho)]
        exact halarms o ho
      · exact halarms o ho

/-- **Tenants do not interfere**: from any state, what a tenant's calls return is what they
return without the calls of all other tenants. No two endpoints share an object. -/
theorem tenants_apart (fmt : NumberText N) (tenant : String) (s : Objects N)
    (calls : List (Call N)) :
    outputs (Objects.step fmt) Objects.reply (fun c => c.tenant = tenant) s calls =
      outputs (Objects.step fmt) Objects.reply (fun c => c.tenant = tenant) s
        (calls.filter fun c => c.tenant = tenant) ∧
    ∀ t₁ e₁ t₂ e₂, endpointDoName t₁ e₁ = endpointDoName t₂ e₂ → t₁ = t₂ ∧ e₁ = e₂ := by
  refine ⟨?_, fun _ _ _ _ => endpointDoName_injective⟩
  refine outputs_filter (R := Agree tenant) ?_ ?_ ⟨fun _ _ => rfl, fun _ _ => rfl⟩
  · intro s s' c hc h
    exact agree_own h (of_decide_eq_true hc)
  · intro s s' c hc h
    exact agree_other h (of_decide_eq_false hc)

/-- A colon moved from the tenant to the endpoint makes another object, and tenant `a` does
not see the endpoint tenant `a:b` creates. -/
theorem colon_moved :
    endpointDoName "a:b" "x" ≠ endpointDoName "a" "b:x" ∧
    outputs (Objects.step decimal) Objects.reply (fun c => c.tenant = "a")
        ⟨.empty, fun _ => none⟩ [.store (.putCircuit "a:b" "x" (initialCircuit 1)),
          .store (.getCircuit "a" "b:x")] =
      outputs (Objects.step decimal) Objects.reply (fun c => c.tenant = "a")
        ⟨.empty, fun _ => none⟩ [.store (.getCircuit "a" "b:x")] := by
  refine ⟨?_, ?_⟩
  · intro h
    have hsame := (tenants_apart decimal "a" ⟨.empty, fun _ => none⟩ []).2 _ _ _ _ h
    exact absurd hsame.1 (by decide)
  · exact (tenants_apart decimal "a" ⟨.empty, fun _ => none⟩ _).1

end Runs
end Anyhook.Cloudflare.Store
