import Anyhook.Lib.Interleave
import Anyhook.Go.Engine
import Anyhook.Testing.World

/-! Concurrent calls of `processMessage` over one runtime. A job is a message in
the hands of one of the two engines; the pool interleaves the jobs port call by
port call. The environment answers each call of a job and may fail it, before or
after it took effect. -/
namespace Anyhook.Testing
open Anyhook.Core Anyhook.Lib.Program Anyhook.Lib.Interleave Anyhook.Lib.OrderedMap

inductive Lang where
  | ts | go
  deriving DecidableEq, Repr

def Lang.dialect : Lang → Dialect
  | .ts => Core.dialect
  | .go => Go.dialect

def Lang.send : Lang → Engine → SendEvent → Eng Receipt
  | .ts => Core.send
  | .go => Go.send

def Lang.keyOf : Lang → Engine → SendEvent → String
  | .ts => Core.keyOf
  | .go => Go.keyOf

structure Job where
  lang : Lang
  message : Message

def Job.process (en : Engine) (j : Job) : Eng Unit :=
  match j.lang with
  | .ts => Core.processMessage en j.message
  | .go => Go.processMessage en j.message

theorem Job.process_eq (en : Engine) (j : Job) :
    j.process en = processWith j.lang.dialect en j.message := by
  unfold Job.process
  cases j.lang <;> rfl

variable {ι G : Type}

abbrev PoolConf (ι G : Type) := Conf Op Res String Unit World ι G

/-- The jobs of the pool, watched by `M`. -/
def pool (jobs : ι → Job) (M : Monitor Op Res G) : System Op Res String World Input ι G where
  exec i inp op w := execFault (some (jobs i).message) inp.1 inp.2 op w
  monitor := M

/-- Every job at its first port call. -/
def start (en : Engine) (jobs : ι → Job) (w : World) (view : ι → G) : PoolConf ι G where
  shared := w
  rest i := (jobs i).process en
  view := view

/-- Only a circuit write changes a stored circuit, and only its own. -/
theorem exec_getCircuit (self : Option Message) (a : Answer) (op : Op) (w : World) (t e : String) :
    (exec self a op w).2.store.getCircuit t e = match op with
      | .putCircuit t' e' rec => if (t', e') = (t, e) then rec else w.store.getCircuit t e
      | _ => w.store.getCircuit t e := by
  unfold MemoryStateStore.getCircuit
  rw [exec_tenants]
  cases op with
  | putCircuit t' e' rec =>
    by_cases ht : t' = t
    · by_cases he : e' = e
      · simp [writesTo, effect, ht, he]
      · simp [writesTo, effect, ht, he, OMap.get_set_of_ne _ he]
    · simp [writesTo, ht]
  | recordEvent t' ev key =>
    dsimp only [effect]
    split
    · split <;> rfl
    · rfl
  | _ => dsimp only [effect]; split <;> rfl

/-! ## What one step of the pool changes -/

section Steps
variable [DecidableEq ι] (jobs : ι → Job) (M : Monitor Op Res G)

/-- A step that finds a call to make either answers it or fails it. -/
theorem pool_step_call {c : PoolConf ι G} {i : ι} {op : Op} {k : Res op → Eng Unit}
    (hc : c.rest i = .call op k) (inp : Input) :
    ((pool jobs M).step c (i, inp)).shared =
        (if inp.2 = .before then c.shared else (exec (some (jobs i).message) inp.1 op c.shared).2) ∧
      ((pool jobs M).step c (i, inp)).view i =
        (if inp.2 = .none then
          M.next (c.view i) op (exec (some (jobs i).message) inp.1 op c.shared).1
        else c.view i) ∧
      ((pool jobs M).step c (i, inp)).rest i =
        (if inp.2 = .none then k (exec (some (jobs i).message) inp.1 op c.shared).1
        else .throw "port failure") := by
  obtain ⟨a, f⟩ := inp
  unfold System.step
  simp only [hc]
  cases f <;> simp [pool, execFault]

/-- A step without a call to make changes nothing. -/
theorem pool_step_ended {c : PoolConf ι G} {i : ι} {inp : Input} (hc : (c.rest i).head = none) :
    (pool jobs M).step c (i, inp) = c := by
  unfold System.step
  cases h : c.rest i with
  | call op k => rw [h] at hc; cases hc
  | pure a => rfl
  | throw x => rfl

/-- The circuit write a step commits. -/
def circuitWrite (c : PoolConf ι G) (e : ι × Input) : Option ((String × String) × CircuitRecord) :=
  match (c.rest e.1).head with
  | some (.putCircuit t ep rec) => if e.2.2 = .before then none else some ((t, ep), rec)
  | _ => none

/-- A stored circuit changes by committed writes only. -/
theorem step_getCircuit (c : PoolConf ι G) (e : ι × Input) (t ep : String) :
    ((pool jobs M).step c e).shared.store.getCircuit t ep = match circuitWrite c e with
      | some (target, rec) => if target = (t, ep) then rec else c.shared.store.getCircuit t ep
      | none => c.shared.store.getCircuit t ep := by
  obtain ⟨i, a, f⟩ := e
  cases hc : c.rest i with
  | pure r => rw [pool_step_ended jobs M (by rw [hc]; rfl)]; simp [circuitWrite, hc, Prog.head]
  | throw x => rw [pool_step_ended jobs M (by rw [hc]; rfl)]; simp [circuitWrite, hc, Prog.head]
  | call op k =>
    rw [(pool_step_call jobs M hc _).1]
    by_cases hf : f = .before
    · subst hf
      cases op <;> simp [circuitWrite, hc, Prog.head]
    · rw [if_neg hf, exec_getCircuit]
      cases op <;> simp [circuitWrite, hc, Prog.head, hf]

/-- A view moves at an answered call of its own, that is, one without a fault. -/
theorem pool_step_view (c : PoolConf ι G) (i : ι) (inp : Input) (j : ι) :
    ((pool jobs M).step c (i, inp)).view j = c.view j ∨
      j = i ∧ inp.2 = .none ∧ ∃ op k, c.rest i = .call op k ∧
        ((pool jobs M).step c (i, inp)).view j =
          M.next (c.view i) op (exec (some (jobs i).message) inp.1 op c.shared).1 := by
  obtain h | ⟨rfl, op, k, r, hc, hx, h⟩ := System.step_view (S := pool jobs M) c i inp j
  · exact .inl h
  · obtain ⟨a, f⟩ := inp
    cases f with
    | none =>
      cases hx
      exact .inr ⟨rfl, rfl, op, k, hc, h⟩
    | before => cases hx
    | after => cases hx

end Steps

/-! ## A runtime with one endpoint -/

/-- An engine without a signature scheme, for traces. -/
def plainEngine (failureThreshold : Nat) : Engine where
  retry := ⟨[1000]⟩
  circuitCfg := { failureThreshold := failureThreshold, cooldownMs := 100 }
  maxPayloadBytes := 1000
  timeoutMs := 1000
  sign := fun _ _ _ _ => []
  sha256Hex := id

def anyEvent : MemoryStateStore.CreateInput where
  tenant := "acme"
  url := "https://a/h"
  eventTypes := ["*"]
  description := none
  rateLimit := none

def oneEndpoint : World where
  store := MemoryStateStore.empty.createEndpoint anyEvent "ep_1" "whsec_1" 0
  queue := []
  pending := []
  posts := []

/-- A message for that endpoint. -/
def messageFor (messageId : String) : Message where
  messageId := messageId
  tenant := "acme"
  endpointId := "ep_1"
  eventId := "evt_1"
  eventType := "order.created"
  payload := "1"
  attemptNo := 0
  status := .pending
  nextAttemptAt := none
  createdAt := 0

def threeMessages : Fin 3 → Message
  | 0 => messageFor "msg_a"
  | 1 => messageFor "msg_b"
  | 2 => messageFor "msg_c"

def orderCreated : SendEvent where
  type := "order.created"
  tenant := "acme"
  payload := "1"
  idempotencyKey := some "k"

/-- The target is allowed and answers `http`. -/
def answering (now : Time) (http : HttpResult) : Answer where
  now := now
  draw := 0
  verdict := { allowed := true, reason := none }
  http := http

end Anyhook.Testing
