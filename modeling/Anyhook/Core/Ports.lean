import Anyhook.Lib.Program
import Anyhook.Core.Types

/-! The ports of packages/core/src/ports as one signature of operations. Every
await of the engine on a port is one operation, and so is every reading of the
clock and every draw of the random source. A port that throws ends the call that
used it: the engine catches nothing itself. -/
namespace Anyhook.Core
open Anyhook.Lib.Program

structure EventRecordResult where
  isNew : Bool
  eventId : String
  messageCount : Nat
  deriving DecidableEq, Repr

/-- The URL policy's answer. -/
structure Verdict where
  allowed : Bool
  reason : Option String
  deriving DecidableEq, Repr

/-- `headers` has lower-case names; `none` when the client passes no headers on. -/
inductive HttpResult where
  | response (status : Int) (body : String) (headers : Option (List (String × String)))
  | timeout
  | network
  deriving DecidableEq, Repr

inductive Op where
  | recordEvent (tenant eventId idemKey : String)
  | finalizeEvent (tenant idemKey eventId : String) (messageCount : Nat)
  | getEndpoint (tenant endpointId : String)
  | matchEndpoints (tenant eventType : String)
  | putMessage (m : Message)
  | appendAttempt (a : Attempt)
  | getCircuit (tenant endpointId : String)
  | putCircuit (tenant endpointId : String) (rec : CircuitRecord)
  | getRateBucket (tenant endpointId : String)
  | putRateBucket (tenant endpointId : String) (bucket : RateBucket)
  | addToDlq (m : Message) (reason : DlqReason)
  | transportSend (m : Message)
  | scheduleRetry (m : Message) (atMs : Time)
  | recordAttempt (a : Attempt)
  | check (url : String)
  | post (url body : String) (headers : List (String × String)) (timeoutMs : Time)
  | now
  | next

/-- The answer type of an operation. -/
@[reducible] def Res : Op → Type
  | .recordEvent .. => EventRecordResult
  | .getEndpoint .. => Option Endpoint
  | .matchEndpoints .. => List Endpoint
  | .getCircuit .. => CircuitRecord
  | .getRateBucket .. => Option RateBucket
  | .check _ => Verdict
  | .post .. => HttpResult
  | .now => Time
  | .next => ℚ
  | .finalizeEvent .. | .putMessage _ | .appendAttempt _ | .putCircuit .. | .putRateBucket ..
  | .addToDlq .. | .transportSend _ | .scheduleRetry .. | .recordAttempt _ => Unit

/-- Engine code: a program over the ports that may throw an error message. -/
abbrev Eng := Prog Op Res String

/-- Perform a port operation. -/
abbrev port (op : Op) : Eng (Res op) := Prog.perform op

/-! ## Programs that only read the clock and the random source -/

inductive Reads {α : Type} : Eng α → Prop
  | pure (a : α) : Reads (.pure a)
  | now {k : Time → Eng α} (h : ∀ t, Reads (k t)) : Reads (.call .now k)
  | next {k : ℚ → Eng α} (h : ∀ q, Reads (k q)) : Reads (.call .next k)

theorem Reads.bind {α β : Type} {p : Eng α} {f : α → Eng β} (hp : Reads p)
    (hf : ∀ a, Reads (f a)) : Reads (p >>= f) := by
  induction hp with
  | pure a => exact hf a
  | now _ ih => exact .now ih
  | next _ ih => exact .next ih

theorem reads_now : Reads (port .now) := .now fun t => .pure t
theorem reads_next : Reads (port .next) := .next fun q => .pure q
theorem reads_pure {α : Type} (a : α) : Reads (pure a : Eng α) := .pure a

theorem Reads.total {α : Type} {p : Eng α} (hp : Reads p) : Prog.Total p := by
  induction hp with
  | pure a => trivial
  | now _ ih => exact ih
  | next _ ih => exact ih

theorem Reads.only {α : Type} {P : Op → Prop} (hnow : P .now) (hnext : P .next) {p : Eng α}
    (hp : Reads p) : Prog.Only P p := by
  induction hp with
  | pure a => trivial
  | now _ ih => exact ⟨hnow, ih⟩
  | next _ ih => exact ⟨hnext, ih⟩

/-- A monitor that lets readings pass unnoticed says nothing about such a program
but what it returns. -/
theorem Reads.obeys {α G : Type} {M : Monitor Op Res G} {done : G → α → Prop} {g : G}
    {p : Eng α} (hp : Reads p) (hnow : M.allows g .now ∧ ∀ t, M.next g .now t = g)
    (hnext : M.allows g .next ∧ ∀ q, M.next g .next q = g) (hd : ∀ a, done g a) :
    Obeys M done g p := by
  induction hp with
  | pure a => exact hd a
  | now _ ih => exact ⟨hnow.1, fun t => by rw [hnow.2 t]; exact ih t⟩
  | next _ ih => exact ⟨hnext.1, fun q => by rw [hnext.2 q]; exact ih q⟩

end Anyhook.Core
