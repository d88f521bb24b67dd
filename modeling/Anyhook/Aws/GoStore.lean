import Anyhook.Aws.Deployed

/-! DynamoStateStore of go/aws/state_dynamo.go. It sends the commands of the TypeScript store, but
reads circuits and recorded events without ConsistentRead, and takes a limit that is not positive
for none. Where no read lags, it serves the Go engine as the in-memory store does. -/
namespace Anyhook.Aws.Store
open Anyhook.Core Anyhook.Testing Anyhook.Delivery Anyhook.Lib.Program

/-! ## The methods that differ -/

def goGetCircuit (tenant endpointId : String) : Ddb CircuitRecord := do
  let found ← getRow Attrs.circuit? tenant (circuitSk endpointId) false
  return found.getD (initialCircuit defaultCooldownMs)

def goPutCircuit (tenant endpointId : String) (rec : CircuitRecord) : Ddb Unit := do
  let current ← command (.getItem (tenantPk tenant, circuitSk endpointId) false)
  let expectedVersion := current.bind Row.version
  let row := { pk := tenantPk tenant, sk := circuitSk endpointId, attrs := .circuit rec
               version := some (expectedVersion.getD 0 + 1) }
  let written ← command (.putItem row (.versionIs expectedVersion))
  if written then return ()
  else .throw (conflictError tenant endpointId)

/-- `sorted` is the order sort.Slice leaves the rows in, which does not decide between rows of
one time. -/
def goListDeliveries (sorted : List Message → List Message) (pages : Nat) (q : DeliveryQuery) :
    Ddb (List (Message × List Attempt)) := do
  let items ← queryAll (tenantPk q.tenant) (messageSk "") pages none
  let all ← stripAll Attrs.message? items
  let rows := sorted (all.filter fun m => q.ofEndpoint m && q.passes m)
  attachAttempts pages q.tenant (match q.limit with
    | some limit => if 0 < limit then rows.take ⌊limit⌋.toNat else rows
    | none => rows)

/-- The other methods send what the TypeScript ones send. -/
def goPerform (sorted : List Message → List Message) (pages : Nat) :
    (op : StoreOp) → Ddb (StoreRes op)
  | .recordEvent t eventId idemKey => goRecordEvent t eventId idemKey
  | .getCircuit t id => goGetCircuit t id
  | .putCircuit t id rec => goPutCircuit t id rec
  | .listDeliveries q => goListDeliveries sorted pages q
  | op => perform pages op

/-- A call of the Go store; its queries are read to their last page. -/
def goTableCall (sorted : List Message → List Message) (answers : Nat → TableAnswer) :
    Backing (Table × Nat) :=
  fun op x => (goPerform sorted (x.1.size + 1) op).run (serve answers) x

/-! ## Reads that do not lag -/

section Reads
variable {answers : Nat → TableAnswer} {α β : Type}

theorem serve_getItem (hlag : ∀ n, (answers n).lag = 0) (key : String × String)
    (consistentRead : Bool) (x : Table × Nat) :
    serve answers (.getItem key consistentRead) x = (.ok (x.1.see 0 key), (x.1, x.2 + 1)) := by
  simp only [serve, tableExec, hlag, ite_self]

/-- Where no read lags, a consistent read finds what any other finds. -/
theorem run_getItem (hlag : ∀ n, (answers n).lag = 0) (key : String × String)
    (k : Option Row → Ddb α) (x : Table × Nat) :
    (command (.getItem key false) >>= k).run (serve answers) x =
      (command (.getItem key true) >>= k).run (serve answers) x :=
  (Prog.run_call_ok (serve_getItem hlag key false x)).trans
    (Prog.run_call_ok (serve_getItem hlag key true x)).symm

theorem run_getRow (hlag : ∀ n, (answers n).lag = 0) (pick : Attrs → Option β) (tenant sk : String)
    (k : Option β → Ddb α) (x : Table × Nat) :
    (getRow pick tenant sk false >>= k).run (serve answers) x =
      (getRow pick tenant sk true >>= k).run (serve answers) x := by
  unfold getRow
  rw [bind_assoc, bind_assoc, Prog.perform_bind, Prog.perform_bind,
    Prog.run_call_ok (serve_getItem hlag _ false x), Prog.run_call_ok (serve_getItem hlag _ true x)]
  cases x.1.see 0 (tenantPk tenant, sk) with
  | none => rfl
  | some row => rfl

theorem goRecordEvent_run (hlag : ∀ n, (answers n).lag = 0) (tenant eventId idemKey : String)
    (x : Table × Nat) :
    (goRecordEvent tenant eventId idemKey).run (serve answers) x =
      (recordEvent tenant eventId idemKey).run (serve answers) x := by
  unfold goRecordEvent recordEvent recordEventWith
  dsimp only
  rw [Prog.perform_bind, Prog.perform_bind, Prog.run_call, Prog.run_call]
  cases hput : serve answers _ x with
  | mk out x' =>
    cases out with
    | error e => rfl
    | ok won =>
      cases won with
      | true => rfl
      | false => exact run_getRow hlag _ _ _ _ x'

theorem goTableCall_eq (hlag : ∀ n, (answers n).lag = 0) (sorted : List Message → List Message)
    {op : StoreOp} (hop : Served PlainId op) (x : Table × Nat) :
    goTableCall sorted answers op x = tableCall answers op x := by
  cases op with
  | recordEvent t eventId idemKey => exact goRecordEvent_run hlag t eventId idemKey x
  | getCircuit t id => exact run_getRow hlag _ _ _ _ x
  | putCircuit t id rec => exact run_getItem hlag _ _ x
  | listDeliveries q => exact absurd hop id
  | _ => rfl

/-- The Go store serves the engine as well. -/
theorem go_table_serves (hlag : ∀ n, (answers n).lag = 0)
    (sorted : List Message → List Message) :
    Serves (goTableCall sorted answers) (fun s x => Represents x.1 s) PlainId Small :=
  (table_serves hlag).congr fun hop x => goTableCall_eq hlag sorted hop x

end Reads

/-- **The Go engine over the Go store sends, queues and posts what it does over the in-memory
one.** -/
theorem go_table_runs_as_memory (answers : Nat → TableAnswer) (hlag : ∀ n, (answers n).lag = 0)
    (sorted : List Message → List Message) (en : Engine) (steps : List Step)
    (hsteps : steps.length < 10 ^ 10) :
    let r := Run.start.arrangedRun .go en steps
    let d := newTable.run (goTableCall sorted answers) .go en steps
    (d.sent = r.sent ∧ d.world.queue = r.world.queue ∧ d.world.pending = r.world.pending ∧
      d.world.posts = r.world.posts ∧ Represents d.world.store.1 r.world.store) ∧
    ∀ event env, (Deployed.accept (goTableCall sorted answers) .go en d.world event env).1 =
      (runSeq none (unfailing env) (Go.send en event) r.world).1 :=
  runs_as_memory (go_table_serves hlag sorted) .go en hsteps

/-- The same delivery, by the Go engine over the Go store. -/
theorem oneDelivery_on_goTable :
    (Run.start.arrangedRun .go (plainEngine 5) oneDelivery).world.posts.length = 2 ∧
      (newTable.run (goTableCall id onePerPage) .go (plainEngine 5) oneDelivery).world.posts =
        (Run.start.arrangedRun .go (plainEngine 5) oneDelivery).world.posts := by
  refine ⟨by decide +kernel, ?_⟩
  exact (go_table_runs_as_memory onePerPage (fun _ => rfl) id (plainEngine 5) oneDelivery
    (by decide)).1.2.2.2.1

end Anyhook.Aws.Store
