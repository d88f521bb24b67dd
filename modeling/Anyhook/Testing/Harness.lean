import Anyhook.Lib.Agenda
import Anyhook.Testing.Pool

/-! The test harness: `runDeliveries` of packages/testing/src/harness.ts and
go/testing/harness.go, over MemoryTransport.drain, MemoryScheduler and TestClock. A round
hands every queued message to the engine, then sets the clock to the next due time and
releases what is due. -/
namespace Anyhook.Testing
open Anyhook.Core Anyhook.Lib.Program Anyhook.Lib.Agenda

/-- The handler's dialect. Whether a run ends depends on the waits, so Go's are an int64 here. -/
def Lang.handling : Lang → Dialect
  | .ts => Core.dialect
  | .go => Go.int64Dialect

structure Runtime where
  world : World
  clock : Time
  /-- Port calls made so far. -/
  made : Nat

section Harness
variable (lang : Lang) (en : Engine) (env : Nat → Answer)

/-- The clock is the TestClock's; all else about a port call the environment decides. -/
def Runtime.answer (r : Runtime) : Answer := { env r.made with now := r.clock }

def Runtime.exec (m : Message) (op : Op) (r : Runtime) : Except String (Res op) × Runtime :=
  (.ok (Testing.exec (some m) (r.answer env) op r.world).1,
    { r with
      world := (Testing.exec (some m) (r.answer env) op r.world).2
      made := r.made + 1 })

/-- The handler that `start` subscribed. -/
def Runtime.handle (r : Runtime) (m : Message) : Except String Unit × Runtime :=
  (processWith lang.handling en m).run (Runtime.exec env m) r

def Runtime.shifted (r : Runtime) (rest : List Message) : Runtime :=
  { r with world := { r.world with queue := rest } }

/-- MemoryTransport.drain. A handler that throws ends it; `fuel` bounds the loop. -/
def Runtime.drain : Nat → Runtime → Except String Unit × Runtime
  | 0, r => (.error "stopped", r)
  | fuel + 1, r => match r.world.queue with
    | [] => (.ok (), r)
    | m :: rest => match (r.shifted rest).handle lang en env m with
      | (.ok _, r) => r.drain fuel
      | (.error e, r) => (.error e, r)

/-- MemoryScheduler.nextDueAt, TestClock.set and MemoryScheduler.advance. -/
def Runtime.next (r : Runtime) : Runtime :=
  { r with
    world := r.world.advance (setClock r.clock (nextDue r.world.pending))
    clock := setClock r.clock (nextDue r.world.pending) }

/-- The default of 200; Go takes it for everything that is not positive. -/
def roundsOf : Lang → Option Int → Int
  | .ts, maxRounds => maxRounds.getD 200
  | .go, maxRounds => if maxRounds.getD 0 ≤ 0 then 200 else maxRounds.getD 0

def exceeded (maxRounds : Int) : String :=
  (match lang with
    | .ts => "runDeliveries"
    | .go => "RunDeliveries") ++
  " exceeded maxRounds=" ++ toString maxRounds ++ " (schedule not converging)"

/-- The rounds that are left of `maxRounds`. -/
def Runtime.rounds (fuel : Nat) (maxRounds : Int) : Nat → Runtime → Except String Unit × Runtime
  | 0, r => (.error (exceeded lang maxRounds), r)
  | left + 1, r => match r.drain lang en env fuel with
    | (.error e, r) => (.error e, r)
    | (.ok _, r) =>
      if r.world.pending.length = 0 then (.ok (), r) else r.next.rounds fuel maxRounds left

def runDeliveries (fuel : Nat) (maxRounds : Option Int) (r : Runtime) :
    Except String Unit × Runtime :=
  r.rounds lang en env fuel (roundsOf lang maxRounds) (roundsOf lang maxRounds).toNat

end Harness

/-- The runtime as a diary of messages. -/
def Runtime.diary (r : Runtime) : Diary Time Message where
  clock := r.clock
  ready := r.world.queue
  waiting := r.world.pending

theorem Runtime.next_diary (r : Runtime) : r.next.diary = r.diary.jump := rfl

/-! ## Sessions -/

/-- A step of a session. Only the transport takes a message off its queue. -/
inductive Move where
  | send (event : SendEvent)
  | change (c : Change) (kept : c ≠ .dequeue)
  | setClock (now : Time)
  | runDeliveries (fuel : Nat) (maxRounds : Option Int)

section Session
variable (lang : Lang) (en : Engine) (env : Nat → Answer)

/-- A port call of `send`, at the time of the TestClock. -/
def Runtime.sendExec (op : Op) (r : Runtime) : Except String (Res op) × Runtime :=
  (.ok (Testing.exec none (r.answer env) op r.world).1,
    { r with
      world := (Testing.exec none (r.answer env) op r.world).2
      made := r.made + 1 })

def Runtime.send (r : Runtime) (event : SendEvent) : Except String Receipt × Runtime :=
  (lang.send en event).run (Runtime.sendExec env) r

/-- What throws ends with the caller: the runtime is left as it was then. -/
def Runtime.move (r : Runtime) : Move → Runtime
  | .send event => (r.send lang en env event).2
  | .change c _ => { r with world := c.apply r.world }
  | .setClock now => { r with clock := Anyhook.Lib.Agenda.setClock r.clock (some now) }
  | .runDeliveries fuel maxRounds => (Testing.runDeliveries lang en env fuel maxRounds r).2

def Runtime.session (moves : List Move) (r : Runtime) : Runtime :=
  moves.foldl (fun r move => r.move lang en env move) r

/-- The messages a move puts on the queue as new ones. -/
def Runtime.sentBy (r : Runtime) : Move → List Message
  | .send event => (r.send lang en env event).2.world.queue.drop r.world.queue.length
  | _ => []

/-- The messages that the sends of a session put on the queue. -/
def Runtime.sent : List Move → Runtime → List Message
  | [], _ => []
  | move :: moves, r => r.sentBy lang en env move ++ (r.move lang en env move).sent moves

end Session

end Anyhook.Testing
