import Anyhook.Lib.Interleave
import Anyhook.Core.Engine
import Anyhook.Testing.World

/-! The circuit methods of packages/aws/src/state-dynamo.ts. A circuit is one item of
the table, with a `_version` next to the record; `putCircuit` reads the version and
writes on the condition that it is still the same. Both are programs over single
DynamoDB commands. The engine's other ports are not opened up here: they answer as
the environment says. -/
namespace Anyhook.Aws
open Anyhook.Core Anyhook.Testing Anyhook.Lib.Program Anyhook.Lib.Interleave

structure CircuitItem where
  record : CircuitRecord
  version : Nat
  deriving DecidableEq, Repr

/-- `putItem` writes on the condition that the stored version is `expected`, or that
there is none. -/
inductive DynamoOp where
  | getItem (tenant endpointId : String)
  | putItem (tenant endpointId : String) (item : CircuitItem) (expected : Option Nat)
  | other (op : Op)

@[reducible] def DynamoRes : DynamoOp → Type
  | .getItem .. => Option CircuitItem
  | .putItem .. => Unit
  | .other op => Res op

abbrev Dynamo := Prog DynamoOp DynamoRes String

/-- Send one command. -/
abbrev ddb (op : DynamoOp) : Dynamo (DynamoRes op) := Prog.perform op

def getCircuit (tenant endpointId : String) : Dynamo CircuitRecord := do
  let item ← ddb (.getItem tenant endpointId)
  return (item.map CircuitItem.record).getD (initialCircuit defaultCooldownMs)

def putCircuit (tenant endpointId : String) (rec : CircuitRecord) : Dynamo Unit := do
  let current ← ddb (.getItem tenant endpointId)
  let expectedVersion := current.map CircuitItem.version
  ddb (.putItem tenant endpointId
    { record := rec, version := expectedVersion.getD 0 + 1 } expectedVersion)

/-- The engine's ports over the table. -/
def ports : (op : Op) → Dynamo (Res op)
  | .getCircuit t e => getCircuit t e
  | .putCircuit t e rec => putCircuit t e rec
  | op => ddb (.other op)

def processMessage (en : Engine) (m : Message) : Dynamo Unit :=
  (Core.processMessage en m).interp ports

/-! ## The table -/

abbrev CircuitTable := String × String → Option CircuitItem

/-- What the environment decides about one command. -/
structure DynamoInput where
  answer : (op : Op) → Res op
  fault : Fault

/-- The write goes through: the command reached the table and its condition held. -/
def commits (table : CircuitTable) (fault : Fault) (target : String × String)
    (expected : Option Nat) : Bool :=
  fault != .before && (table target).map CircuitItem.version == expected

def conflictError (tenant endpointId : String) : String :=
  "circuit write conflict for tenant=" ++ tenant ++ " endpointId=" ++ endpointId

/-- One command. A failed condition is a conflict; a command may also fail before it
reached the table, or after. -/
def command (inp : DynamoInput) : (op : DynamoOp) → CircuitTable →
    Except String (DynamoRes op) × CircuitTable
  | .getItem t e, table =>
    (if inp.fault = .none then .ok (table (t, e)) else .error "dynamodb failure", table)
  | .putItem t e item expected, table =>
    if commits table inp.fault (t, e) expected then
      (if inp.fault = .none then .ok () else .error "dynamodb failure",
        Function.update table (t, e) (some item))
    else
      (if inp.fault = .before then .error "dynamodb failure" else .error (conflictError t e), table)
  | .other op, table =>
    (if inp.fault = .none then .ok (inp.answer op) else .error "port failure", table)

end Anyhook.Aws
