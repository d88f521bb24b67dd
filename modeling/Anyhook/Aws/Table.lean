import Anyhook.Lib.Program
import Anyhook.Testing.MemoryState

/-! The single table of packages/aws/src/config.ts and the DynamoDB commands
DynamoStateStore sends to it. An item holds its two keys, the attributes of one domain
object and, for a circuit, a version. A GetItem that does not ask for a consistent
read may answer with any earlier content of its key. -/
namespace Anyhook.Aws.Store
open Anyhook.Core Anyhook.Testing Anyhook.Lib.Program Anyhook.Lib.OrderedMap

/-! ## Items -/

/-- The attributes of an item without PK, SK and `_version`, by row family. -/
inductive Attrs where
  | event (rec : EventRecord)
  | endpoint (e : Endpoint)
  | message (m : Message)
  | index (endpointId : String)
  | attempt (a : Attempt)
  | counter (seq : Nat)
  | circuit (rec : CircuitRecord)
  | rate (bucket : RateBucket)
  | dead (row : DlqRow)
  deriving DecidableEq, Repr

structure Row where
  pk : String
  sk : String
  attrs : Attrs
  version : Option Nat
  deriving DecidableEq, Repr

def Row.key (row : Row) : String × String := (row.pk, row.sk)

/-! ## Commands -/

inductive Condition where
  | none
  | skAbsent
  | versionIs (expected : Option Nat)
  deriving DecidableEq, Repr

/-- `attribute_not_exists(SK)`; `#v = :expected`, or `attribute_not_exists(#v)` where no
version is expected. -/
def Condition.holds : Condition → Option Row → Bool
  | .none, _ => true
  | .skAbsent, found => found.isNone
  | .versionIs expected, found => found.bind Row.version = expected

structure Page where
  items : List Row
  lastEvaluatedKey : Option String

inductive TableOp where
  | putItem (row : Row) (condition : Condition)
  | getItem (key : String × String) (consistentRead : Bool)
  | updateItem (key : String × String)
  | deleteItem (key : String × String)
  | query (pk skPrefix : String) (exclusiveStartKey : Option String)

/-- A put answers whether its condition held, an update the new value of its counter. -/
@[reducible] def TableRes : TableOp → Type
  | .putItem .. => Bool
  | .getItem .. => Option Row
  | .updateItem _ => Nat
  | .deleteItem _ => Unit
  | .query .. => Page

abbrev Ddb := Prog TableOp TableRes String

/-- Send one command. -/
abbrev command (op : TableOp) : Ddb (TableRes op) := Prog.perform op

/-! ## The table -/

/-- `past` holds the earlier contents of a key, the latest first. -/
structure Table where
  rows : OMap (String × String) Row
  past : String × String → List (Option Row)

def Table.empty : Table where
  rows := .empty
  past := fun _ => []

/-- What a read that lags `lag` writes behind finds. -/
def Table.see (t : Table) (lag : Nat) (key : String × String) : Option Row :=
  ((t.rows.get key :: t.past key).drop lag).head?.join

/-- Commit new content for a key. -/
def Table.commit (t : Table) (key : String × String) (new : OMap (String × String) Row) :
    Table where
  rows := new
  past := Function.update t.past key (t.rows.get key :: t.past key)

/-- `ADD seq :one`. -/
def bump (found : Option Row) : Nat :=
  match found with
  | some { attrs := .counter seq, .. } => seq + 1
  | _ => 1

/-- The rows of a partition whose SK starts with `skPrefix`, in byte order of SK. UTF-8
bytes and code points order strings alike. -/
def Table.select (t : Table) (pk skPrefix : String) : List Row :=
  let found := t.rows.values.filter fun row =>
    row.pk = pk && skPrefix.toList.isPrefixOf row.sk.toList
  found.insertionSort fun a b => a.sk ≤ b.sk

/-- What the environment decides about one command: how far a read lags, how many items a
page holds beyond the first, and whether the last page pretends that more follow. -/
structure TableAnswer where
  lag : Nat
  size : Nat
  more : Bool

/-- One page of a query, from after the start key. -/
def pageOf (a : TableAnswer) (rows : List Row) (exclusiveStartKey : Option String) : Page :=
  let left := rows.filter fun row => exclusiveStartKey.all fun key => decide (key < row.sk)
  { items := left.take (a.size + 1)
    lastEvaluatedKey :=
      if a.size + 1 < left.length ∨ a.more then (left.take (a.size + 1)).getLast?.map Row.sk
      else none }

def tableExec (a : TableAnswer) : (op : TableOp) → Table → TableRes op × Table
  | .putItem row condition, t =>
    if condition.holds (t.rows.get row.key) then (true, t.commit row.key (t.rows.set row.key row))
    else (false, t)
  | .getItem key consistentRead, t => (t.see (if consistentRead then 0 else a.lag) key, t)
  | .updateItem key, t =>
    let seq := bump (t.rows.get key)
    let row := { pk := key.1, sk := key.2, attrs := .counter seq, version := none }
    (seq, t.commit key (t.rows.set key row))
  | .deleteItem key, t => ((), t.commit key (t.rows.delete key))
  | .query pk skPrefix start, t => (pageOf a (t.select pk skPrefix) start, t)

theorem see_zero (t : Table) (key : String × String) : t.see 0 key = t.rows.get key := by
  simp [Table.see]

end Anyhook.Aws.Store
