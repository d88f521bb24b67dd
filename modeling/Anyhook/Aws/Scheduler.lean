import Anyhook.Testing.Pool

/-! The long-delay retries of the AWS runtime: packages/aws/src/scheduler.ts and
sweeper.ts, and their ports go/aws/scheduler.go and sweeper.go. Every request to
DynamoDB or SQS is one operation, so calls can be interleaved request by request.
The two languages write the same row but for the name of the attribute that holds
the message, `message` or `Message`. -/
namespace Anyhook.Aws
open Anyhook.Core Anyhook.Testing Anyhook.Lib.Program Anyhook.Lib.Interleave

/-! ## Rows -/

def tenantPk (tenant : String) : String := "TENANT#" ++ tenant
def schedSk (messageId : String) : String := "SCHED#" ++ messageId

/-- PK and SK of a message's SCHED row. -/
def schedKey (m : Message) : String × String := (tenantPk m.tenant, schedSk m.messageId)

def sqsMaxDelayMs : Time := 900000
def schedTtlGraceSeconds : Int := 7 * 24 * 60 * 60
def sweeperLeaseSeconds : Int := 300

structure SchedRow where
  key : String × String
  writer : Lang
  message : Message
  dueAt : Int
  ttl : Int
  gsi1sk : Int
  claimedAt : Option Int
  deriving DecidableEq, Repr

/-- A row as it is stored. `write` numbers the write it comes from; no code reads it. -/
structure Item where
  row : SchedRow
  write : Nat
  deriving DecidableEq, Repr

/-- The message attribute, as a reader in one of the languages finds it. -/
def Item.message (item : Item) (reader : Lang) : Option Message :=
  if item.row.writer = reader then some item.row.message else none

structure Page where
  items : List Item
  lastEvaluatedKey : Option String

/-! ## Requests -/

/-- `claimItem` and `deleteItem` name the item they were made for; the request itself
carries its PK and SK only. -/
inductive CloudOp where
  | now
  | query (nowSec : Int) (exclusiveStartKey : Option String)
  | claimItem (item : Item) (nowSec leaseFloorSec : Int)
  | sendMessage (body : Option Message) (delaySeconds : Int)
  | deleteItem (item : Item)
  | putItem (row : SchedRow)

/-- A claim answers whether its condition held. -/
@[reducible] def CloudRes : CloudOp → Type
  | .now => Time
  | .query .. => Page
  | .claimItem .. => Bool
  | .sendMessage .. | .deleteItem _ | .putItem _ => Unit

abbrev Cloud := Prog CloudOp CloudRes String

/-- Send one request. -/
abbrev request (op : CloudOp) : Cloud (CloudRes op) := Prog.perform op

/-! ## The scheduler -/

/-- Epoch seconds: TypeScript rounds down, Go divides toward zero. -/
def seconds : Lang → Time → Int
  | .ts, t => ⌊t / 1000⌋
  | .go, t => Int.tdiv ⌊t⌋ 1000

def schedRow (lang : Lang) (m : Message) (atMs : Time) : SchedRow where
  key := schedKey m
  writer := lang
  message := m
  dueAt := seconds lang atMs
  ttl := seconds lang atMs + schedTtlGraceSeconds
  gsi1sk := seconds lang atMs
  claimedAt := none

/-- Within the SQS cap the retry is a delayed message, beyond it a row. -/
def scheduleRetryWith (lang : Lang) (m : Message) (atMs : Time) : Cloud Unit := do
  let now ← request .now
  let delayMs := atMs - now
  if delayMs ≤ sqsMaxDelayMs then
    request (.sendMessage (some m) (min 900 (max 0 ⌈delayMs / 1000⌉)))
  else
    request (.putItem (schedRow lang m atMs))

def scheduleRetry : Message → Time → Cloud Unit := scheduleRetryWith .ts
def goScheduleRetry : Message → Time → Cloud Unit := scheduleRetryWith .go

/-! ## The sweeper -/

structure SweeperResult where
  due : Nat
  claimed : Nat
  sent : Nat
  deriving DecidableEq, Repr

/-- Claimed recently by a concurrent or earlier run. -/
def leaseHeld (item : Item) (leaseFloorSec : Int) : Bool :=
  item.row.claimedAt.any fun claimedAt => leaseFloorSec ≤ claimedAt

/-- TypeScript sends whatever the attribute holds; without it the body is undefined. -/
def sendClaimed (item : Item) : Cloud Unit := request (.sendMessage (item.message .ts) 0)

/-- Go refuses a row without its attribute. -/
def goSendClaimed (item : Item) : Cloud Unit :=
  match item.message .go with
  | none => .throw ("aws.RunSweeper: SCHED row missing Message attribute for PK=" ++
      item.row.key.1 ++ " SK=" ++ item.row.key.2)
  | some m => request (.sendMessage (some m) 0)

section Sweep
variable (send : Item → Cloud Unit) (nowSec leaseFloorSec : Int)

/-- Claim, send, delete. -/
def sweepItem (item : Item) (result : SweeperResult) : Cloud SweeperResult := do
  if leaseHeld item leaseFloorSec then return result
  else
    let won ← request (.claimItem item nowSec leaseFloorSec)
    if won then
      send item
      request (.deleteItem item)
      return { due := result.due + 1, claimed := result.claimed + 1, sent := result.sent + 1 }
    else return { result with due := result.due + 1 }

def sweepItems : List Item → SweeperResult → Cloud SweeperResult
  | [], result => return result
  | item :: rest, result => do
    let result ← sweepItem send nowSec leaseFloorSec item result
    sweepItems rest result

/-- `pages` bounds how many pages a run reads before its host stops it. -/
def sweepPages : (pages : Nat) → Option String → SweeperResult → Cloud SweeperResult
  | 0, _, _ => .throw "stopped"
  | pages + 1, exclusiveStartKey, result => do
    let page ← request (.query nowSec exclusiveStartKey)
    let result ← sweepItems send nowSec leaseFloorSec page.items result
    match page.lastEvaluatedKey with
    | none => return result
    | some key => sweepPages pages (some key) result

end Sweep

def runSweeperWith (lang : Lang) (send : Item → Cloud Unit) (now : Time) (pages : Nat) :
    Cloud SweeperResult :=
  sweepPages send (seconds lang now) (seconds lang now - sweeperLeaseSeconds) pages none
    { due := 0, claimed := 0, sent := 0 }

def runSweeper : Time → Nat → Cloud SweeperResult := runSweeperWith .ts sendClaimed
def goRunSweeper : Time → Nat → Cloud SweeperResult := runSweeperWith .go goSendClaimed

/-! ## The table and the queue -/

/-- What happened, in order: a SCHED row was written, a message was sent to SQS. -/
inductive Happened where
  | wrote (m : Message) (dueAt : Int)
  | sent (m : Message)
  deriving DecidableEq, Repr

/-- `versions` holds every version of a row there ever was, for the index to answer from. -/
structure Region where
  table : String × String → Option Item
  versions : List Item
  log : List Happened

def Region.empty : Region where
  table := fun _ => none
  versions := []
  log := []

/-- Store a row version under a key. -/
def Region.store (r : Region) (key : String × String) (item : Item) : Region :=
  { r with table := Function.update r.table key (some item), versions := r.versions ++ [item] }

theorem Region.store_self (r : Region) (key : String × String) (item : Item) :
    (r.store key item).table key = some item := by simp [store]

theorem Region.store_other (r : Region) {key key' : String × String} (h : key' ≠ key)
    (item : Item) :
    (r.store key item).table key' = r.table key' := by simp [store, h]

/-- What the environment decides about one request. `page` picks the row versions a query
of the index finds: it need not be up to date. -/
structure CloudAnswer where
  now : Time
  page : List Nat
  lastEvaluatedKey : Option String

/-- `attribute_exists(SK) AND (attribute_not_exists(claimed_at) OR claimed_at < :leaseFloor)`. -/
def claimable (found : Option Item) (leaseFloorSec : Int) : Option Item :=
  found.filter fun item => item.row.claimedAt.all fun claimedAt => claimedAt < leaseFloorSec

/-- The answer and effect of one request. SQS refuses a message without a body. -/
def cloudExec (a : CloudAnswer) : (op : CloudOp) → Region → Except String (CloudRes op) × Region
  | .now, r => (.ok a.now, r)
  | .query nowSec _, r =>
    (.ok { items := (a.page.filterMap (r.versions[·]?)).filter fun item => item.row.gsi1sk ≤ nowSec
           lastEvaluatedKey := a.lastEvaluatedKey }, r)
  | .claimItem item nowSec leaseFloorSec, r =>
    match claimable (r.table item.row.key) leaseFloorSec with
    | none => (.ok false, r)
    | some found =>
      (.ok true,
        r.store item.row.key { found with row := { found.row with claimedAt := some nowSec } })
  | .sendMessage none _, r => (.error "MissingParameter", r)
  | .sendMessage (some m) _, r => (.ok (), { r with log := r.log ++ [.sent m] })
  | .deleteItem item, r => (.ok (), { r with table := Function.update r.table item.row.key none })
  | .putItem row, r =>
    (.ok (), { r.store row.key { row := row, write := r.log.length } with
      log := r.log ++ [.wrote row.message row.dueAt] })

/-- The same with a request that may fail, before or after it took effect. -/
def cloudFault (a : CloudAnswer) (f : Fault) (op : CloudOp) (r : Region) :
    Except String (CloudRes op) × Region :=
  match f with
  | .none => cloudExec a op r
  | .before => (.error "request failure", r)
  | .after => (.error "request failure", (cloudExec a op r).2)

end Anyhook.Aws
