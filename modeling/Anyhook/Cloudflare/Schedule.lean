import Anyhook.Lib.OrderedMap
import Anyhook.Core.Types
import Mathlib.Order.Defs.LinearOrder
import Mathlib.Data.List.Sort

/-! The retry schedule of packages/cloudflare/src/endpoint-do.ts. One Durable Object
keeps its retries as `sched:` rows of its storage and wakes by one alarm. Storage
operations do not let other calls in; an await of QUEUE.send does. So `scheduleRetry` is
one step, and `processDueSchedules` is cut where it awaits a send. -/
namespace Anyhook.Cloudflare
open Anyhook.Core Anyhook.Lib.OrderedMap

/-! ## Keys -/

/-- How the platform writes a number into a key and reads it back: `Number::toString` and
`Number(text)`. Writing is exact, and no number is written with a colon. -/
structure NumberText (N : Type) where
  text : N → String
  number : String → N
  number_text : ∀ n, number (text n) = n
  text_plain : ∀ n, ':' ∉ (text n).toList

variable {N : Type} (fmt : NumberText N)

def schedKey (atMs : N) (messageId : String) : String :=
  "sched:" ++ fmt.text atMs ++ ":" ++ messageId

/-- `rest.slice(0, rest.indexOf(':'))`; without a colon the index is -1. -/
def parseSchedAt (key : String) : N :=
  let rest := key.toList.drop 6
  fmt.number (String.ofList (if ':' ∈ rest then rest.takeWhile (· ≠ ':') else rest.dropLast))

theorem schedKey_toList (atMs : N) (messageId : String) :
    (schedKey fmt atMs messageId).toList.drop 6 =
      (fmt.text atMs).toList ++ ':' :: messageId.toList := by
  simp [schedKey, String.toList_append]

theorem parseSchedAt_schedKey (atMs : N) (messageId : String) :
    parseSchedAt fmt (schedKey fmt atMs messageId) = atMs := by
  have hplain : ∀ c ∈ (fmt.text atMs).toList, decide (c ≠ ':') = true := by
    intro c hc
    have hne : c ≠ ':' := by
      intro he
      exact fmt.text_plain atMs (he ▸ hc)
    simpa using hne
  have htake : ((fmt.text atMs).toList ++ ':' :: messageId.toList).takeWhile (· ≠ ':') =
      (fmt.text atMs).toList := by
    rw [List.takeWhile_append_of_pos hplain]
    simp
  unfold parseSchedAt
  rw [schedKey_toList]
  simp only [List.mem_append, List.mem_cons, true_or, or_true, if_true, htake]
  rw [String.ofList_toList, fmt.number_text]

theorem schedKey_injective {atMs atMs' : N} {messageId messageId' : String}
    (h : schedKey fmt atMs messageId = schedKey fmt atMs' messageId') :
    atMs = atMs' ∧ messageId = messageId' := by
  have hat : atMs = atMs' := by
    have hparse := congrArg (parseSchedAt fmt) h
    rwa [parseSchedAt_schedKey, parseSchedAt_schedKey] at hparse
  subst hat
  refine ⟨rfl, String.toList_injective ?_⟩
  have hl := congrArg (fun s : String => s.toList.drop 6) h
  simp only [schedKey_toList] at hl
  exact List.cons_injective (List.append_cancel_left hl)

/-- Whole milliseconds are written in decimal. -/
def decimal : NumberText ℕ where
  text n := toString n
  number s := Nat.ofDigitChars 10 s.toList 0
  number_text n := by simp
  text_plain n hc := by
    rw [Nat.toString_eq_ofList_toDigits, String.toList_ofList] at hc
    exact absurd (Nat.isDigit_of_mem_toDigits (by decide) (by decide) hc) (by decide)

/-! ## The object -/

variable [LinearOrder N] {ι : Type}

/-- What `processDueSchedules` makes of the rows it lists. -/
structure Listing (N : Type) where
  due : List (String × Message)
  earliestRemaining : Option N

/-- The body of its first loop. -/
def Listing.add (now : N) (l : Listing N) (entry : String × Message) : Listing N :=
  let atMs := parseSchedAt fmt entry.1
  if atMs ≤ now then { l with due := l.due ++ [entry] }
  else if l.earliestRemaining.all fun e => decide (atMs < e) then
    { l with earliestRemaining := some atMs }
  else l

def listing (now : N) (rows : List (String × Message)) : Listing N :=
  rows.foldl (Listing.add fmt now) { due := [], earliestRemaining := none }

/-- A call of `processDueSchedules` that awaits the send of `key` and `message`; `due` is
what it has left after that. `since` and `startedAt` say when the send started: after so
many entries of the object's log, and at what time. -/
structure Sweep (N : Type) where
  key : String
  message : Message
  due : List (String × Message)
  earliestRemaining : Option N
  since : Nat
  startedAt : N

/-- The rows the call will still send and delete. -/
def Sweep.left (r : Sweep N) : List (String × Message) := (r.key, r.message) :: r.due

inductive Entry (N : Type) where
  | stored (atMs : N) (m : Message)
  | sent (key : String) (m : Message) (since : Nat) (startedAt : N)

/-- `threw` remembers that some QUEUE.send has thrown; `log` what was stored and sent. -/
structure Object (N ι : Type) where
  rows : OMap String Message
  alarm : Option N
  clock : N
  sweeps : ι → Option (Sweep N)
  threw : Bool
  log : List (Entry N)

namespace Object

def scheduleRetry (o : Object N ι) (m : Message) (atMs : N) : Object N ι :=
  { o with
    rows := o.rows.set (schedKey fmt atMs m.messageId) m
    alarm := if o.alarm.all fun a => decide (atMs < a) then some atMs else o.alarm
    log := o.log ++ [.stored atMs m] }

variable [DecidableEq ι]

/-- The call goes on to its next send, or sets the alarm and returns. -/
def next (o : Object N ι) (i : ι) (earliestRemaining : Option N) :
    List (String × Message) → Object N ι
  | [] => { o with
      sweeps := Function.update o.sweeps i none
      alarm := if earliestRemaining.isSome then earliestRemaining else o.alarm }
  | (key, message) :: due => { o with
      sweeps := Function.update o.sweeps i (some {
        key := key, message := message, due := due, earliestRemaining := earliestRemaining
        since := o.log.length, startedAt := o.clock }) }

/-- `storage.list` answers in the order of the keys. -/
def list (o : Object N ι) : List (String × Message) :=
  o.rows.entries.insertionSort fun a b => a.1 ≤ b.1

/-- `processDueSchedules`, up to its first await of a send. -/
def processDueSchedules (o : Object N ι) (i : ι) : Object N ι :=
  let l := listing fmt o.clock o.list
  o.next i l.earliestRemaining l.due

/-- The awaited send resolved: delete the row and go on. -/
def resolved (o : Object N ι) (i : ι) (r : Sweep N) : Object N ι :=
  next { o with
    rows := o.rows.delete r.key
    log := o.log ++ [.sent r.key r.message r.since r.startedAt] } i r.earliestRemaining r.due

end Object

/-- What can happen to the object. A `wake` is the platform's: it clears the alarm. -/
inductive Happening (N ι : Type) where
  | tick (now : N)
  | schedule (m : Message) (atMs : N)
  | process (i : ι)
  | wake (i : ι)
  | resolve (i : ι)
  | throw (i : ι)

variable [DecidableEq ι]

/-- A happening that is not possible in this state changes nothing. -/
def Object.step (o : Object N ι) : Happening N ι → Object N ι
  | .tick now => { o with clock := max o.clock now }
  | .schedule m atMs => o.scheduleRetry fmt m atMs
  | .process i => match o.sweeps i with
    | none => o.processDueSchedules fmt i
    | some _ => o
  | .wake i => match o.sweeps i, o.alarm with
    | none, some a =>
      if a ≤ o.clock then { o with alarm := none }.processDueSchedules fmt i else o
    | _, _ => o
  | .resolve i => match o.sweeps i with
    | some r => o.resolved i r
    | none => o
  | .throw i => match o.sweeps i with
    | some _ => { o with sweeps := Function.update o.sweeps i none, threw := true }
    | none => o

/-- An object without retries. -/
def Object.fresh (clock : N) : Object N ι where
  rows := .empty
  alarm := none
  clock := clock
  sweeps := fun _ => none
  threw := false
  log := []

section Next
omit [LinearOrder N]
variable (o : Object N ι) (i : ι) (earliestRemaining : Option N) (due : List (String × Message))

@[simp] theorem Object.next_rows : (o.next i earliestRemaining due).rows = o.rows := by
  cases due <;> rfl
@[simp] theorem Object.next_log : (o.next i earliestRemaining due).log = o.log := by
  cases due <;> rfl
@[simp] theorem Object.next_clock : (o.next i earliestRemaining due).clock = o.clock := by
  cases due <;> rfl
@[simp] theorem Object.next_threw : (o.next i earliestRemaining due).threw = o.threw := by
  cases due <;> rfl

end Next

/-! ## What a listing finds -/

/-- A listed row is due, or the earliest remaining time is not after it. -/
structure Listing.Covers (now : N) (l : Listing N) (rows : List (String × Message)) : Prop where
  covered : ∀ entry ∈ rows, entry ∈ l.due ∨
    ∃ e, l.earliestRemaining = some e ∧ e ≤ parseSchedAt fmt entry.1
  due : ∀ entry ∈ l.due, entry ∈ rows ∧ parseSchedAt fmt entry.1 ≤ now

variable {fmt}

theorem Listing.Covers.add {now : N} {l : Listing N} {rows : List (String × Message)}
    (h : Listing.Covers fmt now l rows) (entry : String × Message) :
    Listing.Covers fmt now (l.add fmt now entry) (rows ++ [entry]) := by
  unfold Listing.add
  dsimp only
  split
  · rename_i hdue
    refine ⟨fun x hx => ?_, fun x hx => ?_⟩
    · rcases List.mem_append.mp hx with hx | hx
      · exact (h.covered x hx).imp_left (List.mem_append_left _)
      · exact .inl (List.mem_append_right _ hx)
    · rcases List.mem_append.mp hx with hx | hx
      · exact ⟨List.mem_append_left _ (h.due x hx).1, (h.due x hx).2⟩
      · obtain rfl := List.mem_singleton.mp hx
        exact ⟨List.mem_append_right _ hx, hdue⟩
  · have hdue : ∀ x ∈ l.due, x ∈ rows ++ [entry] ∧ parseSchedAt fmt x.1 ≤ now :=
      fun x hx => ⟨List.mem_append_left _ (h.due x hx).1, (h.due x hx).2⟩
    split
    · rename_i hless
      refine ⟨fun x hx => ?_, hdue⟩
      rcases List.mem_append.mp hx with hx | hx
      · refine (h.covered x hx).imp_right fun ⟨e, he, hle⟩ => ⟨_, rfl, ?_⟩
        rw [he] at hless
        exact le_trans (le_of_lt (by simpa using hless)) hle
      · obtain rfl := List.mem_singleton.mp hx
        exact .inr ⟨_, rfl, le_refl _⟩
    · rename_i hless
      refine ⟨fun x hx => ?_, hdue⟩
      rcases List.mem_append.mp hx with hx | hx
      · exact h.covered x hx
      · obtain rfl := List.mem_singleton.mp hx
        cases he : l.earliestRemaining with
        | none => simp [he] at hless
        | some e => exact .inr ⟨e, rfl, by simpa [he] using hless⟩

theorem listing_covers (now : N) (rows : List (String × Message)) :
    Listing.Covers fmt now (listing fmt now rows) rows := by
  have hfold : ∀ (rest done : List (String × Message)) (l : Listing N),
      Listing.Covers fmt now l done →
        Listing.Covers fmt now (rest.foldl (Listing.add fmt now) l) (done ++ rest) := by
    intro rest
    induction rest with
    | nil =>
      intro done l h
      rw [List.append_nil]
      exact h
    | cons entry rest ih =>
      intro done l h
      rw [← List.singleton_append, ← List.append_assoc]
      exact ih _ _ (h.add entry)
  have hnil : Listing.Covers fmt now { due := [], earliestRemaining := none } [] :=
    { covered := by intro x hx; cases hx
      due := by intro x hx; cases hx }
  exact hfold rows [] _ hnil

omit [DecidableEq ι] in
/-- A listing covers every stored row. -/
theorem Object.list_covers (o : Object N ι) {key : String} {m : Message}
    (h : o.rows.get key = some m) :
    (key, m) ∈ (listing fmt o.clock o.list).due ∨
      ∃ e, (listing fmt o.clock o.list).earliestRemaining = some e ∧ e ≤ parseSchedAt fmt key := by
  refine (listing_covers o.clock o.list).covered (key, m) ?_
  exact (List.mem_insertionSort _).mpr (OMap.mem_of_get h)

/-- The first retry of a message. -/
def retry (messageId : String) : Message where
  messageId := messageId
  tenant := "acme"
  endpointId := "ep_1"
  eventId := "evt_1"
  eventType := "order.created"
  payload := "1"
  attemptNo := 1
  status := .retrying
  nextAttemptAt := none
  createdAt := 0

end Anyhook.Cloudflare
