import Anyhook.Lib.Interleave
import Anyhook.Lib.Tickets
import Anyhook.Aws.Rotation
import Anyhook.Aws.SameStore
import Mathlib.Data.Set.List

/-! The logs of the table: the attempts of a message and the dead letters of a tenant. An
append takes a number from a counter row (`ADD seq :one`) and then puts its row under that
number; the two commands are not one transaction. Any calls of DynamoStateStore run at the
same time here, a command may fail before or after it reached the table, and still a log
lists every append that returned, each once, in an order that agrees with the order in
which appends followed one another. -/
namespace Anyhook.Aws.Store
open Anyhook.Core Anyhook.Testing Anyhook.Lib.Program Anyhook.Lib.Interleave
open Anyhook.Lib.OrderedMap Anyhook.Lib.Tickets

/-! ## Logs -/

inductive Log where
  | attempts (tenant messageId : String)
  | dead (tenant : String)
  deriving DecidableEq

namespace Log

def tenant : Log → String
  | .attempts tenant _ => tenant
  | .dead tenant => tenant

def counter : Log → RowId
  | .attempts _ messageId => .attemptCounter messageId
  | .dead _ => .deadCounter

def row : Log → Nat → RowId
  | .attempts _ messageId, seq => .attempt messageId seq
  | .dead _, seq => .dead seq

def skPrefix : Log → String
  | .attempts _ messageId => attemptSkPrefix messageId
  | .dead _ => "DLQ#"

/-- The message id can stand in a key. -/
def Plain : Log → Prop
  | .attempts _ messageId => '#' ∉ messageId.toList
  | .dead _ => True

def counterKey (l : Log) : String × String := (tenantPk l.tenant, l.counter.sk)

/-- What the log's listing returns. -/
def read (pages : Nat) : Log → Ddb (List Attrs)
  | .attempts tenant messageId => do
    let log ← listAttempts pages tenant messageId
    return log.map .attempt
  | .dead tenant => do
    let log ← listDlq pages tenant none
    return log.map .dead

theorem counter_plain (l : Log) : l.counter.Plain := by
  cases l <;> exact trivial

theorem row_plain {l : Log} (h : l.Plain) (seq : Nat) : (l.row seq).Plain := by
  cases l with
  | attempts tenant messageId => exact h
  | dead tenant => exact trivial

theorem counter_ne_row (l l' : Log) (seq : Nat) : l.counter ≠ l'.row seq := by
  cases l <;> cases l' <;> simp [counter, row]

/-- A log has its counter and its rows to itself. -/
theorem eq_of_counter {l l' : Log} (ht : l.tenant = l'.tenant) (h : l.counter = l'.counter) :
    l = l' := by
  cases l <;> cases l' <;> simp_all [counter, tenant]

theorem eq_of_row {l l' : Log} {seq seq' : Nat} (ht : l.tenant = l'.tenant)
    (h : l.row seq = l'.row seq') : l = l' ∧ seq = seq' := by
  cases l <;> cases l' <;> simp_all [row, tenant]

end Log

/-- The log a method appends to, and the entry it appends. -/
def logEntry : StoreOp → Option (Log × Attrs)
  | .appendAttempt a => some (.attempts a.tenant a.messageId, .attempt a)
  | .addToDlq m reason => some (.dead m.tenant, .dead { message := m, reason := reason })
  | _ => none

/-! ## The system -/

/-- A row that belongs to no log. -/
def RowId.OffLogs : RowId → Prop
  | .attempt .. | .attemptCounter _ | .dead _ | .deadCounter => False
  | _ => True

/-- A command that leaves the logs alone. -/
def OffLogs : TableOp → Prop
  | .putItem row _ => ∃ tenant, ∃ r : RowId, r.OffLogs ∧ row.key = (tenantPk tenant, r.sk)
  | .deleteItem key => ∃ tenant, ∃ r : RowId, r.OffLogs ∧ key = (tenantPk tenant, r.sk)
  | .updateItem _ => False
  | .getItem .. | .query .. => True

def logRow (l : Log) (a : Attrs) (seq : Nat) : Row where
  pk := tenantPk l.tenant
  sk := (l.row seq).sk
  attrs := a
  version := none

/-- A call is watched for the entry it appends. -/
abbrev LogView := Stage Log Attrs

def logMonitor : Monitor TableOp TableRes LogView where
  allows
    | .idle, op => OffLogs op
    | .begun l _, op => op = .updateItem l.counterKey
    | .numbered l a seq, op => op = .putItem (logRow l a seq) .none
    | .written .., _ => False
  next
    | .begun l a, .updateItem _, seq => .numbered l a seq
    | .numbered l a seq, _, _ => .written l a seq
    | g, _, _ => g

/-- A call that returns has written its entry, if it had one. -/
def logDone : LogView → Unit → Prop
  | .idle, _ | .written .., _ => True
  | .begun .., _ | .numbered .., _ => False

/-- One command, which may fail before or after it reached the table. -/
def tableFault (inp : TableAnswer × Fault) (op : TableOp) (t : Table) :
    Except String (TableRes op) × Table :=
  match inp.2 with
  | .none => (.ok (tableExec inp.1 op t).1, (tableExec inp.1 op t).2)
  | .before => (.error "dynamodb failure", t)
  | .after => (.error "dynamodb failure", (tableExec inp.1 op t).2)

abbrev LogConf (ι : Type) := Conf TableOp TableRes String Unit Table ι LogView

def logPool (ι : Type) : System TableOp TableRes String Table (TableAnswer × Fault) ι LogView where
  exec _ := tableFault
  monitor := logMonitor

/-- A call of any method, its result dropped. -/
def storeCall (pages : Nat) (op : StoreOp) : Ddb Unit := do
  let _ ← perform pages op
  return ()

variable {ι : Type} (pages : Nat) (jobs : ι → StoreOp)

def firstView (op : StoreOp) : LogView :=
  match logEntry op with
  | some (l, a) => .begun l a
  | none => .idle

/-- Every call at its first command, over an empty table. -/
def logStart : LogConf ι where
  shared := .empty
  rest i := storeCall pages (jobs i)
  view i := firstView (jobs i)

/-- In the run, the first call had returned before the second sent a command. -/
def Precedes [DecidableEq ι] (es : List (ι × (TableAnswer × Fault))) (i j : ι) : Prop :=
  ∃ es₁ es₂, es = es₁ ++ es₂ ∧ ((logPool ι).run (logStart pages jobs) es₁).rest i = .pure () ∧
    ∀ e ∈ es₁, e.1 ≠ j

/-! ## The methods leave the logs alone, or append one entry -/

section Methods
variable {α : Type} {tenant : String}

end Methods

/-! ## What a command does to the logs -/

/-- The logs among the rows of the table. -/
def bookOf (C : Contents) : Book Log Attrs where
  count l := match C l.tenant l.counter with
    | some (.counter seq) => seq
    | _ => 0
  rows l seq := C l.tenant (l.row seq)

section Book
variable {C : Contents} {l : Log}

theorem bookOf_off (tenant : String) {r : RowId} (hr : r.OffLogs) (a : Option Attrs) :
    bookOf (C.set tenant r a) = bookOf C := by
  have hcounter : ∀ l : Log, l.counter ≠ r := by
    rintro l rfl
    cases l <;> exact hr
  have hrow : ∀ (l : Log) seq, l.row seq ≠ r := by
    rintro l seq rfl
    cases l <;> exact hr
  ext <;> simp [bookOf, Contents.set, hcounter, hrow]

theorem bookOf_take :
    bookOf (C.set l.tenant l.counter (some (.counter ((bookOf C).count l + 1)))) =
      (bookOf C).take l := by
  ext l' x
  · rw [Book.take_count]
    split
    · rename_i hl
      rw [hl]
      simp [bookOf, Contents.set]
    · rename_i hl
      have hne : ¬ (l'.tenant = l.tenant ∧ l'.counter = l.counter) := by
        rintro ⟨ht, hc⟩
        exact hl (Log.eq_of_counter ht hc)
      simp only [bookOf, Contents.set, if_neg hne]
  · have hne : ∀ l' : Log, ¬ (l'.tenant = l.tenant ∧ l'.row x = l.counter) := by
      rintro l' ⟨-, hr⟩
      exact Log.counter_ne_row l l' x hr.symm
    simp only [bookOf, Contents.set, if_neg (hne _), Book.take]

theorem bookOf_put (seq : Nat) (a : Attrs) :
    bookOf (C.set l.tenant (l.row seq) (some a)) = (bookOf C).put l seq a := by
  ext l' x
  · have hne : ¬ (l'.tenant = l.tenant ∧ l'.counter = l.row seq) := by
      rintro ⟨-, hr⟩
      exact Log.counter_ne_row l' l seq hr
    simp only [bookOf, Contents.set, if_neg hne, Book.put]
  · rw [Book.put_rows]
    have hiff : (l'.tenant = l.tenant ∧ l'.row x = l.row seq) ↔ (l' = l ∧ x = seq) := by
      constructor
      · rintro ⟨ht, hr⟩
        exact Log.eq_of_row ht hr
      · rintro ⟨rfl, rfl⟩
        exact ⟨rfl, rfl⟩
    simp only [bookOf, Contents.set, hiff]

/-- An increment answers the number after the last. -/
theorem bump_eq {t : Table} (h : Holds t C) (l : Log) :
    bump (t.rows.get l.counterKey) = (bookOf C).count l + 1 := by
  have hfound := h.found l.tenant l.counter l.counter_plain
  simp only [bookOf]
  rw [← hfound, Log.counterKey]
  cases t.rows.get (tenantPk l.tenant, l.counter.sk) with
  | none => rfl
  | some row =>
    obtain ⟨pk, sk, attrs, version⟩ := row
    cases attrs <;> rfl

/-- A command that reaches the table is a step of its call in the book, whether or not its
answer comes back. -/
theorem command_steps {t : Table} (h : Holds t C) {g : LogView} {op : TableOp}
    (hplain : ∀ l a, g.entry = some (l, a) → l.Plain) (hallow : logMonitor.allows g op)
    (ans : TableAnswer) :
    ∃ C', Holds (tableExec ans op t).2 C' ∧ (bookOf C).Step g (bookOf C') g ∧
      (bookOf C).Step g (bookOf C') (logMonitor.next g op (tableExec ans op t).1) := by
  cases g with
  | idle =>
    have hkeep : ∀ C', bookOf C' = bookOf C → (bookOf C).Step .idle (bookOf C') .idle := by
      intro C' hC
      rw [hC]
      exact .rest _
    cases op with
    | putItem row condition =>
      obtain ⟨tenant, r, hr, hkey⟩ := hallow
      have hrp : r.Plain := by cases r <;> first | exact trivial | exact absurd hr id
      simp only [tableExec]
      split
      · obtain ⟨pk, sk, attrs, version⟩ := row
        obtain ⟨rfl, rfl⟩ := Prod.mk.inj hkey
        have hbook := hkeep _ (bookOf_off tenant hr (some attrs))
        exact ⟨_, h.put hrp attrs version, hbook, hbook⟩
      · exact ⟨C, h, hkeep C rfl, hkeep C rfl⟩
    | getItem key consistentRead => exact ⟨C, h, hkeep C rfl, hkeep C rfl⟩
    | updateItem key => exact absurd hallow id
    | deleteItem key =>
      obtain ⟨tenant, r, hr, rfl⟩ := hallow
      have hrp : r.Plain := by cases r <;> first | exact trivial | exact absurd hr id
      have hbook := hkeep _ (bookOf_off tenant hr none)
      exact ⟨_, h.delete hrp, hbook, hbook⟩
    | query pk skPrefix start => exact ⟨C, h, hkeep C rfl, hkeep C rfl⟩
  | begun l a =>
    obtain rfl : op = .updateItem l.counterKey := hallow
    refine ⟨_, h.put l.counter_plain (.counter (bump (t.rows.get l.counterKey))) none, ?_, ?_⟩
    · rw [bump_eq h, bookOf_take]
      exact .take l a _ (.inl rfl)
    · simp only [tableExec, logMonitor]
      rw [bump_eq h, bookOf_take]
      exact .take l a _ (.inr rfl)
  | numbered l a seq =>
    obtain rfl : op = .putItem (logRow l a seq) .none := hallow
    refine ⟨_, h.put (Log.row_plain (hplain l a rfl) seq) a none, ?_, ?_⟩
    · rw [bookOf_put]
      exact .put l a seq _ (.inl rfl)
    · rw [bookOf_put]
      exact .put l a seq _ (.inr rfl)
  | written l a seq => exact absurd hallow id

end Book

theorem tableFault_ok {inp : TableAnswer × Fault} {op : TableOp} {t t' : Table} {r : TableRes op}
    (h : tableFault inp op t = (.ok r, t')) : tableExec inp.1 op t = (r, t') := by
  unfold tableFault at h
  split at h
  · obtain ⟨hr, ht⟩ := Prod.mk.inj h
    exact Prod.ext (Except.ok.inj hr) ht
  · cases h
  · cases h

theorem tableFault_error {inp : TableAnswer × Fault} {op : TableOp} {t t' : Table} {x : String}
    (h : tableFault inp op t = (.error x, t')) : t' = t ∨ t' = (tableExec inp.1 op t).2 := by
  unfold tableFault at h
  split at h
  · cases h
  · exact .inl (Prod.mk.inj h).2.symm
  · exact .inr (Prod.mk.inj h).2.symm

/-! ## Runs -/

/-- The ids that the appended attempts bring into keys. -/
def PlainLogs : Prop := ∀ i l a, logEntry (jobs i) = some (l, a) → l.Plain

structure Logged (C : Contents) (c : LogConf ι) : Prop where
  holds : Holds c.shared C
  obeyed : (logPool ι).Obeyed logDone c
  entries : ∀ i, (c.view i).entry = logEntry (jobs i)
  kept : Kept (bookOf C) c.view

/-- A later state of a run, and how far the counters can have gone since. -/
structure Onward (C : Contents) (c : LogConf ι) (C' : Contents) (c' : LogConf ι) (n : Nat) :
    Prop where
  advances : Advances (bookOf C) c.view (bookOf C') c'.view
  bounded : ∀ l, (bookOf C').count l ≤ (bookOf C).count l + n

variable {pages jobs} {C : Contents} {c : LogConf ι}

theorem Onward.refl (C : Contents) (c : LogConf ι) : Onward C c C c 0 where
  advances := .refl _ _
  bounded _ := le_rfl

theorem Onward.trans {C' C'' : Contents} {c' c'' : LogConf ι} {m n : Nat}
    (h : Onward C c C' c' m) (h' : Onward C' c' C'' c'' n) : Onward C c C'' c'' (m + n) where
  advances := h.advances.trans h'.advances
  bounded l := by
    have h₁ := h.bounded l
    have h₂ := h'.bounded l
    omega

/-- What a stage keeps, the next stage of the same call keeps. -/
theorem step_entry {b b' : Book Log Attrs} {g g' : LogView} (h : b.Step g b' g') :
    g'.entry = g.entry := by
  cases h with
  | rest => rfl
  | take l a g hg => obtain rfl | rfl := hg <;> rfl
  | put l a seq g hg => obtain rfl | rfl := hg <;> rfl

variable [DecidableEq ι]

/-- A command of one call that reached the table. -/
theorem Logged.command (h : Logged jobs C c) {C' : Contents} {c' : LogConf ι} {i : ι}
    {g : LogView} (hholds : Holds c'.shared C') (hobeyed : (logPool ι).Obeyed logDone c')
    (hview : c'.view = Function.update c.view i g)
    (hstep : (bookOf C).Step (c.view i) (bookOf C') g) :
    Logged jobs C' c' ∧ Onward C c C' c' 1 := by
  obtain ⟨hkept, hadv, hcount⟩ := h.kept.step hstep
  rw [← hview] at hkept hadv
  refine ⟨⟨hholds, hobeyed, ?_, hkept⟩, ⟨hadv, hcount⟩⟩
  intro j
  rw [hview]
  by_cases hj : j = i
  · subst hj
    rw [Function.update_self, step_entry hstep]
    exact h.entries j
  · rw [Function.update_of_ne hj]
    exact h.entries j

theorem Logged.step (hplain : PlainLogs jobs) (h : Logged jobs C c)
    (e : ι × (TableAnswer × Fault)) :
    ∃ C', Logged jobs C' ((logPool ι).step c e) ∧ Onward C c C' ((logPool ι).step c e) 1 := by
  obtain ⟨i, inp⟩ := e
  have hobeyed := h.obeyed.step (e := (i, inp))
  have hview : ∀ l a, (c.view i).entry = some (l, a) → l.Plain := by
    intro l a hentry
    rw [h.entries] at hentry
    exact hplain i l a hentry
  have hstill : (bookOf C).Step (c.view i) (bookOf C) (c.view i) := .rest _
  obtain ⟨hs, -⟩ | ⟨op, k, hc, ⟨r, t, hx, hs⟩ | ⟨x, t, hx, hs⟩⟩ := (logPool ι).step_cases c i inp
  · rw [hs] at hobeyed ⊢
    exact ⟨C, h.command h.holds hobeyed (Function.update_eq_self i c.view).symm hstill⟩
  · obtain ⟨C', hholds, -, hstep⟩ := command_steps h.holds hview (h.obeyed.allows hc) inp.1
    rw [tableFault_ok hx] at hholds hstep
    rw [hs] at hobeyed ⊢
    exact ⟨C', h.command hholds hobeyed rfl hstep⟩
  · -- The call has failed; its command may have reached the table.
    rw [hs] at hobeyed ⊢
    obtain rfl | rfl := tableFault_error hx
    · exact ⟨C, h.command h.holds hobeyed (Function.update_eq_self i c.view).symm hstill⟩
    · obtain ⟨C', hholds, hstep, -⟩ := command_steps h.holds hview (h.obeyed.allows hc) inp.1
      exact ⟨C', h.command hholds hobeyed (Function.update_eq_self i c.view).symm hstep⟩

theorem Logged.run (hplain : PlainLogs jobs) (h : Logged jobs C c)
    (es : List (ι × (TableAnswer × Fault))) :
    ∃ C', Logged jobs C' ((logPool ι).run c es) ∧
      Onward C c C' ((logPool ι).run c es) es.length := by
  induction es generalizing C c with
  | nil => exact ⟨C, h, .refl C c⟩
  | cons e es ih =>
    obtain ⟨C₁, h₁, on₁⟩ := h.step hplain e
    obtain ⟨C₂, h₂, on₂⟩ := ih h₁
    refine ⟨C₂, h₂, ?_⟩
    rw [List.length_cons, Nat.add_comm]
    exact on₁.trans on₂

omit [DecidableEq ι] in
/-- A call that has returned has written its entry. -/
theorem Logged.written (h : Logged jobs C c) {i : ι} {l : Log} {a : Attrs}
    (hentry : logEntry (jobs i) = some (l, a)) (hret : c.rest i = .pure ()) :
    ∃ seq, c.view i = .written l a seq := by
  have hobeys := h.obeyed i
  rw [hret] at hobeys
  have hview := h.entries i
  rw [hentry] at hview
  cases hv : c.view i with
  | idle =>
    rw [hv] at hview
    cases hview
  | begun l' a' =>
    rw [hv] at hobeys
    exact absurd hobeys id
  | numbered l' a' seq =>
    rw [hv] at hobeys
    exact absurd hobeys id
  | written l' a' seq =>
    rw [hv] at hview
    obtain ⟨rfl, rfl⟩ := Prod.mk.inj (Option.some.inj hview)
    exact ⟨seq, rfl⟩

/-! ## Listings -/

/-- A log's calls in the order of its listing: every call that has returned is among them, and
the listing shows their entries. -/
structure Shows (pages : Nat) (jobs : ι → StoreOp) (es : List (ι × (TableAnswer × Fault)))
    (l : Log) (ws : List ι) : Prop where
  once : ws.Nodup
  returned : ∀ i a, logEntry (jobs i) = some (l, a) →
    ((logPool ι).run (logStart pages jobs) es).rest i = .pure () → i ∈ ws
  listed : ∀ (answers : Nat → TableAnswer) (n pages' : Nat),
    ((logPool ι).run (logStart pages jobs) es).shared.size < pages' →
    Prog.Ends (serve answers) (l.read pages')
      (fun out _ => List.Forall₂ (fun i a => logEntry (jobs i) = some (l, a)) ws out)
      (((logPool ι).run (logStart pages jobs) es).shared, n)
  ordered : es.length < 10 ^ 10 → ws.Pairwise fun i j => ¬ Precedes pages jobs es j i

end Anyhook.Aws.Store
