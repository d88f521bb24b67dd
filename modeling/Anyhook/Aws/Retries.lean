import Anyhook.Aws.Scheduler

/-! Retries under concurrent sweepers and workers. Any number of sweeps and of
`scheduleRetry` calls, of either language, are interleaved request by request; the
index may answer from the past, a request may fail and a call may stop anywhere. A
scheduled retry survives as long as each delete meets the row its sweeper read. The
delete is unconditional, so the code does not see to that. -/
namespace Anyhook.Aws
open Anyhook.Core Anyhook.Testing Anyhook.Lib.Program Anyhook.Lib.Interleave

/-! ## The system -/

inductive CloudJob where
  | sweep (lang : Lang) (now : Time) (pages : Nat)
  | schedule (lang : Lang) (m : Message) (atMs : Time)

def CloudJob.program : CloudJob → Cloud Unit
  | .sweep .ts now pages => do
    let _ ← runSweeper now pages
    return ()
  | .sweep .go now pages => do
    let _ ← goRunSweeper now pages
    return ()
  | .schedule .ts m atMs => scheduleRetry m atMs
  | .schedule .go m atMs => goScheduleRetry m atMs

/-- What a call has read, claimed and sent. -/
structure Sweeping where
  page : List Item
  claimed : Option Item
  sent : Option Item

/-- A sweep claims what it read, sends what it claimed and deletes what it sent. A row is
written under the key of its message. -/
def sweepMonitor : Monitor CloudOp CloudRes Sweeping where
  allows g
    | .claimItem item _ _ => item ∈ g.page
    | .sendMessage body _ => ∀ item m, g.claimed = some item → body = some m → m = item.row.message
    | .deleteItem item => g.sent = some item
    | .putItem row => row.key = schedKey row.message
    | _ => True
  next g
    | .query .., page => { page := page.items, claimed := none, sent := none }
    | .claimItem item _ _, won =>
      { g with claimed := if won then some item else none, sent := none }
    | .sendMessage .., _ => { g with claimed := none, sent := g.claimed }
    | _, _ => g

def nothingRead : Sweeping where
  page := []
  claimed := none
  sent := none

variable {ι : Type}

abbrev CloudConf (ι : Type) := Conf CloudOp CloudRes String Unit Region ι Sweeping

def cloudPool (ι : Type) :
    System CloudOp CloudRes String Region (CloudAnswer × Fault) ι Sweeping where
  exec _ inp op r := cloudFault inp.1 inp.2 op r
  monitor := sweepMonitor

/-- Every call at its first request, over an empty table. -/
def cloudStart (jobs : ι → CloudJob) : CloudConf ι where
  shared := .empty
  rest i := (jobs i).program
  view _ := nothingRead

/-! ## The law -/

/-- Some later entry of the log satisfies `P`. -/
def Since (log : List Happened) (i : Nat) (P : Happened → Prop) : Prop :=
  ∃ j h, i < j ∧ log[j]? = some h ∧ P h

/-- The retry `m`, due at `dueAt` and written as entry `i` of the log: it is still in the
table, or was sent since, or replaced since. -/
def RetryKept (r : Region) (i : Nat) (m : Message) (dueAt : Int) : Prop :=
  (∃ item, r.table (schedKey m) = some item ∧ item.row.message = m ∧ item.row.dueAt = dueAt) ∨
    Since r.log i (fun h => h = .sent m) ∨
    Since r.log i (fun h => ∃ m' due', h = .wrote m' due' ∧ schedKey m' = schedKey m)

def NoneLost (r : Region) : Prop :=
  ∀ i m dueAt, r.log[i]? = some (.wrote m dueAt) → RetryKept r i m dueAt

/-- The step is a delete that takes effect, on a row of another write than its sweeper read. -/
def deletesAnother (c : CloudConf ι) (e : ι × (CloudAnswer × Fault)) : Bool :=
  match (c.rest e.1).head with
  | some (.deleteItem item) =>
    e.2.2 ≠ .before && (c.shared.table item.row.key).any fun live => live.write ≠ item.write
  | _ => false

def DeletesWhatItRead (c : CloudConf ι) (e : ι × (CloudAnswer × Fault)) : Prop :=
  deletesAnother c e = false

/-! ## The programs obey -/

/-- What sending a claimed item must leave for the delete after it. -/
def SendsClaimed (send : Item → Cloud Unit) : Prop :=
  ∀ item g, g.claimed = some item →
    Obeys sweepMonitor (fun g' _ => g'.page = g.page ∧ g'.sent = some item) g (send item)

theorem Item.message_eq {item : Item} {reader : Lang} {m : Message}
    (h : item.message reader = some m) : m = item.row.message := by
  unfold Item.message at h
  split at h
  · exact (Option.some.inj h).symm
  · cases h

theorem sendClaimed_obeys : SendsClaimed sendClaimed := by
  intro item g hg
  refine (obeys_perform _ _ _).mpr ⟨?_, fun _ => ⟨rfl, hg⟩⟩
  intro item' m hc hm
  rw [hg] at hc
  cases hc
  exact Item.message_eq hm

theorem goSendClaimed_obeys : SendsClaimed goSendClaimed := by
  intro item g hg
  unfold goSendClaimed
  cases hm : item.message .go with
  | none => trivial
  | some m =>
    refine (obeys_perform _ _ _).mpr ⟨?_, fun _ => ⟨rfl, hg⟩⟩
    intro item' m' hc hm'
    rw [hg] at hc
    cases hc
    cases hm'
    exact Item.message_eq hm

section Obeys
variable {send : Item → Cloud Unit} (hsend : SendsClaimed send) (nowSec leaseFloorSec : Int)
include hsend

theorem sweepItem_obeys (item : Item) (result : SweeperResult) {g : Sweeping} (hg : item ∈ g.page) :
    Obeys sweepMonitor (fun g' _ => g'.page = g.page) g
      (sweepItem send nowSec leaseFloorSec item result) := by
  unfold sweepItem
  split
  · rfl
  · refine obeys_perform_bind.mpr ⟨hg, fun won => ?_⟩
    cases won with
    | false => rfl
    | true =>
      rw [if_pos rfl, obeys_bind]
      refine (hsend item _ rfl).mono ?_
      intro g' _ h
      exact obeys_perform_bind.mpr ⟨h.2, fun _ => h.1⟩

theorem sweepItems_obeys (items : List Item) (result : SweeperResult) {g : Sweeping}
    (hg : ∀ item ∈ items, item ∈ g.page) :
    Obeys sweepMonitor (fun g' _ => g'.page = g.page) g
      (sweepItems send nowSec leaseFloorSec items result) := by
  induction items generalizing result g with
  | nil => rfl
  | cons item rest ih =>
    rw [sweepItems, obeys_bind]
    refine (sweepItem_obeys hsend _ _ item result (hg item List.mem_cons_self)).mono ?_
    intro g' result' hpage
    rw [← hpage]
    refine ih result' fun x hx => ?_
    rw [hpage]
    exact hg x (List.mem_cons_of_mem _ hx)

theorem sweepPages_obeys (pages : Nat) (key : Option String) (result : SweeperResult)
    (g : Sweeping) :
    Obeys sweepMonitor (fun _ _ => True) g
      (sweepPages send nowSec leaseFloorSec pages key result) := by
  induction pages generalizing key result g with
  | zero => trivial
  | succ pages ih =>
    refine obeys_perform_bind.mpr ⟨trivial, fun page => ?_⟩
    rw [obeys_bind]
    refine (sweepItems_obeys hsend _ _ page.items result fun item hi => hi).mono ?_
    intro g' result' _
    cases page.lastEvaluatedKey with
    | none => trivial
    | some key => exact ih (some key) result' g'

end Obeys

theorem scheduleRetryWith_obeys (lang : Lang) (m : Message) (atMs : Time) :
    Obeys sweepMonitor (fun _ _ => True) nothingRead (scheduleRetryWith lang m atMs) := by
  refine obeys_perform_bind.mpr ⟨trivial, fun now => ?_⟩
  dsimp only
  split
  · refine (obeys_perform _ _ _).mpr ⟨?_, fun _ => trivial⟩
    intro item m' hc
    cases hc
  · exact (obeys_perform _ _ _).mpr ⟨rfl, fun _ => trivial⟩

theorem cloudStart_obeyed (jobs : ι → CloudJob) :
    (cloudPool ι).Obeyed (fun _ _ => True) (cloudStart jobs) := by
  intro i
  show Obeys sweepMonitor _ nothingRead (jobs i).program
  cases jobs i with
  | schedule lang m atMs => cases lang <;> exact scheduleRetryWith_obeys _ m atMs
  | sweep lang now pages =>
    cases lang with
    | ts =>
      refine (obeys_bind _ _ _).mpr ?_
      exact (sweepPages_obeys sendClaimed_obeys _ _ pages none _ _).mono fun _ _ _ => trivial
    | go =>
      refine (obeys_bind _ _ _).mpr ?_
      exact (sweepPages_obeys goSendClaimed_obeys _ _ pages none _ _).mono fun _ _ _ => trivial

/-! ## The invariant -/

/-- A row as the write it comes from made it, but for its claim. -/
def Genuine (log : List Happened) (item : Item) : Prop :=
  log[item.write]? = some (.wrote item.row.message item.row.dueAt) ∧
    item.row.key = schedKey item.row.message

structure TableSound (r : Region) : Prop where
  table : ∀ key item, r.table key = some item → Genuine r.log item ∧ item.row.key = key
  versions : ∀ item ∈ r.versions, Genuine r.log item
  kept : ∀ i m dueAt, r.log[i]? = some (.wrote m dueAt) →
    (∃ item, r.table (schedKey m) = some item ∧ item.write = i) ∨
      Since r.log i (fun h => h = .sent m) ∨
      Since r.log i (fun h => ∃ m' due', h = .wrote m' due' ∧ schedKey m' = schedKey m)

structure ViewSound (log : List Happened) (g : Sweeping) : Prop where
  page : ∀ item ∈ g.page, Genuine log item
  claimed : ∀ item, g.claimed = some item → Genuine log item
  sent : ∀ item, g.sent = some item →
    Genuine log item ∧ Since log item.write (fun h => h = .sent item.row.message)

theorem TableSound.noneLost {r : Region} (h : TableSound r) : NoneLost r := by
  intro i m dueAt hw
  refine (h.kept i m dueAt hw).imp_left ?_
  intro ⟨item, hitem, hi⟩
  have hg := (h.table _ _ hitem).1.1
  rw [hi, hw] at hg
  cases hg
  exact ⟨item, hitem, rfl, rfl⟩

section Log
variable {log : List Happened} (more : List Happened)

theorem entry_mono {i : Nat} {h : Happened} (hi : log[i]? = some h) :
    (log ++ more)[i]? = some h := by
  rw [List.getElem?_append_left (List.getElem?_eq_some_iff.mp hi).1]
  exact hi

theorem Since.mono {i : Nat} {P : Happened → Prop} (h : Since log i P) :
    Since (log ++ more) i P := by
  obtain ⟨j, x, hij, hx, hp⟩ := h
  exact ⟨j, x, hij, entry_mono more hx, hp⟩

theorem Genuine.mono {item : Item} (h : Genuine log item) : Genuine (log ++ more) item :=
  ⟨entry_mono more h.1, h.2⟩

theorem ViewSound.mono {g : Sweeping} (h : ViewSound log g) : ViewSound (log ++ more) g where
  page item hi := (h.page item hi).mono more
  claimed item hi := (h.claimed item hi).mono more
  sent item hi := ⟨(h.sent item hi).1.mono more, (h.sent item hi).2.mono more⟩

/-- The last entry comes after every other. -/
theorem since_last {i : Nat} {h h' : Happened} {P : Happened → Prop} (hi : log[i]? = some h)
    (hp : P h') : Since (log ++ [h']) i P := by
  have hlt := (List.getElem?_eq_some_iff.mp hi).1
  exact ⟨log.length, h', hlt, by simp, hp⟩

end Log

/-- A request only adds to the log. -/
theorem cloudExec_log (a : CloudAnswer) (op : CloudOp) (r : Region) :
    ∃ more, (cloudExec a op r).2.log = r.log ++ more := by
  cases op with
  | sendMessage body d =>
    cases body with
    | none => exact ⟨[], by simp [cloudExec]⟩
    | some m => exact ⟨_, rfl⟩
  | putItem row => exact ⟨_, rfl⟩
  | claimItem item n f =>
    refine ⟨[], ?_⟩
    simp only [cloudExec, List.append_nil]
    split <;> rfl
  | _ => exact ⟨[], by simp [cloudExec]⟩

theorem cloudFault_log (a : CloudAnswer) (f : Fault) (op : CloudOp) (r : Region) :
    ∃ more, (cloudFault a f op r).2.log = r.log ++ more := by
  cases f with
  | none => exact cloudExec_log a op r
  | before => exact ⟨[], (List.append_nil _).symm⟩
  | after => exact cloudExec_log a op r

/-- Only a request that does not fail is answered. -/
theorem cloudFault_ok {a : CloudAnswer} {f : Fault} {op : CloudOp} {r r' : Region}
    {res : CloudRes op} (h : cloudFault a f op r = (.ok res, r')) :
    (cloudExec a op r).1 = .ok res ∧ (cloudExec a op r).2 = r' := by
  cases f with
  | none => exact ⟨congrArg Prod.fst h, congrArg Prod.snd h⟩
  | before => cases h
  | after => cases h

section Requests
variable {r : Region} {g : Sweeping} {a : CloudAnswer}

/-- A claim changes no more of a row than its lease. -/
theorem TableSound.claim (hr : TableSound r) (item : Item) (nowSec leaseFloorSec : Int) :
    TableSound (cloudExec a (.claimItem item nowSec leaseFloorSec) r).2 := by
  simp only [cloudExec]
  cases hc : claimable (r.table item.row.key) leaseFloorSec with
  | none => exact hr
  | some found =>
    have hfound : r.table item.row.key = some found := by
      unfold claimable at hc
      exact (Option.filter_eq_some_iff.mp hc).1
    obtain ⟨hgen, hkey⟩ := hr.table _ _ hfound
    constructor
    · intro key x hx
      by_cases hk : key = item.row.key
      · subst hk
        cases (r.store_self _ _).symm.trans hx
        exact ⟨hgen, hkey⟩
      · exact hr.table key x ((r.store_other hk _).symm.trans hx)
    · intro x hx
      rcases List.mem_append.mp hx with hx | hx
      · exact hr.versions x hx
      · rw [List.mem_singleton.mp hx]
        exact hgen
    · intro i m dueAt hw
      refine (hr.kept i m dueAt hw).imp_left ?_
      intro ⟨x, hx, hi⟩
      by_cases hk : schedKey m = item.row.key
      · rw [hk, hfound] at hx
        cases hx
        rw [hk]
        exact ⟨_, r.store_self _ _, hi⟩
      · exact ⟨x, (r.store_other hk _).trans hx, hi⟩

theorem TableSound.send (hr : TableSound r) (m : Message) :
    TableSound { r with log := r.log ++ [.sent m] } where
  table key x hx := ⟨(hr.table key x hx).1.mono _, (hr.table key x hx).2⟩
  versions x hx := (hr.versions x hx).mono _
  kept i m' dueAt hw := by
    have hlt : i < r.log.length := by
      by_contra hge
      rw [List.getElem?_append_right (Nat.le_of_not_lt hge)] at hw
      cases hn : i - r.log.length <;> simp [hn] at hw
    rw [List.getElem?_append_left hlt] at hw
    exact (hr.kept i m' dueAt hw).imp_right fun h => h.imp (·.mono _) (·.mono _)

/-- The write that is lost by a delete was sent, if it is the one the sweeper read. -/
theorem TableSound.delete (hr : TableSound r) (hg : ViewSound r.log g) {item : Item}
    (hsent : g.sent = some item)
    (hsame : ∀ live, r.table item.row.key = some live → live.write = item.write) :
    TableSound { r with table := Function.update r.table item.row.key none } where
  table key x hx := by
    by_cases hk : key = item.row.key
    · rw [hk] at hx
      simp at hx
    · simp only [Function.update_of_ne hk] at hx
      exact hr.table key x hx
  versions := hr.versions
  kept i m dueAt hw := by
    obtain ⟨x, hx, hi⟩ | h := hr.kept i m dueAt hw
    · by_cases hk : schedKey m = item.row.key
      · obtain ⟨hgen, hsince⟩ := hg.sent item hsent
        have hwrite : item.write = i := by rw [← hsame x (hk ▸ hx), hi]
        have hmsg := hgen.1
        rw [hwrite, hw] at hmsg
        cases hmsg
        exact .inr (.inl (hwrite ▸ hsince))
      · exact .inl ⟨x, by simpa only [Function.update_of_ne hk] using hx, hi⟩
    · exact .inr h

theorem TableSound.put (hr : TableSound r) {row : SchedRow}
    (hkey : row.key = schedKey row.message) : TableSound (cloudExec a (.putItem row) r).2 := by
  have hnew : Genuine (r.log ++ [.wrote row.message row.dueAt])
      { row := row, write := r.log.length } := ⟨by simp, hkey⟩
  constructor
  · intro key x hx
    by_cases hk : key = row.key
    · subst hk
      cases (r.store_self _ _).symm.trans hx
      exact ⟨hnew, rfl⟩
    · have hx' := hr.table key x ((r.store_other hk _).symm.trans hx)
      exact ⟨hx'.1.mono _, hx'.2⟩
  · intro x hx
    rcases List.mem_append.mp hx with hx | hx
    · exact (hr.versions x hx).mono _
    · rw [List.mem_singleton.mp hx]
      exact hnew
  · intro i m dueAt hw
    simp only [cloudExec] at hw
    by_cases hlt : i < r.log.length
    · rw [List.getElem?_append_left hlt] at hw
      by_cases hk : schedKey m = row.key
      · exact .inr (.inr (since_last hw ⟨_, _, rfl, hkey.symm.trans hk.symm⟩))
      · obtain ⟨x, hx, hi⟩ | h := hr.kept i m dueAt hw
        · exact .inl ⟨x, (r.store_other hk _).trans hx, hi⟩
        · exact .inr (h.imp (·.mono _) (·.mono _))
    · have hi : i = r.log.length := by
        have hle := (List.getElem?_eq_some_iff.mp hw).1
        simp only [List.length_append, List.length_singleton] at hle
        omega
      subst hi
      simp only [List.getElem?_append_right le_rfl, Nat.sub_self, List.getElem?_cons_zero,
        Option.some.injEq, Happened.wrote.injEq] at hw
      obtain ⟨rfl, rfl⟩ := hw
      rw [← hkey]
      exact .inl ⟨_, r.store_self _ _, rfl⟩

/-- Every allowed request keeps the table sound, a delete under its condition. -/
theorem TableSound.exec (hr : TableSound r) (hg : ViewSound r.log g) {op : CloudOp}
    (hal : sweepMonitor.allows g op)
    (hdel : ∀ item, op = .deleteItem item →
      ∀ live, r.table item.row.key = some live → live.write = item.write) :
    TableSound (cloudExec a op r).2 := by
  cases op with
  | now => exact hr
  | query => exact hr
  | claimItem item nowSec leaseFloorSec => exact hr.claim item nowSec leaseFloorSec
  | sendMessage body delaySeconds =>
    cases body with
    | none => exact hr
    | some m => exact hr.send m
  | deleteItem item => exact hr.delete hg hal (hdel item rfl)
  | putItem row => exact hr.put hal

/-- An answered request leaves its caller with a sound view. -/
theorem ViewSound.next (hr : TableSound r) (hg : ViewSound r.log g) {op : CloudOp}
    (hal : sweepMonitor.allows g op) {res : CloudRes op}
    (hx : (cloudExec a op r).1 = .ok res) :
    ViewSound (cloudExec a op r).2.log (sweepMonitor.next g op res) := by
  obtain ⟨more, hlog⟩ := cloudExec_log a op r
  have hmono : ViewSound (cloudExec a op r).2.log g := hlog ▸ hg.mono more
  cases op with
  | now => exact hmono
  | deleteItem item => exact hmono
  | putItem row => exact hmono
  | query nowSec key =>
    cases hx
    constructor
    · intro item hi
      obtain ⟨n, -, hn⟩ := List.mem_filterMap.mp (List.mem_of_mem_filter hi)
      exact hr.versions item (List.mem_of_getElem? hn)
    · intro item hi
      cases hi
    · intro item hi
      cases hi
  | claimItem item nowSec leaseFloorSec =>
    refine ⟨hmono.page, fun x hx => ?_, fun x hx => ?_⟩
    · cases res with
      | false => cases hx
      | true =>
        cases hx
        exact hmono.page item hal
    · cases hx
  | sendMessage body delaySeconds =>
    cases body with
    | none => cases hx
    | some m =>
      refine ⟨hmono.page, fun item hi => ?_, fun item hi => ⟨hmono.claimed item hi, ?_⟩⟩
      · cases hi
      · have hm : m = item.row.message := hal item m hi rfl
        rw [← hm]
        exact since_last (hg.claimed item hi).1 rfl

end Requests

/-! ## Runs -/

variable [DecidableEq ι]

structure Sound (c : CloudConf ι) : Prop where
  obeyed : (cloudPool ι).Obeyed (fun _ _ => True) c
  table : TableSound c.shared
  views : ∀ i, ViewSound c.shared.log (c.view i)

omit [DecidableEq ι] in
theorem cloudStart_sound (jobs : ι → CloudJob) : Sound (cloudStart jobs) where
  obeyed := cloudStart_obeyed jobs
  table := by
    refine ⟨?_, ?_, ?_⟩
    · intro key item h
      cases h
    · intro item h
      cases h
    · intro i m dueAt h
      cases h
  views i := by
    refine ⟨?_, ?_, ?_⟩ <;> intro item h <;> cases h

omit [DecidableEq ι] in
theorem DeletesWhatItRead.write_eq {c : CloudConf ι} {e : ι × (CloudAnswer × Fault)}
    (h : DeletesWhatItRead c e) {item : Item} (hop : (c.rest e.1).head = some (.deleteItem item))
    (hf : e.2.2 ≠ .before) {live : Item} (hlive : c.shared.table item.row.key = some live) :
    live.write = item.write := by
  unfold DeletesWhatItRead deletesAnother at h
  rw [hop] at h
  simpa [hf, hlive] using h

theorem Sound.step {c : CloudConf ι} {e : ι × (CloudAnswer × Fault)} (h : Sound c)
    (hdel : DeletesWhatItRead c e) : Sound ((cloudPool ι).step c e) := by
  obtain ⟨i, a, f⟩ := e
  refine ⟨h.obeyed.step, ?_, ?_⟩
  · cases hc : c.rest i with
    | pure u => simpa [System.step, hc] using h.table
    | throw x => simpa [System.step, hc] using h.table
    | call op k =>
      rw [System.step_shared_of_call hc]
      have hexec : f ≠ .before → TableSound (cloudExec a op c.shared).2 := by
        intro hf
        refine h.table.exec (h.views i) (h.obeyed.allows hc) ?_
        intro item hop live hlive
        exact hdel.write_eq (by rw [hc]; exact congrArg some hop) hf hlive
      cases f with
      | none => exact hexec (by decide)
      | before => exact h.table
      | after => exact hexec (by decide)
  · intro j
    obtain ⟨hs, -⟩ | ⟨op, k, hc, ⟨r, s, hx, hs⟩ | ⟨x, s, hx, hs⟩⟩ :=
      System.step_cases (S := cloudPool ι) c i (a, f)
    · rw [hs]
      exact h.views j
    · rw [hs]
      obtain ⟨hr, rfl⟩ := cloudFault_ok hx
      by_cases hj : j = i
      · subst hj
        simp only [Function.update_self]
        exact (h.views j).next h.table (h.obeyed.allows hc) hr
      · simp only [Function.update_of_ne hj]
        obtain ⟨more, hmore⟩ := cloudExec_log a op c.shared
        rw [hmore]
        exact (h.views j).mono more
    · rw [hs]
      obtain ⟨more, hmore⟩ := cloudFault_log a f op c.shared
      have hlog : s.log = c.shared.log ++ more := by
        have hs2 : (cloudFault a f op c.shared).2 = s := congrArg Prod.snd hx
        rw [← hs2, hmore]
      rw [hlog]
      exact (h.views j).mono more

/-- **No retry is lost** where every delete meets the row its sweeper read: in every state
of such a run, each retry written to the table is still there, or was sent to SQS since,
or was replaced since. -/
theorem retries_never_lost (jobs : ι → CloudJob) (es : List (ι × (CloudAnswer × Fault)))
    (hdel : (cloudPool ι).Along DeletesWhatItRead (cloudStart jobs) es) :
    NoneLost ((cloudPool ι).run (cloudStart jobs) es).shared := by
  have hsound := System.Along.invariant (fun _ _ h hd => Sound.step h hd)
    (cloudStart_sound jobs) hdel
  exact hsound.table.noneLost

/-! ## Two runs -/

/-- A worker schedules a first retry, a sweep hands it to SQS, and the worker that takes
it from there schedules a second one. -/
def retriedTwice (lang : Lang) : Fin 3 → CloudJob
  | 0 => .schedule lang { messageFor "msg_a" with attemptNo := 1 } 1000000
  | 1 => .sweep lang 1000000 1
  | 2 => .schedule lang { messageFor "msg_a" with attemptNo := 2 } 3000000

def cloudAnswer (now : Time) : CloudAnswer where
  now := now
  page := [0]
  lastEvaluatedKey := none

def cloudSteps (now : Time) (order : List (Fin 3)) : List (Fin 3 × (CloudAnswer × Fault)) :=
  order.map fun i => (i, cloudAnswer now, .none)

/-- The sweep ends before the second retry is scheduled. -/
def sweptInTime : List (Fin 3 × (CloudAnswer × Fault)) :=
  cloudSteps 0 [0, 0] ++ cloudSteps 1000000 [1, 1, 1, 1, 2, 2]

theorem sweptInTime_kept :
    (cloudPool (Fin 3)).Along DeletesWhatItRead (cloudStart (retriedTwice .ts)) sweptInTime ∧
      NoneLost ((cloudPool (Fin 3)).run (cloudStart (retriedTwice .ts)) sweptInTime).shared := by
  have hdel : (cloudPool (Fin 3)).Along DeletesWhatItRead (cloudStart (retriedTwice .ts))
      sweptInTime := by
    refine ⟨?_, ?_, ?_, ?_, ?_, ?_, ?_, ?_, trivial⟩ <;> unfold DeletesWhatItRead <;> decide +kernel
  exact ⟨hdel, retries_never_lost _ _ hdel⟩

/-- The second retry is scheduled between the sweep's send and its delete. -/
def rescheduledUnderSweep : List (Fin 3 × (CloudAnswer × Fault)) :=
  cloudSteps 0 [0, 0] ++ cloudSteps 1000000 [1, 1, 1, 2, 2, 1]

theorem delete_loses_rescheduled_retry :
    ¬ NoneLost ((cloudPool (Fin 3)).run (cloudStart (retriedTwice .ts))
        rescheduledUnderSweep).shared ∧
      ¬ NoneLost ((cloudPool (Fin 3)).run (cloudStart (retriedTwice .go))
        rescheduledUnderSweep).shared := by
  have hlost : ∀ lang, ¬ NoneLost ((cloudPool (Fin 3)).run (cloudStart (retriedTwice lang))
      rescheduledUnderSweep).shared := by
    intro lang h
    have hlog : ((cloudPool (Fin 3)).run (cloudStart (retriedTwice lang))
        rescheduledUnderSweep).shared.log =
        [.wrote { messageFor "msg_a" with attemptNo := 1 } 1000,
          .sent { messageFor "msg_a" with attemptNo := 1 },
          .wrote { messageFor "msg_a" with attemptNo := 2 } 3000] := by
      cases lang <;> decide +kernel
    have hgone : ((cloudPool (Fin 3)).run (cloudStart (retriedTwice lang))
        rescheduledUnderSweep).shared.table (schedKey (messageFor "msg_a")) = none := by
      cases lang <;> decide +kernel
    have hlate : ∀ P, ¬ Since ((cloudPool (Fin 3)).run (cloudStart (retriedTwice lang))
        rescheduledUnderSweep).shared.log 2 P := by
      intro P hs
      obtain ⟨j, x, hj, hx, -⟩ := hs
      rw [hlog] at hx
      have hlt := (List.getElem?_eq_some_iff.mp hx).1
      simp only [List.length_cons, List.length_nil] at hlt
      omega
    obtain ⟨item, hitem, -⟩ | hs | hs := h 2 { messageFor "msg_a" with attemptNo := 2 } 3000
      (by rw [hlog]; rfl)
    · exact absurd (hgone.symm.trans hitem) (by simp)
    · exact hlate _ hs
    · exact hlate _ hs
  exact ⟨hlost .ts, hlost .go⟩

end Anyhook.Aws
