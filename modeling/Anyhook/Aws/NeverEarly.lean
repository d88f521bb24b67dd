import Anyhook.Aws.Retries
import Mathlib.Data.Int.ConditionallyCompleteOrder
import Mathlib.Order.GaloisConnection.Defs

/-! When a retry becomes available to a consumer. A delay in SQS is rounded up to whole
seconds, so it ends at the time asked for or later. The due time of a row is rounded down,
and the sweeper rounds its own clock down before it compares: a row is swept from the
start of the second it is due in. -/
namespace Anyhook.Aws
open Anyhook.Core Anyhook.Testing Anyhook.Lib.Program Anyhook.Lib.Interleave

/-! ## Seconds -/

/-- The first millisecond of an epoch second. Go divides toward zero, so its second 0
reaches from -999 to 999 and each second before it ends at its own multiple. -/
def secondStart : Lang → Int → Int
  | .ts, q => 1000 * q
  | .go, q => if 0 < q then 1000 * q else 1000 * q - 999

theorem secondStart_seconds (lang : Lang) :
    GaloisConnection (fun q : Int => (secondStart lang q : Time)) (seconds lang) := by
  intro q t
  cases lang with
  | ts =>
    simp only [secondStart, seconds, Int.le_floor]
    rw [le_div_iff₀ (by norm_num)]
    push_cast
    rw [mul_comm]
  | go =>
    have hsign : Int.sign 1000 = 1 := rfl
    simp only [secondStart, seconds]
    rw [← Int.le_floor, Int.tdiv_eq_ediv, hsign]
    split <;> split <;> omega

/-- The second a time falls in starts no later than the time itself, and at it where the
time is the start of some second. -/
theorem secondStart_of_start {lang : Lang} {t : Time} (h : ∃ q, t = secondStart lang q) :
    (secondStart lang (seconds lang t) : Time) = t := by
  obtain ⟨q, rfl⟩ := h
  exact (secondStart_seconds lang).l_u_l_eq_l q

/-! ## What a sweep looks at -/

/-- What a call was started with, has read and has claimed. -/
structure Due where
  reader : Lang
  nowSec : Int
  page : List Item
  claimed : Option Item

/-- A sweep asks for what is due by its own clock, claims what it read, and sends a body
for a row of its own language only. -/
def dueMonitor : Monitor CloudOp CloudRes Due where
  allows g
    | .query nowSec _ => nowSec = g.nowSec
    | .claimItem item _ _ => item ∈ g.page
    | .sendMessage (some _) _ => ∀ item, g.claimed = some item → item.row.writer = g.reader
    | _ => True
  next g
    | .query .., page => { g with page := page.items, claimed := none }
    | .claimItem item _ _, won => { g with claimed := if won then some item else none }
    | .sendMessage .., _ => { g with claimed := none }
    | _, _ => g

def CloudJob.due : CloudJob → Due
  | .sweep lang now _ => { reader := lang, nowSec := seconds lang now, page := [], claimed := none }
  | .schedule lang _ _ => { reader := lang, nowSec := 0, page := [], claimed := none }

variable {ι : Type}

abbrev DueConf (ι : Type) := Conf CloudOp CloudRes String Unit Region ι Due

def duePool (ι : Type) : System CloudOp CloudRes String Region (CloudAnswer × Fault) ι Due where
  exec _ inp op r := cloudFault inp.1 inp.2 op r
  monitor := dueMonitor

/-- Every call at its first request, over a given region. -/
def dueStart (r : Region) (jobs : ι → CloudJob) : DueConf ι where
  shared := r
  rest i := (jobs i).program
  view i := (jobs i).due

/-! ## The law -/

/-- The step sends, with effect, the message of a row that its call has claimed. The lease
on the row is no part of what was written. -/
def SendsRow (row : SchedRow) (c : DueConf ι) (e : ι × (CloudAnswer × Fault)) : Prop :=
  e.2.2 ≠ .before ∧
    (∃ delaySeconds, (c.rest e.1).head = some (.sendMessage (some row.message) delaySeconds)) ∧
    ∃ item, (c.view e.1).claimed = some item ∧
      item.row = { row with claimedAt := item.row.claimedAt }

/-- No sweep sends the row before `atMs`, whatever other calls run beside it. -/
def SweptInTime (row : SchedRow) (atMs : Time) (r : Region) : Prop :=
  ∀ (ι : Type) [DecidableEq ι] (jobs : ι → CloudJob) (es : List (ι × (CloudAnswer × Fault))),
    (duePool ι).Along (fun c e => ∀ lang now pages, jobs e.1 = .sweep lang now pages →
      SendsRow row c e → atMs ≤ now) (dueStart r jobs) es

/-- Send a request and keep a record of it. -/
def recorded (a : CloudAnswer) (op : CloudOp) (s : Region × List CloudOp) :
    Except String (CloudRes op) × Region × List CloudOp :=
  ((cloudExec a op s.1).1, (cloudExec a op s.1).2, s.2 ++ [op])

/-- The retry is one message in SQS, whose delay does not end before `atMs`. -/
def Delayed (m : Message) (atMs now : Time) (r : Region) (s : Region × List CloudOp) : Prop :=
  ∃ d : Int, 0 ≤ d ∧ d ≤ 900 ∧ s.2 = [.now, .sendMessage (some m) d] ∧ s.1.table = r.table ∧
    atMs ≤ now + 1000 * d

/-- The retry is one row of the table, that no sweep sends before `atMs`. -/
def Stored (lang : Lang) (m : Message) (atMs : Time) (s : Region × List CloudOp) : Prop :=
  s.2 = [.now, .putItem (schedRow lang m atMs)] ∧
    (s.1.table (schedKey m)).map Item.row = some (schedRow lang m atMs) ∧
    SweptInTime (schedRow lang m atMs) atMs s.1

/-- Scheduled at `now`, in any region, the retry is a message or a row and is not
available before `atMs`. -/
def NeverEarly (lang : Lang) (m : Message) (atMs now : Time) : Prop :=
  ∀ (a : CloudAnswer) (r : Region), a.now = now →
    Prog.Ends (recorded a) (scheduleRetryWith lang m atMs)
      (fun _ s => Delayed m atMs now r s ∨ Stored lang m atMs s) (r, [])

/-! ## The delay in SQS -/

theorem delay_covers {atMs now : Time} (h : atMs - now ≤ sqsMaxDelayMs) :
    atMs ≤ now + 1000 * ((min 900 (max 0 ⌈(atMs - now) / 1000⌉) : Int) : Time) := by
  have hceil : (atMs - now) / 1000 ≤ ((min 900 (max 0 ⌈(atMs - now) / 1000⌉) : Int) : Time) := by
    refine Int.ceil_le.mp (le_min ?_ (le_max_right _ _))
    refine Int.ceil_le.mpr ?_
    rw [div_le_iff₀ (by norm_num)]
    exact h.trans (by norm_num [sqsMaxDelayMs])
  rw [div_le_iff₀ (by norm_num)] at hceil
  linarith

/-! ## The programs obey -/

/-- What sending a claimed item needs of the call that sends it. -/
def SendsOwn (reader : Lang) (send : Item → Cloud Unit) : Prop :=
  ∀ item g, g.reader = reader → g.claimed = some item →
    Obeys dueMonitor (fun g' _ => g' = { g with claimed := none }) g (send item)

theorem sendClaimed_own : SendsOwn .ts sendClaimed := by
  intro item g hreader hclaimed
  refine (obeys_perform _ _ _).mpr ⟨?_, fun _ => rfl⟩
  unfold Item.message
  split
  · intro item' hitem'
    rw [hclaimed] at hitem'
    cases hitem'
    rw [hreader]
    assumption
  · trivial

theorem goSendClaimed_own : SendsOwn .go goSendClaimed := by
  intro item g hreader hclaimed
  unfold goSendClaimed Item.message
  by_cases hw : item.row.writer = .go
  · rw [if_pos hw]
    refine (obeys_perform _ _ _).mpr ⟨?_, fun _ => rfl⟩
    intro item' hitem'
    rw [hclaimed] at hitem'
    cases hitem'
    rw [hreader, hw]
  · rw [if_neg hw]
    trivial

section Obeys
variable {reader : Lang} {send : Item → Cloud Unit} (hsend : SendsOwn reader send)
  (nowSec leaseFloorSec : Int)
include hsend

theorem sweepItem_due (item : Item) (result : SweeperResult) {g : Due} (hr : g.reader = reader)
    (hg : item ∈ g.page) :
    Obeys dueMonitor (fun g' _ => g'.reader = reader ∧ g'.nowSec = g.nowSec ∧ g'.page = g.page) g
      (sweepItem send nowSec leaseFloorSec item result) := by
  unfold sweepItem
  split
  · exact ⟨hr, rfl, rfl⟩
  · refine obeys_perform_bind.mpr ⟨hg, fun won => ?_⟩
    cases won with
    | false => exact ⟨hr, rfl, rfl⟩
    | true =>
      rw [if_pos rfl, obeys_bind]
      refine (hsend item { g with claimed := some item } hr rfl).mono ?_
      intro g' _ h
      rw [h]
      exact obeys_perform_bind.mpr ⟨trivial, fun _ => ⟨hr, rfl, rfl⟩⟩

theorem sweepItems_due (items : List Item) (result : SweeperResult) {g : Due}
    (hr : g.reader = reader) (hg : ∀ item ∈ items, item ∈ g.page) :
    Obeys dueMonitor (fun g' _ => g'.reader = reader ∧ g'.nowSec = g.nowSec) g
      (sweepItems send nowSec leaseFloorSec items result) := by
  induction items generalizing result g with
  | nil => exact ⟨hr, rfl⟩
  | cons item rest ih =>
    rw [sweepItems, obeys_bind]
    refine (sweepItem_due hsend _ _ item result hr (hg item List.mem_cons_self)).mono ?_
    intro g' result' hg'
    rw [← hg'.2.1]
    refine ih result' hg'.1 fun x hx => ?_
    rw [hg'.2.2]
    exact hg x (List.mem_cons_of_mem _ hx)

theorem sweepPages_due (pages : Nat) (key : Option String) (result : SweeperResult) {g : Due}
    (hr : g.reader = reader) (hn : g.nowSec = nowSec) :
    Obeys dueMonitor (fun _ _ => True) g
      (sweepPages send nowSec leaseFloorSec pages key result) := by
  induction pages generalizing key result g with
  | zero => trivial
  | succ pages ih =>
    refine obeys_perform_bind.mpr ⟨hn.symm, fun page => ?_⟩
    rw [obeys_bind]
    refine (sweepItems_due hsend _ _ page.items result
      (g := { g with page := page.items, claimed := none }) hr fun item hi => hi).mono ?_
    intro g' result' hg'
    cases page.lastEvaluatedKey with
    | none => trivial
    | some key => exact ih (some key) result' hg'.1 (hg'.2.trans hn)

end Obeys

theorem dueStart_obeyed (r : Region) (jobs : ι → CloudJob) :
    (duePool ι).Obeyed (fun _ _ => True) (dueStart r jobs) := by
  intro i
  show Obeys dueMonitor _ (jobs i).due (jobs i).program
  cases jobs i with
  | schedule lang m atMs =>
    have hobeys : ∀ lang', Obeys dueMonitor (fun _ _ => True) (CloudJob.schedule lang m atMs).due
        (scheduleRetryWith lang' m atMs) := by
      intro lang'
      refine obeys_perform_bind.mpr ⟨trivial, fun now => ?_⟩
      dsimp only
      split
      · refine (obeys_perform _ _ _).mpr ⟨?_, fun _ => trivial⟩
        intro item hitem
        cases hitem
      · exact (obeys_perform _ _ _).mpr ⟨trivial, fun _ => trivial⟩
    cases lang <;> exact hobeys _
  | sweep lang now pages =>
    cases lang with
    | ts =>
      refine (obeys_bind _ _ _).mpr ?_
      exact (sweepPages_due sendClaimed_own _ _ pages none _ rfl rfl).mono fun _ _ _ => trivial
    | go =>
      refine (obeys_bind _ _ _).mpr ?_
      exact (sweepPages_due goSendClaimed_own _ _ pages none _ rfl rfl).mono fun _ _ _ => trivial

/-! ## Runs -/

/-- What a call has read or claimed was due by its clock. -/
structure DueView (job : CloudJob) (g : Due) : Prop where
  reader : g.reader = job.due.reader
  nowSec : g.nowSec = job.due.nowSec
  page : ∀ item ∈ g.page, item.row.gsi1sk ≤ g.nowSec
  claimed : ∀ item, g.claimed = some item → item.row.gsi1sk ≤ g.nowSec

theorem DueView.start (job : CloudJob) : DueView job job.due where
  reader := rfl
  nowSec := rfl
  page item hi := by cases job <;> cases hi
  claimed item hi := by cases job <;> cases hi

theorem DueView.next {job : CloudJob} {g : Due} (h : DueView job g) {op : CloudOp}
    (hal : dueMonitor.allows g op) {a : CloudAnswer} {r : Region} {res : CloudRes op}
    (hx : (cloudExec a op r).1 = .ok res) : DueView job (dueMonitor.next g op res) := by
  cases op with
  | now => exact h
  | deleteItem item => exact h
  | putItem row => exact h
  | query nowSec key =>
    cases hx
    refine ⟨h.reader, h.nowSec, fun item hi => ?_, fun item hi => ?_⟩
    · have hdue := of_decide_eq_true (List.mem_filter.mp hi).2
      exact hdue.trans (le_of_eq hal)
    · cases hi
  | claimItem item nowSec leaseFloorSec =>
    refine ⟨h.reader, h.nowSec, h.page, fun x hi => ?_⟩
    cases res with
    | false => cases hi
    | true =>
      cases hi
      exact h.page item hal
  | sendMessage body delaySeconds =>
    refine ⟨h.reader, h.nowSec, h.page, fun x hi => ?_⟩
    cases hi

structure DueSound (jobs : ι → CloudJob) (c : DueConf ι) : Prop where
  obeyed : (duePool ι).Obeyed (fun _ _ => True) c
  views : ∀ i, DueView (jobs i) (c.view i)

theorem dueStart_sound (r : Region) (jobs : ι → CloudJob) : DueSound jobs (dueStart r jobs) where
  obeyed := dueStart_obeyed r jobs
  views i := DueView.start (jobs i)

theorem DueSound.step [DecidableEq ι] {jobs : ι → CloudJob} {c : DueConf ι}
    {e : ι × (CloudAnswer × Fault)} (h : DueSound jobs c) :
    DueSound jobs ((duePool ι).step c e) := by
  refine ⟨h.obeyed.step, fun j => ?_⟩
  obtain ⟨i, a, f⟩ := e
  obtain hsame | ⟨rfl, op, k, res, hc, hx, hnext⟩ := System.step_view (S := duePool ι) c i (a, f) j
  · rw [hsame]
    exact h.views j
  · rw [hnext]
    have hok := (cloudFault_ok (Prod.ext hx rfl)).1
    exact (h.views j).next (h.obeyed.allows hc) hok

/-- A sweep that sends a row is of the row's language, and the row is due by its clock. -/
theorem DueSound.due {jobs : ι → CloudJob} {c : DueConf ι} {e : ι × (CloudAnswer × Fault)}
    (h : DueSound jobs c) {lang : Lang} {now : Time} {pages : Nat}
    (hjob : jobs e.1 = .sweep lang now pages) {row : SchedRow} (hsend : SendsRow row c e) :
    row.writer = lang ∧ row.gsi1sk ≤ seconds lang now := by
  obtain ⟨-, ⟨d, hhead⟩, item, hitem, hrow⟩ := hsend
  have hview := h.views e.1
  rw [hjob] at hview
  have hwriter : item.row.writer = row.writer := by rw [hrow]
  have hsk : item.row.gsi1sk = row.gsi1sk := by rw [hrow]
  constructor
  · cases hc : c.rest e.1 with
    | pure u => rw [hc] at hhead; cases hhead
    | throw x => rw [hc] at hhead; cases hhead
    | call op k =>
      rw [hc] at hhead
      cases hhead
      have hown : item.row.writer = (c.view e.1).reader := h.obeyed.allows hc item hitem
      rw [← hwriter, hown, hview.reader]
      rfl
  · have hdue := hview.claimed item hitem
    rw [hview.nowSec, hsk] at hdue
    exact hdue

/-- A row is swept no earlier than the second it is due in starts. -/
theorem swept_from_secondStart (lang : Lang) (m : Message) (atMs : Time) (r : Region) :
    SweptInTime (schedRow lang m atMs) (secondStart lang (seconds lang atMs)) r := by
  intro ι _ jobs es
  refine System.Along.strengthen (fun c e h _ => DueSound.step h) ?_ (dueStart_sound r jobs)
    System.along_true
  intro c e h _ lang' now pages hjob hsend
  obtain ⟨hlang, hdue⟩ := h.due hjob hsend
  have hlang : lang = lang' := hlang
  subst hlang
  exact (secondStart_seconds lang _ _).mpr hdue

/-! ## A sweep at the start of the second -/

section Early
variable (lang : Lang) (m : Message) (atMs : Time)

def firstRow (now : Time) : CloudAnswer := { now := now, page := [0], lastEvaluatedKey := none }

/-- The region with the retry's row and nothing else. -/
def withRow : Region := (cloudExec (firstRow 0) (.putItem (schedRow lang m atMs)) .empty).2

/-- The row as the region stores it. -/
def rowItem : Item := { row := schedRow lang m atMs, write := 0 }

/-- One sweep, at the start of the second the row is due in. -/
def sweepAtStart (_ : Unit) : CloudJob := .sweep lang (secondStart lang (seconds lang atMs)) 1

/-- The query and the claim. -/
def queryAndClaim : List (Unit × (CloudAnswer × Fault)) :=
  [((), firstRow 0, .none), ((), firstRow 0, .none)]

/-- The query finds the row and the claim wins it. -/
theorem queryAndClaim_wins {c : DueConf Unit} {nowSec nowSec' leaseFloorSec : Int}
    {key : Option String} {k : Page → Cloud Unit} {k' : Bool → Cloud Unit}
    (hshared : c.shared = withRow lang m atMs) (hquery : c.rest () = .call (.query nowSec key) k)
    (hclaim : k { items := [rowItem lang m atMs], lastEvaluatedKey := none } =
      .call (.claimItem (rowItem lang m atMs) nowSec' leaseFloorSec) k')
    (hdue : seconds lang atMs ≤ nowSec) :
    ((duePool Unit).run c queryAndClaim).rest () = k' true ∧
      (((duePool Unit).run c queryAndClaim).view ()).claimed = some (rowItem lang m atMs) := by
  have hfound : (duePool Unit).exec () (firstRow 0, .none) (.query nowSec key) c.shared =
      (.ok { items := [rowItem lang m atMs], lastEvaluatedKey := none }, c.shared) := by
    simp [duePool, cloudFault, cloudExec, hshared, withRow, firstRow, Region.store, Region.empty,
      rowItem, schedRow, hdue]
  have hfirst := System.step_answered hquery hfound
  have hrest : ((duePool Unit).step c ((), firstRow 0, .none)).rest () =
      .call (.claimItem (rowItem lang m atMs) nowSec' leaseFloorSec) k' := by
    simp only [hfirst, Function.update_self]
    exact hclaim
  have hwon : ((duePool Unit).exec () (firstRow 0, .none)
      (.claimItem (rowItem lang m atMs) nowSec' leaseFloorSec)
      ((duePool Unit).step c ((), firstRow 0, .none)).shared).1 = .ok true := by
    have htable : c.shared.table (rowItem lang m atMs).row.key = some (rowItem lang m atMs) := by
      rw [hshared]
      exact Region.store_self _ _ _
    rw [hfirst]
    simp only [duePool, cloudFault, cloudExec, htable]
    rfl
  have hsecond := System.step_answered hrest (Prod.ext hwon rfl)
  simp only [queryAndClaim, System.run, List.foldl_cons, List.foldl_nil]
  simp only [hsecond, Function.update_self, true_and]
  rfl

theorem sweepAtStart_sends :
    SendsRow (schedRow lang m atMs)
      ((duePool Unit).run (dueStart (withRow lang m atMs) (sweepAtStart lang atMs)) queryAndClaim)
      ((), firstRow 0, .none) := by
  have hdue : seconds lang atMs ≤ seconds lang (secondStart lang (seconds lang atMs)) :=
    (secondStart_seconds lang).le_u_l _
  cases lang with
  | ts =>
    obtain ⟨hrest, hclaimed⟩ := queryAndClaim_wins .ts m atMs
      (c := dueStart (withRow .ts m atMs) (sweepAtStart .ts atMs)) rfl rfl rfl hdue
    exact ⟨by decide, ⟨0, by rw [hrest]; rfl⟩, _, hclaimed, rfl⟩
  | go =>
    obtain ⟨hrest, hclaimed⟩ := queryAndClaim_wins .go m atMs
      (c := dueStart (withRow .go m atMs) (sweepAtStart .go atMs)) rfl rfl rfl hdue
    exact ⟨by decide, ⟨0, by rw [hrest]; rfl⟩, _, hclaimed, rfl⟩

end Early

/-! ## Exactly when -/

/-- Swept in time means due at the start of a second. -/
theorem sweptInTime_start {lang : Lang} {m : Message} {atMs : Time}
    (h : SweptInTime (schedRow lang m atMs) atMs (withRow lang m atMs)) :
    ∃ q, atMs = secondStart lang q := by
  have hrun := h Unit (sweepAtStart lang atMs) (queryAndClaim ++ [((), firstRow 0, .none)])
  have hle := hrun.after _ _ _ rfl (sweepAtStart_sends lang m atMs)
  exact ⟨_, le_antisymm hle ((secondStart_seconds lang).l_u_le _)⟩

theorem scheduleRetry_delays (lang : Lang) (m : Message) {atMs : Time} {a : CloudAnswer}
    (h : atMs - a.now ≤ sqsMaxDelayMs) (r : Region) :
    Prog.Ends (recorded a) (scheduleRetryWith lang m atMs)
      (fun _ s => Delayed m atMs a.now r s) (r, []) := by
  unfold scheduleRetryWith
  refine Prog.ends_call rfl ?_
  dsimp only [Prog.bind]
  rw [if_pos h]
  refine Prog.ends_call rfl (Prog.ends_pure ?_)
  exact ⟨_, by omega, by omega, rfl, rfl, delay_covers h⟩

theorem scheduleRetry_stores (lang : Lang) (m : Message) {atMs : Time} {a : CloudAnswer}
    (h : ¬ atMs - a.now ≤ sqsMaxDelayMs) (r : Region) :
    (scheduleRetryWith lang m atMs).run (recorded a) (r, []) =
      (.ok (), (cloudExec a (.putItem (schedRow lang m atMs)) r).2,
        [.now, .putItem (schedRow lang m atMs)]) := by
  unfold scheduleRetryWith
  refine (Prog.run_call_ok rfl).trans ?_
  dsimp only [Prog.bind]
  rw [if_neg h]
  rfl

/-- A row in time is due at the start of a second. -/
theorem NeverEarly.start {lang : Lang} {m : Message} {atMs now : Time}
    (h : NeverEarly lang m atMs now) (hrow : ¬ atMs - now ≤ sqsMaxDelayMs) :
    ∃ q, atMs = secondStart lang q := by
  obtain ⟨u, s, hrun, hs⟩ := h (firstRow now) .empty rfl
  rw [scheduleRetry_stores lang m hrow] at hrun
  cases hrun
  obtain ⟨d, -, -, hreq, -⟩ | ⟨-, -, hswept⟩ := hs
  · cases hreq
  · exact sweptInTime_start hswept

/-- **A retry is not available early** exactly where SQS delays it or it is due at the
start of a second. -/
theorem retry_never_early_iff (lang : Lang) (m : Message) (atMs now : Time) :
    NeverEarly lang m atMs now ↔ atMs - now ≤ 900000 ∨ ∃ q, atMs = secondStart lang q := by
  constructor
  · intro h
    by_cases hle : atMs - now ≤ sqsMaxDelayMs
    · exact .inl hle
    · exact .inr (h.start hle)
  · intro h a r hnow
    subst hnow
    by_cases hle : atMs - a.now ≤ sqsMaxDelayMs
    · exact (scheduleRetry_delays lang m hle r).mono fun _ _ hs => .inl hs
    · refine ⟨(), _, scheduleRetry_stores lang m hle r, .inr ⟨rfl, ?_, ?_⟩⟩
      · exact congrArg (Option.map Item.row) (Region.store_self _ _ _)
      · have hstart := secondStart_of_start (h.resolve_left hle)
        have hswept := swept_from_secondStart lang m atMs
          (cloudExec a (.putItem (schedRow lang m atMs)) r).2
        rwa [hstart] at hswept

/-- A retry asked for at 1000.999 s is swept at 1000 s. -/
theorem swept_999_ms_early :
    ¬ NeverEarly .ts (messageFor "msg_a") 1000999 0 ∧
      ¬ NeverEarly .go (messageFor "msg_a") 1000999 0 := by
  have hrow : ¬ (1000999 : Time) - 0 ≤ sqsMaxDelayMs := by decide +kernel
  constructor
  · intro h
    obtain ⟨q, hq⟩ := h.start hrow
    have hq : (1000999 : Int) = 1000 * q := by exact_mod_cast hq
    omega
  · intro h
    obtain ⟨q, hq⟩ := h.start hrow
    have hq : (1000999 : Int) = secondStart .go q := by exact_mod_cast hq
    simp only [secondStart] at hq
    split at hq <;> omega

end Anyhook.Aws
