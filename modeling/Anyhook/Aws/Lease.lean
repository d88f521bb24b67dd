import Anyhook.Aws.NeverEarly

/-! The sweeper's lease. Any number of sweeps, of either language and each by its own clock,
are interleaved request by request over rows that no one rewrites; a query may answer from
the past, a request may fail and a sweep may stop anywhere. The check in memory looks at the
row as the query found it. What decides is the condition of the update, which looks at the
row as it is. -/
namespace Anyhook.Aws
open Anyhook.Core Anyhook.Testing Anyhook.Lib.Program Anyhook.Lib.Interleave

/-! ## The system -/

structure Sweep where
  lang : Lang
  now : Time
  pages : Nat

def Sweep.nowSec (s : Sweep) : Int := seconds s.lang s.now

/-- What a sweep was started with, has read and has claimed. -/
structure Leasing where
  sweep : Sweep
  page : List Item
  claimed : Option Item

/-- A sweep claims what it read, for its lease from its own clock on, and sends what it
claimed, if it is of its own language. -/
def leaseMonitor : Monitor CloudOp CloudRes Leasing where
  allows g
    | .claimItem item nowSec leaseFloorSec =>
      item ∈ g.page ∧ nowSec = g.sweep.nowSec ∧ leaseFloorSec = nowSec - sweeperLeaseSeconds
    | .sendMessage (some m) _ =>
      ∃ item, g.claimed = some item ∧ item.row.message = m ∧ item.row.writer = g.sweep.lang
    | .putItem _ => False
    | _ => True
  next g
    | .query .., page => { g with page := page.items, claimed := none }
    | .claimItem item _ _, won => { g with claimed := if won then some item else none }
    | .sendMessage .., _ | .deleteItem _, _ => { g with claimed := none }
    | _, _ => g

variable {ι : Type}

abbrev LeaseConf (ι : Type) := Conf CloudOp CloudRes String Unit Region ι Leasing

def leasePool (ι : Type) :
    System CloudOp CloudRes String Region (CloudAnswer × Fault) ι Leasing where
  exec _ inp op r := cloudFault inp.1 inp.2 op r
  monitor := leaseMonitor

def Sweep.begin (s : Sweep) : Leasing where
  sweep := s
  page := []
  claimed := none

/-- Every sweep at its first query, over a given region. -/
def leaseStart (r : Region) (sweeps : ι → Sweep) : LeaseConf ι where
  shared := r
  rest i := (CloudJob.sweep (sweeps i).lang (sweeps i).now (sweeps i).pages).program
  view i := (sweeps i).begin

/-! ## What happened -/

/-- What a request of a sweep did: it claimed a row as it stood, sent a message, deleted a
row. -/
inductive Deed (ι : Type) where
  | claimed (i : ι) (row : SchedRow) (claimedAt : Int)
  | sent (i : ι) (m : Message)
  | deleted (i : ι) (key : String × String)

def Deed.doer : Deed ι → ι
  | .claimed i _ _ => i
  | .sent i _ => i
  | .deleted i _ => i

/-- What a request does where it takes effect. -/
def opDeed (i : ι) (r : Region) : CloudOp → Option (Deed ι)
  | .claimItem item nowSec leaseFloorSec =>
    (claimable (r.table item.row.key) leaseFloorSec).map fun found =>
      .claimed i found.row nowSec
  | .sendMessage (some m) _ => some (.sent i m)
  | .deleteItem item => some (.deleted i item.row.key)
  | _ => none

def deedOf (c : LeaseConf ι) (e : ι × (CloudAnswer × Fault)) : Option (Deed ι) :=
  if e.2.2 = .before then none else (c.rest e.1).head.bind (opDeed e.1 c.shared)

def noteDeed (h : List (Deed ι)) (c : LeaseConf ι) (e : ι × (CloudAnswer × Fault)) :
    List (Deed ι) :=
  h ++ (deedOf c e).toList

/-! ## The law -/

/-- The row without its lease. -/
def SchedRow.core (row : SchedRow) : SchedRow := { row with claimedAt := none }

theorem SchedRow.of_core {row row' : SchedRow} (h : row.core = row'.core) :
    row.key = row'.key ∧ row.writer = row'.writer ∧ row.message = row'.message := by
  unfold core at h
  injection h with hkey hwriter hmessage
  exact ⟨hkey, hwriter, hmessage⟩

/-- Every version of a row in the region, the one in the table included, comes from one write. -/
structure OneWrite (r : Region) : Prop where
  stored : ∀ key item, r.table key = some item → item ∈ r.versions ∧ item.row.key = key
  same : ∀ x ∈ r.versions, ∀ y ∈ r.versions, x.row.key = y.row.key → x.row.core = y.row.core

/-- Of what `i` did before entry `p`, entry `q` is the last, and it is a claim. -/
def Under (h : List (Deed ι)) (p : Nat) (i : ι) (q : Nat) (row : SchedRow) (claimedAt : Int) :
    Prop :=
  q < p ∧ h[q]? = some (.claimed i row claimedAt) ∧
    ∀ k d, q < k → k < p → h[k]? = some d → d.doer ≠ i

structure LeaseLaw (sweeps : ι → Sweep) (h : List (Deed ι)) : Prop where
  /-- Claims of a row lie more than a lease apart. -/
  apart : ∀ (q q' : Nat) i i' row row' claimedAt claimedAt', q < q' →
    h[q]? = some (.claimed i row claimedAt) → h[q']? = some (.claimed i' row' claimedAt') →
    row.key = row'.key → claimedAt + sweeperLeaseSeconds < claimedAt'
  /-- A message is sent by a sweep whose last deed was to claim the message's row. -/
  sent : ∀ (p : Nat) i m, h[p]? = some (.sent i m) →
    ∃ q row claimedAt, Under h p i q row claimedAt ∧ row.message = m
  /-- A claim is good for one message. -/
  once : ∀ (p p' : Nat) i m m' q row claimedAt,
    h[p]? = some (.sent i m) → h[p']? = some (.sent i m') → Under h p i q row claimedAt → Under h p' i q row claimedAt → p = p'
  /-- A row that was deleted is not claimed again. -/
  gone : ∀ (p q : Nat) i i' key row claimedAt, p < q → h[p]? = some (.deleted i key) →
    h[q]? = some (.claimed i' row claimedAt) → row.key ≠ key
  /-- Sweeps that send the same row have clocks more than a lease apart. -/
  exclusive : ∀ (p p' : Nat) i i' m m' q q' row row' claimedAt claimedAt', p ≠ p' →
    h[p]? = some (.sent i m) → h[p']? = some (.sent i' m') →
    Under h p i q row claimedAt → Under h p' i' q' row' claimedAt' → row.key = row'.key →
    1000 * sweeperLeaseSeconds < |(sweeps i).now - (sweeps i').now|

/-! ## The programs obey -/

/-- What sending a claimed item needs of the sweep that sends it. -/
def SendsOnce (lang : Lang) (send : Item → Cloud Unit) : Prop :=
  ∀ item g, g.sweep.lang = lang → g.claimed = some item →
    Obeys leaseMonitor (fun g' _ => g'.sweep = g.sweep ∧ g'.page = g.page) g (send item)

theorem sendClaimed_once : SendsOnce .ts sendClaimed := by
  intro item g hlang hclaimed
  refine (obeys_perform _ _ _).mpr ⟨?_, fun _ => ⟨rfl, rfl⟩⟩
  unfold Item.message
  split
  · rename_i hw
    exact ⟨item, hclaimed, rfl, hw.trans hlang.symm⟩
  · trivial

theorem goSendClaimed_once : SendsOnce .go goSendClaimed := by
  intro item g hlang hclaimed
  unfold goSendClaimed Item.message
  by_cases hw : item.row.writer = .go
  · rw [if_pos hw]
    refine (obeys_perform _ _ _).mpr ⟨?_, fun _ => ⟨rfl, rfl⟩⟩
    exact ⟨item, hclaimed, rfl, hw.trans hlang.symm⟩
  · rw [if_neg hw]
    trivial

section Obeys
variable {lang : Lang} {send : Item → Cloud Unit} (hsend : SendsOnce lang send) (sweep : Sweep)
  (hlang : sweep.lang = lang)
include hsend hlang

theorem sweepItem_leases (item : Item) (result : SweeperResult) {g : Leasing}
    (hs : g.sweep = sweep) (hg : item ∈ g.page) :
    Obeys leaseMonitor (fun g' _ => g'.sweep = sweep ∧ g'.page = g.page) g
      (sweepItem send sweep.nowSec (sweep.nowSec - sweeperLeaseSeconds) item result) := by
  unfold sweepItem
  split
  · exact ⟨hs, rfl⟩
  · refine obeys_perform_bind.mpr ⟨⟨hg, by rw [hs], rfl⟩, fun won => ?_⟩
    cases won with
    | false => exact ⟨hs, rfl⟩
    | true =>
      rw [if_pos rfl, obeys_bind]
      refine (hsend item { g with claimed := some item } (hs ▸ hlang) rfl).mono ?_
      intro g' _ h
      exact obeys_perform_bind.mpr ⟨trivial, fun _ => ⟨h.1.trans hs, h.2⟩⟩

theorem sweepItems_leases (items : List Item) (result : SweeperResult) {g : Leasing}
    (hs : g.sweep = sweep) (hg : ∀ item ∈ items, item ∈ g.page) :
    Obeys leaseMonitor (fun g' _ => g'.sweep = sweep) g
      (sweepItems send sweep.nowSec (sweep.nowSec - sweeperLeaseSeconds) items result) := by
  induction items generalizing result g with
  | nil => exact hs
  | cons item rest ih =>
    rw [sweepItems, obeys_bind]
    refine (sweepItem_leases hsend sweep hlang item result hs (hg item List.mem_cons_self)).mono ?_
    intro g' result' hg'
    refine ih result' hg'.1 fun x hx => ?_
    rw [hg'.2]
    exact hg x (List.mem_cons_of_mem _ hx)

theorem sweepPages_leases (pages : Nat) (key : Option String) (result : SweeperResult)
    {g : Leasing} (hs : g.sweep = sweep) :
    Obeys leaseMonitor (fun _ _ => True) g
      (sweepPages send sweep.nowSec (sweep.nowSec - sweeperLeaseSeconds) pages key result) := by
  induction pages generalizing key result g with
  | zero => trivial
  | succ pages ih =>
    refine obeys_perform_bind.mpr ⟨trivial, fun page => ?_⟩
    rw [obeys_bind]
    refine (sweepItems_leases hsend sweep hlang page.items result
      (g := { g with page := page.items, claimed := none }) hs fun item hi => hi).mono ?_
    intro g' result' hg'
    cases page.lastEvaluatedKey with
    | none => trivial
    | some key => exact ih (some key) result' hg'

end Obeys

theorem leaseStart_obeyed (r : Region) (sweeps : ι → Sweep) :
    (leasePool ι).Obeyed (fun _ _ => True) (leaseStart r sweeps) := by
  intro i
  show Obeys leaseMonitor _ (sweeps i).begin
    (CloudJob.sweep (sweeps i).lang (sweeps i).now (sweeps i).pages).program
  generalize sweeps i = sweep
  obtain ⟨lang, now, pages⟩ := sweep
  cases lang with
  | ts =>
    refine (obeys_bind _ _ _).mpr ?_
    exact (sweepPages_leases sendClaimed_once ⟨.ts, now, pages⟩ rfl pages none _
      rfl).mono fun _ _ _ => trivial
  | go =>
    refine (obeys_bind _ _ _).mpr ?_
    exact (sweepPages_leases goSendClaimed_once ⟨.go, now, pages⟩ rfl pages none _
      rfl).mono fun _ _ _ => trivial

/-! ## The rows -/

/-- The rows after the deeds so far. -/
structure RowsSound (sweeps : ι → Sweep) (h : List (Deed ι)) (r : Region) : Prop where
  oneWrite : OneWrite r
  made : ∀ i row claimedAt, .claimed i row claimedAt ∈ h → claimedAt = (sweeps i).nowSec ∧
    (∃ x ∈ r.versions, x.row.core = row.core) ∧
    ∀ item, r.table row.key = some item → ∃ last, item.row.claimedAt = some last ∧ claimedAt ≤ last
  deleted : ∀ i key, .deleted i key ∈ h → r.table key = none
  apart : h.Pairwise fun d d' => ∀ i i' row row' claimedAt claimedAt',
    d = .claimed i row claimedAt → d' = .claimed i' row' claimedAt' → row.key = row'.key →
    claimedAt + sweeperLeaseSeconds < claimedAt'
  gone : h.Pairwise fun d d' => ∀ i i' key row claimedAt,
    d = .deleted i key → d' = .claimed i' row claimedAt → row.key ≠ key

theorem pairwise_concat {α : Type} {R : α → α → Prop} {l : List α} {a : α} (h : l.Pairwise R)
    (ha : ∀ x ∈ l, R x a) : (l ++ [a]).Pairwise R := by
  refine List.pairwise_append.mpr ⟨h, List.pairwise_singleton R a, fun x hx y hy => ?_⟩
  rw [List.mem_singleton.mp hy]
  exact ha x hx

theorem claimable_some {found : Option Item} {leaseFloorSec : Int} {item : Item}
    (h : claimable found leaseFloorSec = some item) :
    found = some item ∧ ∀ last, item.row.claimedAt = some last → last < leaseFloorSec := by
  obtain ⟨hfound, hlease⟩ := Option.filter_eq_some_iff.mp h
  refine ⟨hfound, fun last hlast => ?_⟩
  rw [hlast] at hlease
  simpa using hlease

section Rows
variable {sweeps : ι → Sweep} {h : List (Deed ι)} {r : Region}

/-- A claim of the row as it stands comes a lease after every claim before it. -/
theorem RowsSound.claim (hs : RowsSound sweeps h r) {i : ι} {key : String × String}
    {nowSec : Int} (hnow : nowSec = (sweeps i).nowSec) {found : Item}
    (hclaim : claimable (r.table key) (nowSec - sweeperLeaseSeconds) = some found) :
    RowsSound sweeps (h ++ [.claimed i found.row nowSec])
      (r.store key { found with row := { found.row with claimedAt := some nowSec } }) := by
  obtain ⟨hfound, hlease⟩ := claimable_some hclaim
  obtain ⟨hmem, hkey⟩ := hs.oneWrite.stored key found hfound
  -- The row's lease covers every claim of it so far.
  have hbefore : ∀ i' row claimedAt, .claimed i' row claimedAt ∈ h → row.key = key →
      claimedAt + sweeperLeaseSeconds < nowSec := by
    intro i' row claimedAt hd hrow
    obtain ⟨-, -, hlast⟩ := hs.made i' row claimedAt hd
    obtain ⟨last, hlast, hle⟩ := hlast found (hrow ▸ hfound)
    have := hlease last hlast
    omega
  constructor
  · constructor
    · intro key' item hitem
      by_cases hk : key' = key
      · subst hk
        cases (r.store_self _ _).symm.trans hitem
        exact ⟨List.mem_append_right _ (List.mem_singleton.mpr rfl), hkey⟩
      · obtain ⟨hv, hk'⟩ := hs.oneWrite.stored key' item ((r.store_other hk _).symm.trans hitem)
        exact ⟨List.mem_append_left _ hv, hk'⟩
    · have hold : ∀ x ∈ r.versions ++ [{ found with row :=
          { found.row with claimedAt := some nowSec } }], ∃ y ∈ r.versions,
          y.row.key = x.row.key ∧ y.row.core = x.row.core := by
        intro x hx
        rcases List.mem_append.mp hx with hx | hx
        · exact ⟨x, hx, rfl, rfl⟩
        · rw [List.mem_singleton.mp hx]
          exact ⟨found, hmem, rfl, rfl⟩
      intro x hx y hy hxy
      obtain ⟨x', hx', hxkey, hxcore⟩ := hold x hx
      obtain ⟨y', hy', hykey, hycore⟩ := hold y hy
      rw [← hxcore, ← hycore]
      exact hs.oneWrite.same x' hx' y' hy' (hxkey.trans (hxy.trans hykey.symm))
  · intro i' row claimedAt hd
    rcases List.mem_append.mp hd with hd | hd
    · obtain ⟨hat, ⟨x, hx, hcore⟩, hlast⟩ := hs.made i' row claimedAt hd
      refine ⟨hat, ⟨x, List.mem_append_left _ hx, hcore⟩, fun item hitem => ?_⟩
      by_cases hk : row.key = key
      · rw [hk] at hitem
        cases (r.store_self _ _).symm.trans hitem
        have := hbefore i' row claimedAt hd hk
        have hpos : 0 < sweeperLeaseSeconds := by decide
        exact ⟨nowSec, rfl, by omega⟩
      · exact hlast item ((r.store_other hk _).symm.trans hitem)
    · cases List.mem_singleton.mp hd
      refine ⟨hnow, ⟨found, List.mem_append_left _ hmem, rfl⟩, fun item hitem => ?_⟩
      rw [hkey] at hitem
      cases (r.store_self _ _).symm.trans hitem
      exact ⟨nowSec, rfl, le_rfl⟩
  · intro i' key' hd
    have hd' : .deleted i' key' ∈ h := by
      rcases List.mem_append.mp hd with hd | hd
      · exact hd
      · cases List.mem_singleton.mp hd
    have hnone := hs.deleted i' key' hd'
    have hk : key' ≠ key := by
      intro hk
      rw [hk, hfound] at hnone
      cases hnone
    exact (r.store_other hk _).trans hnone
  · refine pairwise_concat hs.apart ?_
    intro d hd i₁ i₂ row row' claimedAt claimedAt' heq heq' hrow
    subst heq
    cases heq'
    exact hbefore i₁ row claimedAt hd (hrow.trans hkey)
  · refine pairwise_concat hs.gone ?_
    intro d hd i₁ i₂ key' row claimedAt heq heq' hrow
    subst heq
    cases heq'
    have hnone := hs.deleted i₁ key' hd
    rw [← hrow, hkey, hfound] at hnone
    cases hnone

theorem RowsSound.send (hs : RowsSound sweeps h r) (i : ι) (m : Message) (log : List Happened) :
    RowsSound sweeps (h ++ [.sent i m]) { r with log := log } := by
  have hold : ∀ d, (∀ i' m', d ≠ .sent i' m') → d ∈ h ++ [.sent i m] → d ∈ h := by
    intro d hne hd
    rcases List.mem_append.mp hd with hd | hd
    · exact hd
    · exact absurd (List.mem_singleton.mp hd) (hne i m)
  constructor
  · exact ⟨hs.oneWrite.stored, hs.oneWrite.same⟩
  · intro i' row claimedAt hd
    exact hs.made i' row claimedAt (hold _ (fun _ _ h => by cases h) hd)
  · intro i' key hd
    exact hs.deleted i' key (hold _ (fun _ _ h => by cases h) hd)
  · refine pairwise_concat hs.apart ?_
    intro d _ _ _ _ _ _ _ _ heq
    cases heq
  · refine pairwise_concat hs.gone ?_
    intro d _ _ _ _ _ _ _ heq
    cases heq

theorem RowsSound.delete (hs : RowsSound sweeps h r) (i : ι) (key : String × String) :
    RowsSound sweeps (h ++ [.deleted i key])
      { r with table := Function.update r.table key none } := by
  have hstill : ∀ key' item, Function.update r.table key none key' = some item →
      r.table key' = some item := by
    intro key' item hitem
    by_cases hk : key' = key
    · rw [hk, Function.update_self] at hitem
      cases hitem
    · rwa [Function.update_of_ne hk] at hitem
  constructor
  · exact ⟨fun key' item hitem => hs.oneWrite.stored key' item (hstill key' item hitem),
      hs.oneWrite.same⟩
  · intro i' row claimedAt hd
    rcases List.mem_append.mp hd with hd | hd
    · obtain ⟨hat, hv, hlast⟩ := hs.made i' row claimedAt hd
      exact ⟨hat, hv, fun item hitem => hlast item (hstill _ item hitem)⟩
    · cases List.mem_singleton.mp hd
  · intro i' key' hd
    by_cases hk : key' = key
    · simp only [hk, Function.update_self]
    · rcases List.mem_append.mp hd with hd | hd
      · simp only [Function.update_of_ne hk]
        exact hs.deleted i' key' hd
      · cases List.mem_singleton.mp hd
        exact absurd rfl hk
  · refine pairwise_concat hs.apart ?_
    intro d _ _ _ _ _ _ _ _ heq
    cases heq
  · refine pairwise_concat hs.gone ?_
    intro d _ _ _ _ _ _ _ heq
    cases heq

/-- Every allowed request keeps the rows sound. -/
theorem RowsSound.exec (hs : RowsSound sweeps h r) {i : ι} {g : Leasing}
    (hg : g.sweep = sweeps i) {op : CloudOp} (hal : leaseMonitor.allows g op) (a : CloudAnswer) :
    RowsSound sweeps (h ++ (opDeed i r op).toList) (cloudExec a op r).2 := by
  cases op with
  | now => simpa [opDeed, cloudExec] using hs
  | query nowSec key => simpa [opDeed, cloudExec] using hs
  | putItem row => exact absurd hal id
  | sendMessage body delaySeconds =>
    cases body with
    | none => simpa [opDeed, cloudExec] using hs
    | some m => exact hs.send i m _
  | deleteItem item => exact hs.delete i item.row.key
  | claimItem item nowSec leaseFloorSec =>
    obtain ⟨-, hnow, hfloor⟩ := hal
    subst hfloor
    simp only [opDeed, cloudExec]
    cases hc : claimable (r.table item.row.key) (nowSec - sweeperLeaseSeconds) with
    | none => simpa using hs
    | some found => exact hs.claim (hnow.trans (by rw [hg])) hc

end Rows

/-! ## The sweeps -/

theorem opDeed_doer {i : ι} {r : Region} {op : CloudOp} {d : Deed ι}
    (h : opDeed i r op = some d) : d.doer = i := by
  cases op with
  | claimItem item nowSec leaseFloorSec =>
    obtain ⟨found, -, rfl⟩ := Option.map_eq_some_iff.mp h
    rfl
  | sendMessage body delaySeconds =>
    cases body with
    | none => cases h
    | some m =>
      cases h
      rfl
  | deleteItem item =>
    cases h
    rfl
  | now => cases h
  | query => cases h
  | putItem row => cases h

theorem cloudExec_versions (a : CloudAnswer) (op : CloudOp) (r : Region) {item : Item}
    (h : item ∈ r.versions) : item ∈ (cloudExec a op r).2.versions := by
  cases op with
  | claimItem item' nowSec leaseFloorSec =>
    simp only [cloudExec]
    split
    · exact h
    · exact List.mem_append_left _ h
  | sendMessage body delaySeconds => cases body <;> exact h
  | putItem row => exact List.mem_append_left _ h
  | now => exact h
  | query => exact h
  | deleteItem => exact h

theorem deedOf_doer {c : LeaseConf ι} {e : ι × (CloudAnswer × Fault)} {d : Deed ι}
    (h : deedOf c e = some d) : d.doer = e.1 := by
  unfold deedOf at h
  split at h
  · cases h
  · obtain ⟨op, -, hop⟩ := Option.bind_eq_some_iff.mp h
    exact opDeed_doer hop

section Sweeps
variable [DecidableEq ι]

/-- The last thing that `i` did. -/
def lastBy (i : ι) (h : List (Deed ι)) : Option (Deed ι) := (h.filter (·.doer = i)).getLast?

theorem lastBy_concat (i : ι) (h : List (Deed ι)) (d : Deed ι) :
    lastBy i (h ++ [d]) = if d.doer = i then some d else lastBy i h := by
  unfold lastBy
  rw [List.filter_append]
  by_cases hd : d.doer = i <;> simp [hd]

theorem lastBy_take {h : List (Deed ι)} {p : Nat} {i : ι} {row : SchedRow} {claimedAt : Int} :
    lastBy i (h.take p) = some (.claimed i row claimedAt) ↔ ∃ q, Under h p i q row claimedAt := by
  induction p with
  | zero =>
    refine ⟨fun hl => ?_, fun hu => ?_⟩
    · simp [lastBy] at hl
    · obtain ⟨q, hq, -⟩ := hu
      omega
  | succ p ih =>
    rw [List.take_add_one]
    cases hp : h[p]? with
    | none =>
      rw [Option.toList_none, List.append_nil, ih]
      refine exists_congr fun q => ?_
      have hne : q = p → h[q]? ≠ some (.claimed i row claimedAt) := by
        rintro rfl
        simp [hp]
      unfold Under
      constructor
      · intro ⟨hq, hc, hno⟩
        refine ⟨by omega, hc, fun k d hqk hkp hk => ?_⟩
        have : k ≠ p := by
          rintro rfl
          simp [hp] at hk
        exact hno k d hqk (by omega) hk
      · intro ⟨hq, hc, hno⟩
        have : q ≠ p := fun he => hne he hc
        exact ⟨by omega, hc, fun k d hqk hkp hk => hno k d hqk (by omega) hk⟩
    | some d =>
      rw [Option.toList_some, lastBy_concat]
      by_cases hd : d.doer = i
      · rw [if_pos hd]
        constructor
        · intro he
          refine ⟨p, by omega, hp.trans he, fun k d' hqk hkp _ => by omega⟩
        · intro ⟨q, hq, hc, hno⟩
          by_cases hqp : q = p
          · subst hqp
            exact hp.symm.trans hc
          · exact absurd hd (hno p d (by omega) (by omega) hp)
      · rw [if_neg hd, ih]
        refine exists_congr fun q => ?_
        unfold Under
        constructor
        · intro ⟨hq, hc, hno⟩
          refine ⟨by omega, hc, fun k d' hqk hkp hk => ?_⟩
          by_cases hkp' : k = p
          · subst hkp'
            rw [hp] at hk
            cases hk
            exact hd
          · exact hno k d' hqk (by omega) hk
        · intro ⟨hq, hc, hno⟩
          have hqp : q ≠ p := by
            rintro rfl
            rw [hp] at hc
            cases hc
            exact hd rfl
          exact ⟨by omega, hc, fun k d' hqk hkp hk => hno k d' hqk (by omega) hk⟩

structure LeaseSound (sweeps : ι → Sweep) (h : List (Deed ι)) (c : LeaseConf ι) : Prop where
  obeyed : (leasePool ι).Obeyed (fun _ _ => True) c
  rows : RowsSound sweeps h c.shared
  begun : ∀ i, (c.view i).sweep = sweeps i
  read : ∀ i, ∀ item ∈ (c.view i).page, item ∈ c.shared.versions
  /-- A sweep that goes on and holds a claim did nothing since. -/
  held : ∀ i item, (c.rest i).head ≠ none → (c.view i).claimed = some item →
    ∃ row, lastBy i h = some (.claimed i row (sweeps i).nowSec) ∧ row.core = item.row.core
  sent : ∀ (p : Nat) i m, h[p]? = some (.sent i m) →
    ∃ row, lastBy i (h.take p) = some (.claimed i row (sweeps i).nowSec) ∧ row.message = m ∧
      row.writer = (sweeps i).lang

theorem leaseStart_sound {r : Region} (hr : OneWrite r) (sweeps : ι → Sweep) :
    LeaseSound sweeps [] (leaseStart r sweeps) where
  obeyed := leaseStart_obeyed r sweeps
  rows := ⟨hr, fun _ _ _ hd => (by cases hd), fun _ _ hd => (by cases hd), .nil, .nil⟩
  begun _ := rfl
  read _ _ hi := by cases hi
  held _ _ _ hi := by cases hi
  sent _ _ _ hp := by cases hp

theorem lastBy_note_other (h : List (Deed ι)) (c : LeaseConf ι) {e : ι × (CloudAnswer × Fault)}
    {j : ι} (hj : j ≠ e.1) : lastBy j (noteDeed h c e) = lastBy j h := by
  unfold noteDeed
  cases hd : deedOf c e with
  | none => rw [Option.toList_none, List.append_nil]
  | some d =>
    rw [Option.toList_some, lastBy_concat, if_neg]
    rw [deedOf_doer hd]
    exact hj.symm

section Step
variable {sweeps : ι → Sweep} {h : List (Deed ι)} {c : LeaseConf ι} {i : ι} {a : CloudAnswer}
  {f : Fault} {op : CloudOp} {k : CloudRes op → Cloud Unit}

omit [DecidableEq ι] in
theorem noteDeed_of_call (hc : c.rest i = .call op k) (hf : f ≠ .before) :
    noteDeed h c (i, a, f) = h ++ (opDeed i c.shared op).toList := by
  simp only [noteDeed, deedOf, if_neg hf, hc, Prog.head, Option.bind_some]

omit [DecidableEq ι] in
theorem noteDeed_of_before : noteDeed h c (i, a, .before) = h := by
  simp [noteDeed, deedOf]

theorem LeaseSound.rows_step (hs : LeaseSound sweeps h c) (hc : c.rest i = .call op k) :
    RowsSound sweeps (noteDeed h c (i, a, f)) (cloudFault a f op c.shared).2 := by
  have hexec := hs.rows.exec (hs.begun i) (hs.obeyed.allows hc) a
  cases f with
  | before =>
    rw [noteDeed_of_before]
    exact hs.rows
  | none =>
    rw [noteDeed_of_call hc (by decide)]
    exact hexec
  | after =>
    rw [noteDeed_of_call hc (by decide)]
    exact hexec

omit [DecidableEq ι] in
theorem deedOf_sent {j : ι} {m : Message} (hc : c.rest i = .call op k)
    (hd : deedOf c (i, a, f) = some (.sent j m)) :
    j = i ∧ ∃ delaySeconds, op = .sendMessage (some m) delaySeconds := by
  refine ⟨deedOf_doer hd, ?_⟩
  unfold deedOf at hd
  split at hd
  · cases hd
  · rw [hc] at hd
    cases op with
    | claimItem item nowSec leaseFloorSec =>
      obtain ⟨found, -, hx⟩ := Option.map_eq_some_iff.mp hd
      cases hx
    | sendMessage body delaySeconds =>
      cases body with
      | none => cases hd
      | some m' =>
        cases hd
        exact ⟨_, rfl⟩
    | deleteItem item => cases hd
    | now => cases hd
    | query => cases hd
    | putItem row => cases hd

/-- A message that is sent was claimed by its sender right before. -/
theorem LeaseSound.sent_step (hs : LeaseSound sweeps h c) (hc : c.rest i = .call op k)
    {p : Nat} {j : ι} {m : Message} (hp : (noteDeed h c (i, a, f))[p]? = some (.sent j m)) :
    ∃ row, lastBy j ((noteDeed h c (i, a, f)).take p) =
        some (.claimed j row (sweeps j).nowSec) ∧ row.message = m ∧
      row.writer = (sweeps j).lang := by
  by_cases hlt : p < h.length
  · have hold : h[p]? = some (.sent j m) := by
      rw [← hp, noteDeed, List.getElem?_append_left hlt]
    rw [noteDeed, List.take_append_of_le_length hlt.le]
    exact hs.sent p j m hold
  · rw [noteDeed, List.getElem?_append_right (Nat.le_of_not_lt hlt)] at hp
    cases hd : deedOf c (i, a, f) with
    | none =>
      rw [hd] at hp
      cases hp
    | some d =>
      rw [hd, Option.toList_some] at hp
      have hlen : p = h.length := by
        have := (List.getElem?_eq_some_iff.mp hp).1
        simp only [List.length_singleton] at this
        omega
      rw [hlen, Nat.sub_self] at hp
      cases hp
      obtain ⟨rfl, delaySeconds, rfl⟩ := deedOf_sent hc hd
      obtain ⟨item, hclaimed, hm, hw⟩ := hs.obeyed.allows hc
      obtain ⟨row, hlast, hcore⟩ := hs.held j item (by rw [hc]; simp [Prog.head]) hclaimed
      refine ⟨row, ?_, ?_, ?_⟩
      · rw [noteDeed, hlen, List.take_left]
        exact hlast
      · rw [← hm]
        exact (SchedRow.of_core hcore).2.2
      · rw [← hs.begun j, ← hw]
        exact (SchedRow.of_core hcore).2.1

/-- What a sweep holds after an answer. -/
theorem LeaseSound.held_step (hs : LeaseSound sweeps h c) (hc : c.rest i = .call op k)
    {res : CloudRes op} (hx : (cloudExec a op c.shared).1 = .ok res) {item : Item}
    (hitem : (leaseMonitor.next (c.view i) op res).claimed = some item) :
    ∃ row, lastBy i (noteDeed h c (i, a, .none)) =
        some (.claimed i row (sweeps i).nowSec) ∧ row.core = item.row.core := by
  have hal := hs.obeyed.allows hc
  rw [noteDeed_of_call hc (by decide)]
  cases op with
  | now =>
    obtain ⟨row, hlast, hcore⟩ := hs.held i item (by rw [hc]; simp [Prog.head]) hitem
    exact ⟨row, by simpa [opDeed] using hlast, hcore⟩
  | query nowSec key => cases hitem
  | putItem row => exact absurd hal id
  | sendMessage body delaySeconds => cases hitem
  | deleteItem item' => cases hitem
  | claimItem item' nowSec leaseFloorSec =>
    obtain ⟨hpage, hnow, -⟩ := hal
    cases res with
    | false => cases hitem
    | true =>
      cases hitem
      simp only [cloudExec] at hx
      cases hclaim : claimable (c.shared.table item.row.key) leaseFloorSec with
      | none =>
        rw [hclaim] at hx
        cases hx
      | some found =>
        obtain ⟨hfound, -⟩ := claimable_some hclaim
        obtain ⟨hmem, hkey⟩ := hs.rows.oneWrite.stored _ _ hfound
        refine ⟨found.row, ?_, hs.rows.oneWrite.same _ hmem _ (hs.read i item hpage) hkey⟩
        rw [opDeed, hclaim, Option.map_some, Option.toList_some, lastBy_concat, hnow, hs.begun i]
        exact if_pos rfl

/-- What a sweep has read after an answer. -/
theorem LeaseSound.read_step (hs : LeaseSound sweeps h c) {res : CloudRes op}
    (hx : (cloudExec a op c.shared).1 = .ok res) {item : Item}
    (hitem : item ∈ (leaseMonitor.next (c.view i) op res).page) : item ∈ c.shared.versions := by
  cases op with
  | query nowSec key =>
    cases hx
    obtain ⟨n, -, hn⟩ := List.mem_filterMap.mp (List.mem_of_mem_filter hitem)
    exact List.mem_of_getElem? hn
  | now => exact hs.read i item hitem
  | putItem row => exact hs.read i item hitem
  | sendMessage body delaySeconds => exact hs.read i item hitem
  | deleteItem item' => exact hs.read i item hitem
  | claimItem item' nowSec leaseFloorSec => exact hs.read i item hitem

theorem leaseMonitor_sweep (g : Leasing) (op : CloudOp) (res : CloudRes op) :
    (leaseMonitor.next g op res).sweep = g.sweep := by
  cases op <;> rfl

end Step

theorem LeaseSound.step {sweeps : ι → Sweep} {h : List (Deed ι)} {c : LeaseConf ι}
    {e : ι × (CloudAnswer × Fault)} (hs : LeaseSound sweeps h c) :
    LeaseSound sweeps (noteDeed h c e) ((leasePool ι).step c e) := by
  obtain ⟨i, a, f⟩ := e
  obtain ⟨hstep, hhead⟩ | ⟨op, k, hc, hcase⟩ := System.step_cases (S := leasePool ι) c i (a, f)
  · have hnone : noteDeed h c (i, a, f) = h := by simp [noteDeed, deedOf, hhead]
    rw [hstep, hnone]
    exact hs
  · -- The region, whatever the answer.
    have hrows : RowsSound sweeps (noteDeed h c (i, a, f)) (cloudFault a f op c.shared).2 :=
      hs.rows_step hc
    have hkept : ∀ item ∈ c.shared.versions, item ∈ (cloudFault a f op c.shared).2.versions := by
      intro item hitem
      cases f with
      | none => exact cloudExec_versions a op _ hitem
      | before => exact hitem
      | after => exact cloudExec_versions a op _ hitem
    have hother : ∀ j item, j ≠ i → (c.rest j).head ≠ none → (c.view j).claimed = some item →
        ∃ row, lastBy j (noteDeed h c (i, a, f)) = some (.claimed j row (sweeps j).nowSec) ∧
          row.core = item.row.core := by
      intro j item hj hgoes hclaimed
      rw [lastBy_note_other h c hj]
      exact hs.held j item hgoes hclaimed
    have hobeyed := hs.obeyed.step (e := (i, a, f))
    obtain ⟨res, s, hx, hstep⟩ | ⟨x, s, hx, hstep⟩ := hcase
    · have hx : cloudFault a f op c.shared = (.ok res, s) := hx
      obtain ⟨hok, rfl⟩ := cloudFault_ok hx
      obtain rfl : f = .none := by
        cases f with
        | none => rfl
        | before => cases hx
        | after => cases hx
      rw [hstep] at hobeyed ⊢
      refine ⟨hobeyed, hrows, fun j => ?_, fun j item hitem => ?_, fun j item hgoes hitem => ?_,
        fun p j m hp => hs.sent_step hc hp⟩
      · by_cases hj : j = i
        · subst hj
          simp only [Function.update_self]
          exact (leaseMonitor_sweep _ _ _).trans (hs.begun j)
        · simp only [Function.update_of_ne hj]
          exact hs.begun j
      · by_cases hj : j = i
        · subst hj
          simp only [Function.update_self] at hitem
          exact hkept item (hs.read_step hok hitem)
        · simp only [Function.update_of_ne hj] at hitem
          exact hkept item (hs.read j item hitem)
      · by_cases hj : j = i
        · subst hj
          simp only [Function.update_self] at hitem
          exact hs.held_step hc hok hitem
        · simp only [Function.update_of_ne hj] at hgoes hitem
          exact hother j item hj hgoes hitem
    · have hx : cloudFault a f op c.shared = (.error x, s) := hx
      have hshared : s = (cloudFault a f op c.shared).2 := by rw [hx]
      subst hshared
      rw [hstep] at hobeyed ⊢
      refine ⟨hobeyed, hrows, hs.begun, fun j item hitem => hkept item (hs.read j item hitem),
        fun j item hgoes hitem => ?_, fun p j m hp => hs.sent_step hc hp⟩
      by_cases hj : j = i
      · subst hj
        simp only [Function.update_self] at hgoes
        exact absurd rfl hgoes
      · simp only [Function.update_of_ne hj] at hgoes
        exact hother j item hj hgoes hitem

/-! ## The law holds -/

/-- Clocks within a lease are within a lease in whole seconds. -/
theorem seconds_near (lang : Lang) {t t' : Time} (h : t - t' ≤ 1000 * sweeperLeaseSeconds) :
    seconds lang t ≤ seconds lang t' + sweeperLeaseSeconds := by
  have hshift : secondStart lang (seconds lang t - sweeperLeaseSeconds) ≤
      secondStart lang (seconds lang t) - 1000 * sweeperLeaseSeconds := by
    cases lang with
    | ts =>
      simp only [secondStart, sweeperLeaseSeconds]
      omega
    | go =>
      simp only [secondStart, sweeperLeaseSeconds]
      split_ifs <;> omega
  have hstart : (secondStart lang (seconds lang t) : Time) ≤ t :=
    (secondStart_seconds lang).l_u_le t
  have hle : (secondStart lang (seconds lang t - sweeperLeaseSeconds) : Time) ≤ t' := by
    have hcast : (secondStart lang (seconds lang t - sweeperLeaseSeconds) : Time) ≤
        secondStart lang (seconds lang t) - 1000 * sweeperLeaseSeconds := by exact_mod_cast hshift
    linarith
  have := (secondStart_seconds lang _ _).mp hle
  omega

omit [DecidableEq ι] in
theorem Under.eq_of_sent {h : List (Deed ι)} {p p' q : Nat} {i : ι} {m m' : Message}
    {row : SchedRow} {claimedAt : Int} (hp : h[p]? = some (.sent i m))
    (hp' : h[p']? = some (.sent i m')) (hu : Under h p i q row claimedAt)
    (hu' : Under h p' i q row claimedAt) : p = p' := by
  by_contra hne
  rcases Nat.lt_or_gt_of_ne hne with hlt | hlt
  · exact hu'.2.2 p _ hu.1 hlt hp rfl
  · exact hu.2.2 p' _ hu'.1 hlt hp' rfl

/-- The claim a message was sent under: when it was made, and for whom. -/
theorem LeaseSound.claim_of_sent {sweeps : ι → Sweep} {h : List (Deed ι)} {c : LeaseConf ι}
    (hs : LeaseSound sweeps h c) {p q : Nat} {i : ι} {m : Message} {row : SchedRow}
    {claimedAt : Int} (hp : h[p]? = some (.sent i m)) (hu : Under h p i q row claimedAt) :
    claimedAt = (sweeps i).nowSec ∧ row.writer = (sweeps i).lang := by
  obtain ⟨row', hlast, -, hw⟩ := hs.sent p i m hp
  have hsame := (lastBy_take.mpr ⟨q, hu⟩).symm.trans hlast
  cases hsame
  exact ⟨rfl, hw⟩

theorem LeaseSound.law {sweeps : ι → Sweep} {h : List (Deed ι)} {c : LeaseConf ι}
    (hs : LeaseSound sweeps h c) : LeaseLaw sweeps h := by
  have hapart : ∀ (q q' : Nat) i i' row row' claimedAt claimedAt', q < q' →
      h[q]? = some (.claimed i row claimedAt) → h[q']? = some (.claimed i' row' claimedAt') →
      row.key = row'.key → claimedAt + sweeperLeaseSeconds < claimedAt' := by
    intro q q' i i' row row' claimedAt claimedAt' hlt hq hq' hkey
    obtain ⟨hq, heq⟩ := List.getElem?_eq_some_iff.mp hq
    obtain ⟨hq', heq'⟩ := List.getElem?_eq_some_iff.mp hq'
    exact List.pairwise_iff_getElem.mp hs.rows.apart q q' hq hq' hlt i i' row row' claimedAt
      claimedAt' heq heq' hkey
  refine ⟨hapart, ?_, ?_, ?_, ?_⟩
  · intro p i m hp
    obtain ⟨row, hlast, hm, -⟩ := hs.sent p i m hp
    obtain ⟨q, hq⟩ := lastBy_take.mp hlast
    exact ⟨q, row, _, hq, hm⟩
  · intro p p' i m m' q row claimedAt hp hp' hu hu'
    exact hu.eq_of_sent hp hp' hu'
  · intro p q i i' key row claimedAt hlt hp hq
    obtain ⟨hp, heq⟩ := List.getElem?_eq_some_iff.mp hp
    obtain ⟨hq, heq'⟩ := List.getElem?_eq_some_iff.mp hq
    exact List.pairwise_iff_getElem.mp hs.rows.gone p q hp hq hlt i i' key row claimedAt heq heq'
  · intro p p' i i' m m' q q' row row' claimedAt claimedAt' hne hp hp' hu hu' hkey
    obtain ⟨hat, hlang⟩ := hs.claim_of_sent hp hu
    obtain ⟨hat', hlang'⟩ := hs.claim_of_sent hp' hu'
    have hwriter : row.writer = row'.writer := by
      obtain ⟨-, ⟨x, hx, hxcore⟩, -⟩ := hs.rows.made i row claimedAt (List.mem_of_getElem? hu.2.1)
      obtain ⟨-, ⟨y, hy, hycore⟩, -⟩ :=
        hs.rows.made i' row' claimedAt' (List.mem_of_getElem? hu'.2.1)
      have hxy : x.row.key = y.row.key := by
        rw [(SchedRow.of_core hxcore).1, (SchedRow.of_core hycore).1]
        exact hkey
      have hsame := hs.rows.oneWrite.same x hx y hy hxy
      exact (SchedRow.of_core (hxcore.symm.trans (hsame.trans hycore))).2.1
    have hdistinct : q ≠ q' := by
      intro hq
      subst hq
      have hclaims := hu.2.1.symm.trans hu'.2.1
      cases hclaims
      exact hne (hu.eq_of_sent hp hp' hu')
    by_contra hnear
    obtain ⟨hlow, hhigh⟩ := abs_le.mp (not_lt.mp hnear)
    have hsec : (sweeps i).nowSec ≤ (sweeps i').nowSec + sweeperLeaseSeconds := by
      unfold Sweep.nowSec
      rw [← hlang, ← hlang', hwriter]
      exact seconds_near _ hhigh
    have hsec' : (sweeps i').nowSec ≤ (sweeps i).nowSec + sweeperLeaseSeconds := by
      unfold Sweep.nowSec
      rw [← hlang, ← hlang', hwriter]
      exact seconds_near _ (by linarith)
    rcases Nat.lt_or_gt_of_ne hdistinct with hlt | hlt
    · have := hapart q q' i i' row row' claimedAt claimedAt' hlt hu.2.1 hu'.2.1 hkey
      omega
    · have := hapart q' q i' i row' row claimedAt' claimedAt hlt hu'.2.1 hu.2.1 hkey.symm
      omega

/-- **The lease excludes.** However any number of sweeps are interleaved over rows that no
one rewrites: claims of a row lie more than a lease apart, a message is sent only under a
claim of its row and once for it, no claim brings a deleted row back, and two sweeps whose
clocks are within a lease of each other do not both send a row. -/
theorem lease_exclusion (r : Region) (hr : OneWrite r) (sweeps : ι → Sweep)
    (es : List (ι × (CloudAnswer × Fault))) :
    LeaseLaw sweeps ((leasePool ι).noted noteDeed [] (leaseStart r sweeps) es) ∧
      ∀ i key, .deleted i key ∈ (leasePool ι).noted noteDeed [] (leaseStart r sweeps) es →
        ((leasePool ι).run (leaseStart r sweeps) es).shared.table key = none := by
  have hs : LeaseSound sweeps ((leasePool ι).noted noteDeed [] (leaseStart r sweeps) es)
      ((leasePool ι).run (leaseStart r sweeps) es) :=
    System.noted_invariant (fun h c e hs => hs.step) (leaseStart_sound hr sweeps)
  exact ⟨hs.law, hs.rows.deleted⟩

end Sweeps

/-! ## Two sweeps a minute apart -/

theorem withRow_oneWrite (lang : Lang) (m : Message) (atMs : Time) :
    OneWrite (withRow lang m atMs) where
  stored key item h := by
    by_cases hk : key = (schedRow lang m atMs).key
    · subst hk
      cases (Region.store_self .empty _ _).symm.trans h
      exact ⟨List.mem_singleton.mpr rfl, rfl⟩
    · cases (Region.store_other .empty hk _).symm.trans h
  same x hx y hy _ := by
    rw [List.mem_singleton.mp hx, List.mem_singleton.mp hy]

def minuteApart : Fin 2 → Sweep
  | 0 => { lang := .ts, now := 1000000, pages := 1 }
  | 1 => { lang := .ts, now := 1060000, pages := 1 }

/-- Both find the row before either claims it; the other one's claim fails. -/
def sweptByTurns : List (Fin 2 × (CloudAnswer × Fault)) :=
  [0, 1, 0, 1, 0, 0].map fun i => (i, firstRow 0, .none)

theorem minuteApart_lease :
    ((leasePool (Fin 2)).noted noteDeed []
        (leaseStart (withRow .ts (messageFor "msg_a") 1000000) minuteApart) sweptByTurns).map
          Deed.doer = [0, 0, 0] ∧
      LeaseLaw minuteApart ((leasePool (Fin 2)).noted noteDeed []
        (leaseStart (withRow .ts (messageFor "msg_a") 1000000) minuteApart) sweptByTurns) :=
  ⟨by decide +kernel, (lease_exclusion _ (withRow_oneWrite _ _ _) minuteApart sweptByTurns).1⟩

end Anyhook.Aws
