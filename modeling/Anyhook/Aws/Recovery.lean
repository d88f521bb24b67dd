import Anyhook.Aws.Retries
import Mathlib.Data.List.Nodup

/-! Recovery of what earlier sweeps left behind. A sweep that fails or is cut off between its
claim and its delete leaves the row, held for `sweeperLeaseSeconds`. Here a later sweep runs
by itself: no request fails and the index is up to date. It sends every row that is due and
no longer held, once, and touches no other. -/
namespace Anyhook.Aws
open Anyhook.Core Anyhook.Testing Anyhook.Lib.Program Anyhook.Lib.Interleave

/-! ## A sweep by itself -/

/-- The query's answer while `index` is left of the listing. -/
def nextPage (index : List (List Nat)) : CloudAnswer where
  now := 0
  page := index.headD []
  lastEvaluatedKey := if index.tail = [] then none else some ""

/-- One request that does not fail. Each query takes the next page of the listing. -/
def aloneExec (op : CloudOp) (s : Region × List (List Nat)) :
    Except String (CloudRes op) × (Region × List (List Nat)) :=
  ((cloudExec (nextPage s.2) op s.1).1, (cloudExec (nextPage s.2) op s.1).2,
    match op with
    | .query .. => s.2.tail
    | _ => s.2)

/-- What a query finds on one page. -/
def listed (nowSec : Int) (r : Region) (page : List Nat) : List Item :=
  (page.filterMap (r.versions[·]?)).filter fun item => item.row.gsi1sk ≤ nowSec

/-- The rows in `done` have been sent and deleted, and nothing else happened since `r`. -/
structure Swept (r : Region) (done : List Item) (result : SweeperResult) (s : Region) : Prop where
  live : ∀ item ∈ done, r.table item.row.key = some item
  once : done.Nodup
  log : s.log = r.log ++ done.map fun item => .sent item.row.message
  gone : ∀ item ∈ done, s.table item.row.key = none
  rest : ∀ key, (∀ item ∈ done, item.row.key ≠ key) → s.table key = r.table key
  versions : r.versions <+: s.versions
  claimed : result.claimed = done.length
  sent : result.sent = done.length

theorem Swept.start (r : Region) : Swept r [] { due := 0, claimed := 0, sent := 0 } r where
  live item hi := by cases hi
  once := List.nodup_nil
  log := (List.append_nil _).symm
  gone item hi := by cases hi
  rest _ _ := rfl
  versions := List.prefix_rfl
  claimed := rfl
  sent := rfl

/-- What a claimed item is turned into. -/
def SendsOf (lang : Lang) (send : Item → Cloud Unit) : Prop :=
  ∀ item, item.row.writer = lang → send item = request (.sendMessage (some item.row.message) 0)

section Alone
variable {lang : Lang} {send : Item → Cloud Unit} {nowSec leaseFloorSec : Int}
variable {r s : Region} {done : List Item} {result : SweeperResult} {index : List (List Nat)}

theorem claimable_free {item : Item} (hfree : leaseHeld item leaseFloorSec = false) :
    claimable (some item) leaseFloorSec = some item := by
  refine Option.filter_eq_some_iff.mpr ⟨rfl, ?_⟩
  unfold leaseHeld at hfree
  cases hc : item.row.claimedAt with
  | none => rfl
  | some claimedAt =>
    rw [hc] at hfree
    simpa using hfree

/-- One item: it is sent and deleted, unless it is held or was listed before. -/
theorem Swept.item (hsend : SendsOf lang send) (h : Swept r done result s) {item : Item}
    (hlive : r.table item.row.key = some item) (hlang : item.row.writer = lang) :
    Prog.Ends aloneExec (sweepItem send nowSec leaseFloorSec item result)
      (fun result' s' => s'.2 = index ∧ ∃ done', Swept r done' result' s'.1 ∧
        ∀ x, x ∈ done' ↔ x ∈ done ∨ x = item ∧ leaseHeld item leaseFloorSec = false)
      (s, index) := by
  unfold sweepItem
  rw [hsend item hlang]
  cases hheld : leaseHeld item leaseFloorSec with
  | true =>
    refine Prog.ends_pure ⟨rfl, done, h, fun x => ?_⟩
    simp
  | false =>
    rw [if_neg Bool.false_ne_true]
    by_cases hdone : item ∈ done
    · have hlost : aloneExec (.claimItem item nowSec leaseFloorSec) (s, index) =
          (.ok false, (s, index)) := by
        simp only [aloneExec, cloudExec, h.gone item hdone]
        rfl
      refine Prog.ends_call hlost (Prog.ends_pure ⟨rfl, done, ?_, fun x => ?_⟩)
      · exact { h with }
      · constructor
        · exact .inl
        · intro hx
          obtain hx | ⟨rfl, -⟩ := hx
          · exact hx
          · exact hdone
    · -- No other row that was sent is stored under the key.
      have hother : ∀ x ∈ done, x.row.key ≠ item.row.key := by
        intro x hx hkey
        have hsame := (h.live x hx).symm.trans (hkey ▸ hlive)
        exact hdone (Option.some.inj hsame ▸ hx)
      have hnow : s.table item.row.key = some item := (h.rest _ hother).trans hlive
      let claimed : Item := { item with row := { item.row with claimedAt := some nowSec } }
      have hwon : aloneExec (.claimItem item nowSec leaseFloorSec) (s, index) =
          (.ok true, (s.store item.row.key claimed, index)) := by
        simp only [aloneExec, cloudExec, hnow, claimable_free hheld]
        rfl
      refine Prog.ends_call hwon (Prog.ends_call rfl (Prog.ends_call rfl
        (Prog.ends_pure ⟨rfl, done ++ [item], ?_, ?_⟩)))
      · constructor
        · intro x hx
          rcases List.mem_append.mp hx with hx | hx
          · exact h.live x hx
          · rw [List.mem_singleton.mp hx]
            exact hlive
        · refine List.nodup_append.mpr ⟨h.once, List.nodup_singleton item, ?_⟩
          intro x hx y hy hxy
          rw [hxy, List.mem_singleton.mp hy] at hx
          exact hdone hx
        · show s.log ++ [_] = _
          rw [h.log, List.map_append, List.append_assoc]
          rfl
        · intro x hx
          rcases List.mem_append.mp hx with hx | hx
          · have hkey := hother x hx
            simpa [aloneExec, cloudExec, Region.store, hkey] using h.gone x hx
          · rw [List.mem_singleton.mp hx]
            simp [cloudExec]
        · intro key hkey
          have hne : key ≠ item.row.key := (hkey item (by simp)).symm
          have hold := h.rest key fun x hx => hkey x (List.mem_append_left _ hx)
          simpa [aloneExec, cloudExec, Region.store, hne] using hold
        · exact h.versions.trans (List.prefix_append _ _)
        · simp [h.claimed]
        · simp [h.sent]
      · intro x
        simp

theorem Swept.items (hsend : SendsOf lang send) (items : List Item)
    (hitems : ∀ item ∈ items, r.table item.row.key = some item ∧ item.row.writer = lang)
    (h : Swept r done result s) :
    Prog.Ends aloneExec (sweepItems send nowSec leaseFloorSec items result)
      (fun result' s' => s'.2 = index ∧ ∃ done', Swept r done' result' s'.1 ∧
        ∀ x, x ∈ done' ↔ x ∈ done ∨ x ∈ items ∧ leaseHeld x leaseFloorSec = false)
      (s, index) := by
  induction items generalizing done result s with
  | nil => exact Prog.ends_pure ⟨rfl, done, h, fun x => by simp⟩
  | cons item rest ih =>
    obtain ⟨hlive, hlang⟩ := hitems item List.mem_cons_self
    refine (h.item hsend hlive hlang).bind ?_
    intro result₁ s₁ hs₁
    obtain ⟨s₁, index₁⟩ := s₁
    obtain ⟨rfl, done₁, h₁, hdone₁⟩ := hs₁
    refine (ih (fun x hx => hitems x (List.mem_cons_of_mem _ hx)) h₁).mono ?_
    intro result₂ s₂ hs₂
    obtain ⟨hindex, done₂, h₂, hdone₂⟩ := hs₂
    refine ⟨hindex, done₂, h₂, fun x => ?_⟩
    rw [hdone₂, hdone₁, List.mem_cons, or_assoc]
    refine or_congr_right ?_
    constructor
    · intro hx
      obtain ⟨rfl, hfree⟩ | ⟨hx, hfree⟩ := hx
      · exact ⟨.inl rfl, hfree⟩
      · exact ⟨.inr hx, hfree⟩
    · intro hx
      obtain ⟨rfl | hx, hfree⟩ := hx
      · exact .inl ⟨rfl, hfree⟩
      · exact .inr ⟨hx, hfree⟩

/-- The sweep adds row versions behind those that were listed. -/
theorem Swept.page (h : Swept r done result s) {page : List Nat}
    (hpage : ∀ n ∈ page, ∃ item, r.versions[n]? = some item) :
    listed nowSec s page = listed nowSec r page := by
  refine congrArg (List.filter _) (List.filterMap_congr fun n hn => ?_)
  obtain ⟨item, hitem⟩ := hpage n hn
  obtain ⟨more, hmore⟩ := h.versions
  rw [← hmore, List.getElem?_append_left (List.getElem?_eq_some_iff.mp hitem).1]

theorem Swept.pages (hsend : SendsOf lang send) (pages : Nat) (key : Option String)
    (hcurrent : ∀ page ∈ index, ∀ n ∈ page, ∃ item, r.versions[n]? = some item ∧
      r.table item.row.key = some item)
    (hlang : ∀ key item, r.table key = some item → item.row.writer = lang)
    (h : Swept r done result s) (hpages : index.length ≤ pages) (hpos : 0 < pages) :
    Prog.Ends aloneExec (sweepPages send nowSec leaseFloorSec pages key result)
      (fun result' s' => ∃ done', Swept r done' result' s'.1 ∧ ∀ x, x ∈ done' ↔
        x ∈ done ∨ (∃ page ∈ index, x ∈ listed nowSec r page) ∧ leaseHeld x leaseFloorSec = false)
      (s, index) := by
  induction pages generalizing key index done result s with
  | zero => exact absurd hpos (Nat.lt_irrefl 0)
  | succ pages ih =>
    have hfirst : ∀ n ∈ index.headD [], ∃ item, r.versions[n]? = some item ∧
        r.table item.row.key = some item := by
      cases index with
      | nil =>
        intro n hn
        cases hn
      | cons page more => exact hcurrent page List.mem_cons_self
    have hquery : aloneExec (.query nowSec key) (s, index) =
        (.ok { items := listed nowSec r (index.headD [])
               lastEvaluatedKey := (nextPage index).lastEvaluatedKey }, (s, index.tail)) := by
      rw [← h.page fun n hn => (hfirst n hn).imp fun _ hitem => hitem.1]
      rfl
    have hitems : ∀ item ∈ listed nowSec r (index.headD []),
        r.table item.row.key = some item ∧ item.row.writer = lang := by
      intro item hi
      obtain ⟨n, hn, hitem⟩ := List.mem_filterMap.mp (List.mem_of_mem_filter hi)
      obtain ⟨item', hitem', hlive⟩ := hfirst n hn
      cases hitem.symm.trans hitem'
      exact ⟨hlive, hlang _ _ hlive⟩
    refine Prog.ends_call hquery ((h.items hsend _ hitems).bind ?_)
    intro result₁ s₁ hs₁
    obtain ⟨s₁, index₁⟩ := s₁
    obtain ⟨rfl, done₁, h₁, hdone₁⟩ := hs₁
    by_cases hmore : index.tail = []
    · -- The last page.
      have hkey : (nextPage index).lastEvaluatedKey = none := if_pos hmore
      rw [hkey]
      refine Prog.ends_pure ⟨done₁, h₁, fun x => ?_⟩
      rw [hdone₁]
      refine or_congr_right (and_congr_left' ?_)
      cases index with
      | nil => simp [listed]
      | cons page more =>
        obtain rfl : more = [] := hmore
        simp
    · have hkey : (nextPage index).lastEvaluatedKey = some "" := if_neg hmore
      rw [hkey]
      cases index with
      | nil => exact absurd rfl hmore
      | cons page more =>
        have hleft : 0 < more.length := List.length_pos_of_ne_nil hmore
        have hbound : more.length ≤ pages := Nat.le_of_succ_le_succ hpages
        refine (ih (some "") (fun p hp => hcurrent p (List.mem_cons_of_mem _ hp)) h₁ hbound
          (hleft.trans_le hbound)).mono ?_
        intro result₂ s₂ hs₂
        obtain ⟨done₂, h₂, hdone₂⟩ := hs₂
        refine ⟨done₂, h₂, fun x => ?_⟩
        rw [hdone₂, hdone₁, or_assoc]
        refine or_congr_right ?_
        rw [← or_and_right]
        refine and_congr_left' ?_
        simp

end Alone

/-! ## After any run -/

/-- Calls of one language whose sweeps all began more than a lease before `now`. -/
structure Earlier {ι : Type} (lang : Lang) (now : Time) (jobs : ι → CloudJob) : Prop where
  written : ∀ i lang' m atMs, jobs i = .schedule lang' m atMs → lang' = lang
  swept : ∀ i lang' now' pages, jobs i = .sweep lang' now' pages →
    seconds lang' now' < seconds lang now - sweeperLeaseSeconds

/-- A row of the language that is not held. -/
structure Free (lang : Lang) (leaseFloorSec : Int) (row : SchedRow) : Prop where
  writer : row.writer = lang
  due : row.gsi1sk = row.dueAt
  claimed : ∀ claimedAt, row.claimedAt = some claimedAt → claimedAt < leaseFloorSec

def FreeOp (lang : Lang) (leaseFloorSec : Int) : CloudOp → Prop
  | .putItem row => Free lang leaseFloorSec row
  | .claimItem _ nowSec _ => nowSec < leaseFloorSec
  | _ => True

section Runs
variable {ι : Type} {lang : Lang} {leaseFloorSec : Int}

theorem Free.held {item : Item} (h : Free lang leaseFloorSec item.row) :
    leaseHeld item leaseFloorSec = false := by
  unfold leaseHeld
  cases hc : item.row.claimedAt with
  | none => rfl
  | some claimedAt => simpa using h.claimed claimedAt hc

theorem sweepPages_free {send : Item → Cloud Unit}
    (hsend : ∀ item, Within (FreeOp lang leaseFloorSec) (send item)) {nowSec floor : Int}
    (hnow : nowSec < leaseFloorSec) (pages : Nat) (key : Option String) (result : SweeperResult) :
    Within (FreeOp lang leaseFloorSec) (sweepPages send nowSec floor pages key result) := by
  have hitem : ∀ item result,
      Within (FreeOp lang leaseFloorSec) (sweepItem send nowSec floor item result) := by
    intro item result
    unfold sweepItem
    split
    · exact within_pure _
    · refine within_bind (within_perform hnow) fun won => ?_
      split
      · exact within_bind (hsend item) fun _ =>
          within_bind (within_perform trivial) fun _ => within_pure _
      · exact within_pure _
  have hitems : ∀ items result,
      Within (FreeOp lang leaseFloorSec) (sweepItems send nowSec floor items result) := by
    intro items
    induction items with
    | nil => exact fun result => within_pure result
    | cons item rest ih => exact fun result => within_bind (hitem item result) ih
  induction pages generalizing key result with
  | zero => exact within_throw _
  | succ pages ih =>
    refine within_bind (within_perform trivial) fun page => ?_
    refine within_bind (hitems page.items result) fun result' => ?_
    cases page.lastEvaluatedKey with
    | none => exact within_pure result'
    | some key => exact ih (some key) result'

theorem scheduleRetryWith_free (m : Message) (atMs : Time) :
    Within (FreeOp lang leaseFloorSec) (scheduleRetryWith lang m atMs) := by
  refine within_bind (within_perform trivial) fun now => ?_
  dsimp only
  split
  · exact within_perform trivial
  · refine within_perform ⟨rfl, rfl, fun claimedAt hc => ?_⟩
    cases hc

theorem Earlier.free {now : Time} {jobs : ι → CloudJob} (h : Earlier lang now jobs) (i : ι) :
    Within (FreeOp lang (seconds lang now - sweeperLeaseSeconds)) (jobs i).program := by
  cases hjob : jobs i with
  | schedule lang' m atMs =>
    obtain rfl := h.written i lang' m atMs hjob
    cases lang' <;> exact scheduleRetryWith_free m atMs
  | sweep lang' now' pages =>
    have hnow := h.swept i lang' now' pages hjob
    have hsend : ∀ body, Within (FreeOp lang (seconds lang now - sweeperLeaseSeconds))
        (request (.sendMessage body 0)) := fun _ => within_perform trivial
    cases lang' with
    | ts =>
      refine within_bind (sweepPages_free (fun item => hsend _) hnow pages none _) fun _ => ?_
      exact within_pure ()
    | go =>
      refine within_bind (sweepPages_free (fun item => ?_) hnow pages none _) fun _ => ?_
      · unfold goSendClaimed
        split
        · exact within_throw _
        · exact hsend _
      · exact within_pure ()

variable [DecidableEq ι]

end Runs

/-! ## A sweep that was cut off -/

end Anyhook.Aws
