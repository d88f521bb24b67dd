import Anyhook.Cloudflare.Alarm
import Mathlib.Data.List.Perm.Basic
import Mathlib.Logic.Function.Iterate

/-! An object that is left alone. The platform wakes it when its alarm is due; each wake sends
what is due and sets the alarm to the earliest row that remains. So the alarm alone empties the
object: every row is sent once, at its own time, or at once where that has passed. -/
namespace Anyhook.Cloudflare
open Anyhook.Core Anyhook.Lib.OrderedMap Anyhook.Lib.Run

variable {N ι : Type} [LinearOrder N] [DecidableEq ι] (fmt : NumberText N)

/-! ## Wakes -/

/-- The awaited sends of call `i` resolve, `n` of them. -/
def Object.settle (o : Object N ι) (i : ι) (n : Nat) : Object N ι :=
  (List.replicate n (Happening.resolve i)).foldl (Object.step fmt) o

/-- The alarm goes off when it is due, and every send of the call resolves. -/
def Object.alarmed (i : ι) (o : Object N ι) : Object N ι :=
  match o.alarm with
  | none => o
  | some a =>
    let woken := (o.step fmt (.tick a)).step fmt (.wake i)
    woken.settle fmt i ((woken.sweeps i).elim 0 fun r => r.left.length)

/-! ## The law -/

/-- The key, the message and the time of a send. -/
def Entry.send? : Entry N → Option (String × Message × N)
  | .sent key m _ startedAt => some (key, m, startedAt)
  | .stored .. => none

/-- Every row of `o` was sent once, at its time or at once, and the object sleeps. -/
structure Drained (o o' : Object N ι) : Prop where
  rows : o'.rows.entries = []
  alarm : o'.alarm = none
  sweeps : o'.sweeps = o.sweeps
  sent : ∃ rows entries, List.Perm rows o.rows.entries ∧ o'.log = o.log ++ entries ∧
    entries.map Entry.send? =
      rows.map fun row => some (row.1, row.2, max o.clock (parseSchedAt fmt row.1))

variable {fmt}

/-! ## A listing, exactly -/

section Listing
omit [DecidableEq ι]

theorem listing_due (now : N) (rows : List (String × Message)) :
    (listing fmt now rows).due = rows.filter fun row => parseSchedAt fmt row.1 ≤ now := by
  have hfold : ∀ (rows : List (String × Message)) (l : Listing N),
      (rows.foldl (Listing.add fmt now) l).due =
        l.due ++ rows.filter fun row => parseSchedAt fmt row.1 ≤ now := by
    intro rows
    induction rows with
    | nil => exact fun l => (List.append_nil _).symm
    | cons row rows ih =>
      intro l
      rw [List.foldl_cons, ih]
      rw [List.filter_cons]
      by_cases hdue : parseSchedAt fmt row.1 ≤ now
      · simp [Listing.add, hdue]
      · rw [if_neg (mt of_decide_eq_true hdue)]
        unfold Listing.add
        dsimp only
        rw [if_neg hdue]
        split <;> rfl
  exact hfold rows _

/-- The earliest remaining time is the time of a row that is not due. -/
theorem listing_earliest {now e : N} {rows : List (String × Message)}
    (h : (listing fmt now rows).earliestRemaining = some e) :
    now < e ∧ ∃ row ∈ rows, parseSchedAt fmt row.1 = e := by
  have hfold : ∀ (rows : List (String × Message)) (l : Listing N),
      (rows.foldl (Listing.add fmt now) l).earliestRemaining = some e →
        l.earliestRemaining = some e ∨ now < e ∧ ∃ row ∈ rows, parseSchedAt fmt row.1 = e := by
    intro rows
    induction rows with
    | nil => exact fun l hl => .inl hl
    | cons row rows ih =>
      intro l hl
      obtain hadd | ⟨hlt, x, hx, hxe⟩ := ih _ hl
      · unfold Listing.add at hadd
        dsimp only at hadd
        split at hadd
        · exact .inl hadd
        · rename_i hdue
          split at hadd
          · cases hadd
            exact .inr ⟨not_le.mp hdue, row, List.mem_cons_self, rfl⟩
          · exact .inl hadd
      · exact .inr ⟨hlt, x, List.mem_cons_of_mem _ hx, hxe⟩
  obtain hnone | hrow := hfold rows _ h
  · cases hnone
  · exact hrow

end Listing

/-! ## A call to its end -/

/-- The rows without those a call deletes. -/
def deleted (rows : OMap String Message) (due : List (String × Message)) : OMap String Message :=
  due.foldl (fun rows row => rows.delete row.1) rows

theorem deleted_entries (rows : OMap String Message) (due : List (String × Message)) :
    (deleted rows due).entries = rows.entries.filter fun row => row.1 ∉ due.map Prod.fst := by
  induction due generalizing rows with
  | nil => simp [deleted]
  | cons row due ih =>
    have hfirst : deleted rows (row :: due) = deleted (rows.delete row.1) due := rfl
    rw [hfirst, ih, OMap.delete, List.filter_filter]
    refine List.filter_congr fun x _ => ?_
    rw [← Bool.decide_and]
    refine decide_eq_decide.mpr ?_
    rw [List.map_cons, List.mem_cons, not_or]
    exact and_comm

/-- A call whose sends all resolve sends what it has left, deletes it and sets the alarm. -/
theorem Object.settle_call {o : Object N ι} {i : ι} {r : Sweep N} (hr : o.sweeps i = some r)
    (hstarted : r.startedAt = o.clock) :
    ∃ entries, o.settle fmt i r.left.length = { o with
        rows := deleted o.rows r.left
        sweeps := Function.update o.sweeps i none
        alarm := if r.earliestRemaining.isSome then r.earliestRemaining else o.alarm
        log := o.log ++ entries } ∧
      entries.map Entry.send? = r.left.map fun row => some (row.1, row.2, o.clock) := by
  obtain ⟨key, message, due, earliestRemaining, since, startedAt⟩ := r
  dsimp only at hstarted
  subst hstarted
  induction due generalizing o key message since with
  | nil =>
    refine ⟨[.sent key message since o.clock], ?_, rfl⟩
    simp only [Object.settle, Sweep.left, List.length_cons, List.length_nil, List.replicate_succ,
      List.replicate_zero, List.foldl_cons, List.foldl_nil, Object.step, hr]
    rfl
  | cons row due ih =>
    obtain ⟨key', message'⟩ := row
    -- After the first send the call awaits the next one, started now.
    let o₁ : Object N ι := { o with
      rows := o.rows.delete key
      log := o.log ++ [.sent key message since o.clock]
      sweeps := Function.update o.sweeps i (some {
        key := key', message := message', due := due, earliestRemaining := earliestRemaining
        since := (o.log ++ [Entry.sent key message since o.clock]).length
        startedAt := o.clock }) }
    have hstep : o.step fmt (.resolve i) = o₁ := by
      simp only [Object.step, hr]
      rfl
    obtain ⟨entries, hsettle, hsent⟩ := ih (o := o₁) key' message' _ (Function.update_self ..)
    refine ⟨.sent key message since o.clock :: entries, ?_, ?_⟩
    · have hfirst : o.settle fmt i (due.length + 2) = o₁.settle fmt i (due.length + 1) := by
        rw [← hstep]
        rfl
      refine hfirst.trans (hsettle.trans ?_)
      simp only [o₁, Function.update_idem, List.append_assoc, List.singleton_append]
      rfl
    · rw [List.map_cons, hsent]
      rfl

/-! ## One wake -/

/-- Nothing is at work, and the alarm is set for no later than any row. -/
structure Asleep (fmt : NumberText N) (o : Object N ι) : Prop where
  idle : ∀ i, o.sweeps i = none
  covers : ∀ row ∈ o.rows.entries, ∃ a, o.alarm = some a ∧ a ≤ parseSchedAt fmt row.1

theorem Object.alarmed_eq {o : Object N ι} (h : Asleep fmt o) {a : N} (ha : o.alarm = some a)
    (i : ι) :
    ∃ entries, o.alarmed fmt i = { o with
        clock := max o.clock a
        alarm := (listing fmt (max o.clock a) o.list).earliestRemaining
        rows := deleted o.rows (listing fmt (max o.clock a) o.list).due
        log := o.log ++ entries } ∧
      entries.map Entry.send? = (listing fmt (max o.clock a) o.list).due.map fun row =>
        some (row.1, row.2, max o.clock a) := by
  let o₁ : Object N ι := { o with clock := max o.clock a, alarm := none }
  have hsome : ∀ e : Option N, (if e.isSome then e else none) = e := by
    intro e
    cases e <;> rfl
  have hsweeps : Function.update o.sweeps i none = o.sweeps := by
    rw [← h.idle i]
    exact Function.update_eq_self i o.sweeps
  have hwake : (o.step fmt (.tick a)).step fmt (.wake i) =
      o₁.next i (listing fmt (max o.clock a) o.list).earliestRemaining
        (listing fmt (max o.clock a) o.list).due := by
    simp only [Object.step, h.idle i, ha, if_pos (le_max_right o.clock a)]
    rfl
  unfold Object.alarmed
  rw [ha]
  dsimp only
  rw [hwake]
  generalize listing fmt (max o.clock a) o.list = l
  cases hdue : l.due with
  | nil =>
    refine ⟨[], ?_, rfl⟩
    simp only [Object.next, o₁, hsome, hsweeps, h.idle i, List.append_nil]
    rfl
  | cons row due =>
    obtain ⟨key, message⟩ := row
    obtain ⟨entries, hsettle, hsent⟩ := Object.settle_call
      (o := o₁.next i l.earliestRemaining ((key, message) :: due)) (i := i)
      (Function.update_self ..) rfl
    refine ⟨entries, ?_, hsent⟩
    simp only [Object.next, Function.update_self, Option.elim_some, Function.update_idem, o₁,
      hsome, hsweeps] at hsettle ⊢
    exact hsettle

/-- A wake sends the rows that are due and leaves the others, asleep until the first of them. -/
theorem Asleep.alarmed {o : Object N ι} (h : Asleep fmt o) {a : N} (ha : o.alarm = some a)
    (i : ι) :
    Asleep fmt (o.alarmed fmt i) ∧
      (o.alarmed fmt i).rows.entries =
        o.rows.entries.filter (fun row => ¬ parseSchedAt fmt row.1 ≤ max o.clock a) ∧
      (o.alarmed fmt i).clock = max o.clock a ∧ (o.alarmed fmt i).sweeps = o.sweeps ∧
      (∀ b, (o.alarmed fmt i).alarm = some b →
        ∃ row ∈ (o.alarmed fmt i).rows.entries, parseSchedAt fmt row.1 = b) ∧
      ∃ due entries, List.Perm due
          (o.rows.entries.filter fun row => parseSchedAt fmt row.1 ≤ max o.clock a) ∧
        (o.alarmed fmt i).log = o.log ++ entries ∧
        entries.map Entry.send? = due.map fun row => some (row.1, row.2, max o.clock a) := by
  obtain ⟨entries, heq, hsent⟩ := Object.alarmed_eq h ha i
  have hlist : List.Perm o.list o.rows.entries := List.perm_insertionSort _ _
  have hdue : (listing fmt (max o.clock a) o.list).due =
      o.list.filter (fun row => parseSchedAt fmt row.1 ≤ max o.clock a) := listing_due _ _
  have hrows : (deleted o.rows (listing fmt (max o.clock a) o.list).due).entries =
      o.rows.entries.filter fun row => ¬ parseSchedAt fmt row.1 ≤ max o.clock a := by
    rw [deleted_entries, hdue]
    refine List.filter_congr fun row hrow => decide_eq_decide.mpr (not_congr ?_)
    constructor
    · intro hmem
      obtain ⟨x, hx, hkey⟩ := List.mem_map.mp hmem
      rw [← hkey]
      exact of_decide_eq_true (List.mem_filter.mp hx).2
    · intro hle
      exact List.mem_map_of_mem
        (List.mem_filter.mpr ⟨hlist.mem_iff.mpr hrow, decide_eq_true hle⟩)
  rw [heq]
  refine ⟨⟨h.idle, ?_⟩, hrows, rfl, rfl, ?_, _, entries, ?_, rfl, hsent⟩
  · intro row hrow
    dsimp only at hrow ⊢
    rw [hrows] at hrow
    obtain ⟨hin, hlater⟩ := List.mem_filter.mp hrow
    have hcovers : Listing.Covers fmt (max o.clock a) (listing fmt (max o.clock a) o.list)
        o.list := listing_covers _ _
    obtain hmem | hearliest := hcovers.covered row
      (hlist.mem_iff.mpr hin)
    · rw [hdue] at hmem
      exact absurd (of_decide_eq_true (List.mem_filter.mp hmem).2) (of_decide_eq_true hlater)
    · exact hearliest
  · intro b hb
    obtain ⟨hlt, row, hrow, rfl⟩ := listing_earliest hb
    refine ⟨row, ?_, rfl⟩
    dsimp only
    rw [hrows]
    exact List.mem_filter.mpr ⟨hlist.mem_iff.mp hrow, decide_eq_true (not_le.mpr hlt)⟩
  · rw [hdue]
    exact hlist.filter _

/-! ## Wake after wake -/

/-- What one wake sends, and what the later ones do. -/
theorem Drained.wake {o o' : Object N ι} (h : Asleep fmt o) {a : N} (ha : o.alarm = some a) (i : ι)
    (hd : Drained fmt (o.alarmed fmt i) o') : Drained fmt o o' := by
  obtain ⟨-, hrows, hclock, hsweeps, -, due, sends, hdue, hlog, hsends⟩ := h.alarmed ha i
  obtain ⟨later, entries, hperm, hlog', hentries⟩ := hd.sent
  rw [hrows] at hperm
  refine ⟨hd.rows, hd.alarm, hd.sweeps.trans hsweeps, due ++ later, sends ++ entries, ?_, ?_, ?_⟩
  · refine (hdue.append hperm).trans ?_
    simp only [decide_not]
    exact List.filter_append_perm _ o.rows.entries
  · rw [hlog', hlog, List.append_assoc]
  · rw [List.map_append, List.map_append, hsends, hentries, hclock]
    congr 1
    · refine List.map_congr_left fun row hrow => ?_
      obtain ⟨hin, hle⟩ := List.mem_filter.mp (hdue.mem_iff.mp hrow)
      obtain ⟨b, hb, hab⟩ := h.covers row hin
      cases ha.symm.trans hb
      have hsame : max o.clock a = max o.clock (parseSchedAt fmt row.1) :=
        le_antisymm (max_le (le_max_left _ _) (hab.trans (le_max_right _ _)))
          (max_le (le_max_left _ _) (of_decide_eq_true hle))
      rw [hsame]
    · refine List.map_congr_left fun row hrow => ?_
      obtain ⟨-, hlater⟩ := List.mem_filter.mp (hperm.mem_iff.mp hrow)
      have hlt := not_le.mp (of_decide_eq_true hlater)
      have hclock' : o.clock ≤ parseSchedAt fmt row.1 := (le_max_left _ _).trans hlt.le
      rw [max_eq_right hlt.le, max_eq_right hclock']

/-- Asleep without a row: nothing is left to do. -/
theorem Asleep.drained {o : Object N ι} (h : Asleep fmt o) (ha : o.alarm = none) (i : ι) (n : Nat) :
    Drained fmt o ((Object.alarmed fmt i)^[n] o) := by
  have hsame : o.alarmed fmt i = o := by
    unfold Object.alarmed
    rw [ha]
  have hrows : o.rows.entries = [] := by
    refine List.eq_nil_iff_forall_not_mem.mpr fun row hrow => ?_
    obtain ⟨a, hb, -⟩ := h.covers row hrow
    rw [ha] at hb
    cases hb
  rw [Function.iterate_fixed hsame]
  exact ⟨hrows, ha, rfl, [], [], by rw [hrows], (List.append_nil _).symm, rfl⟩

/-- From an alarm that is the time of a row, each wake sends a row at least. -/
theorem Asleep.drains {o : Object N ι} (h : Asleep fmt o)
    (hexact : ∀ a, o.alarm = some a → ∃ row ∈ o.rows.entries, parseSchedAt fmt row.1 = a) (i : ι)
    {n : Nat} (hn : o.rows.entries.length ≤ n) :
    Drained fmt o ((Object.alarmed fmt i)^[n] o) := by
  induction n generalizing o with
  | zero =>
    refine h.drained ?_ i 0
    cases ha : o.alarm with
    | none => rfl
    | some a =>
      obtain ⟨row, hrow, -⟩ := hexact a ha
      rw [List.eq_nil_of_length_eq_zero (Nat.le_zero.mp hn)] at hrow
      cases hrow
  | succ n ih =>
    cases ha : o.alarm with
    | none => exact h.drained ha i (n + 1)
    | some a =>
      obtain ⟨hasleep, hrows, -, -, hnext, -⟩ := h.alarmed ha i
      obtain ⟨row, hrow, rfl⟩ := hexact a ha
      have hfewer : (o.alarmed fmt i).rows.entries.length < o.rows.entries.length := by
        rw [hrows]
        refine List.length_filter_lt_length_iff_exists.mpr ⟨row, hrow, ?_⟩
        simp
      rw [Function.iterate_succ_apply]
      exact (ih hasleep hnext (by omega)).wake h ha i

/-- **The alarm empties the object.** After any run in which no retry is scheduled before the time
a running call has chosen, with no call at work and no send that threw, as many wakes as there
are rows, and one, send every row once, at its own time or at once where that has passed. -/
theorem alarm_empties (fmt : NumberText N) (clock : N) (es : List (Happening N ι))
    (h : Along (Object.step fmt) (NotBefore fmt) (Object.fresh clock) es)
    (hidle : ∀ i, (es.foldl (Object.step fmt) (Object.fresh clock)).sweeps i = none)
    (hthrew : (es.foldl (Object.step fmt) (Object.fresh clock)).threw = false) (i : ι) {n : Nat}
    (hn : (es.foldl (Object.step fmt) (Object.fresh clock)).rows.entries.length < n) :
    Drained fmt (es.foldl (Object.step fmt) (Object.fresh clock))
      ((Object.alarmed fmt i)^[n] (es.foldl (Object.step fmt) (Object.fresh clock))) := by
  have hguarded : ∀ (es : List (Happening N ι)) (o : Object N ι), GuardedUnlessThrew fmt o →
      Along (Object.step fmt) (NotBefore fmt) o es →
        GuardedUnlessThrew fmt (es.foldl (Object.step fmt) o) := by
    intro es
    induction es with
    | nil => exact fun o hg _ => hg
    | cons e es ih => exact fun o hg hok => ih _ (hg.step hok.1) hok.2
  have hcovers := (hguarded es _ (fun _ => guarded_fresh clock) h hthrew).alarmCovers hidle hthrew
  generalize es.foldl (Object.step fmt) (Object.fresh clock) = o at hidle hn hcovers
  have hasleep : Asleep fmt o := ⟨hidle, fun row hrow => hcovers _ _ (OMap.get_of_mem hrow)⟩
  cases ha : o.alarm with
  | none => exact hasleep.drained ha i n
  | some a =>
    obtain ⟨hnext, hrows, -, -, hexact, -⟩ := hasleep.alarmed ha i
    cases n with
    | zero => exact absurd hn (Nat.not_lt_zero _)
    | succ n =>
      have hfewer : (o.alarmed fmt i).rows.entries.length ≤ n := by
        rw [hrows]
        exact (List.length_filter_le _ _).trans (Nat.le_of_lt_succ hn)
      rw [Function.iterate_succ_apply]
      exact (hnext.drains hexact i hfewer).wake hasleep ha i

/-- Three retries, not in the order of their times. -/
def threeScheduled : List (Happening ℕ Unit) :=
  [.schedule (retry "msg_a") 50, .schedule (retry "msg_b") 10, .schedule (retry "msg_c") 100]

theorem threeScheduled_emptied :
    Drained decimal (threeScheduled.foldl (Object.step decimal) (Object.fresh 0))
      ((Object.alarmed decimal ())^[4]
        (threeScheduled.foldl (Object.step decimal) (Object.fresh 0))) := by
  have hnone : ∀ (o : Object ℕ Unit), (∀ i, o.sweeps i = none) → ∀ m atMs,
      NotBefore decimal o (.schedule m atMs) := by
    intro o hidle m atMs i r e hr
    rw [hidle i] at hr
    cases hr
  refine alarm_empties decimal 0 threeScheduled ?_ (fun _ => rfl) rfl () ?_
  · exact ⟨hnone _ (fun _ => rfl) _ _, hnone _ (fun _ => rfl) _ _, hnone _ (fun _ => rfl) _ _,
      trivial⟩
  · decide +kernel

end Anyhook.Cloudflare
