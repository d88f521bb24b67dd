import Anyhook.Lib.Run
import Anyhook.Cloudflare.Schedule

/-! The alarm and the earliest retry. `processDueSchedules` computes the next alarm from
the rows it lists, then awaits its sends, then sets that alarm, whatever was scheduled
meanwhile. The alarm covers the earliest row as long as no retry is scheduled before the
time a running call has already chosen. -/
namespace Anyhook.Cloudflare
open Anyhook.Core Anyhook.Lib.OrderedMap Anyhook.Lib.Run

variable {N ι : Type} [LinearOrder N] (fmt : NumberText N)

/-! ## The law -/

/-- Where no call is at work and no send has thrown, the alarm is set for no later than
any stored row. -/
def AlarmCovers (o : Object N ι) : Prop :=
  (∀ i, o.sweeps i = none) → o.threw = false →
    ∀ key m, o.rows.get key = some m → ∃ a, o.alarm = some a ∧ a ≤ parseSchedAt fmt key

/-- A retry is not scheduled before the time a running call will set the alarm to, unless
under a key that the call will still send and delete. -/
def NotBefore (o : Object N ι) : Happening N ι → Prop
  | .schedule m atMs => ∀ i r e, o.sweeps i = some r → r.earliestRemaining = some e →
    e ≤ atMs ∨ schedKey fmt atMs m.messageId ∈ r.left.map Prod.fst
  | _ => True

/-! ## The invariant -/

/-- The alarm or a running call takes care of the row. -/
def Cared (o : Object N ι) (key : String) : Prop :=
  (∃ a, o.alarm = some a ∧ a ≤ parseSchedAt fmt key) ∨
    ∃ i r, o.sweeps i = some r ∧ (key ∈ r.left.map Prod.fst ∨
      ∃ e, r.earliestRemaining = some e ∧ e ≤ parseSchedAt fmt key)

/-- What a running call will set the alarm to covers every row it will not delete. -/
def Pending (o : Object N ι) : Prop :=
  ∀ i r e, o.sweeps i = some r → r.earliestRemaining = some e →
    ∀ key m, o.rows.get key = some m → e ≤ parseSchedAt fmt key ∨ key ∈ r.left.map Prod.fst

structure Guarded (o : Object N ι) : Prop where
  cared : ∀ key m, o.rows.get key = some m → Cared fmt o key
  pending : Pending fmt o

variable {fmt} {o : Object N ι}

theorem Guarded.alarmCovers (h : Guarded fmt o) : AlarmCovers fmt o := by
  intro hidle _ key m hrow
  obtain halarm | ⟨i, r, hr, -⟩ := h.cared key m hrow
  · exact halarm
  · rw [hidle i] at hr
    cases hr

theorem guarded_fresh (clock : N) : Guarded fmt (Object.fresh clock : Object N ι) where
  cared key m h := by cases h
  pending i r e h := by cases h

/-- The stored row is covered by the alarm `scheduleRetry` leaves, the others as before. -/
theorem Guarded.schedule (h : Guarded fmt o) {m : Message} {atMs : N}
    (hok : NotBefore fmt o (.schedule m atMs)) : Guarded fmt (o.scheduleRetry fmt m atMs) := by
  have halarm : ∃ a, (o.scheduleRetry fmt m atMs).alarm = some a ∧ a ≤ atMs ∧
      ∀ b, o.alarm = some b → a ≤ b := by
    unfold Object.scheduleRetry
    cases hb : o.alarm with
    | none => exact ⟨atMs, rfl, le_refl _, fun b hb => by cases hb⟩
    | some b =>
      by_cases hlt : atMs < b
      · exact ⟨atMs, by simp [hlt], le_refl _, fun b' hb' => by cases hb'; exact le_of_lt hlt⟩
      · exact ⟨b, by simp [hlt], not_lt.mp hlt, fun b' hb' => by cases hb'; exact le_refl _⟩
  obtain ⟨a, ha, hle, hless⟩ := halarm
  have hrow : ∀ key m', (o.scheduleRetry fmt m atMs).rows.get key = some m' →
      key = schedKey fmt atMs m.messageId ∨ o.rows.get key = some m' := by
    intro key m' hget
    by_cases hk : schedKey fmt atMs m.messageId = key
    · exact .inl hk.symm
    · exact .inr (by rwa [Object.scheduleRetry, OMap.get_set_of_ne _ hk] at hget)
  refine ⟨fun key m' hget => ?_, fun i r e hr he key m' hget => ?_⟩
  · rcases hrow key m' hget with rfl | hold
    · exact .inl ⟨a, ha, by rw [parseSchedAt_schedKey]; exact hle⟩
    · refine (h.cared key m' hold).imp_left fun ⟨b, hb, hbk⟩ => ⟨a, ha, (hless b hb).trans hbk⟩
  · rcases hrow key m' hget with rfl | hold
    · rw [parseSchedAt_schedKey]
      exact hok i r e hr he
    · exact h.pending i r e hr he key m' hold

variable [DecidableEq ι]

/-- A call that starts takes care of every row. -/
theorem Pending.process (h : Pending fmt o) {i : ι} (hi : o.sweeps i = none) :
    Guarded fmt (o.processDueSchedules fmt i) := by
  have hcover : ∀ key m, o.rows.get key = some m →
      (key, m) ∈ (listing fmt o.clock o.list).due ∨
        ∃ e, (listing fmt o.clock o.list).earliestRemaining = some e ∧
          e ≤ parseSchedAt fmt key := fun key m hget => o.list_covers hget
  unfold Object.processDueSchedules
  dsimp only
  generalize listing fmt o.clock o.list = l at hcover
  cases hdue : l.due with
  | nil =>
    have hset : ∀ key m, o.rows.get key = some m →
        ∃ e, l.earliestRemaining = some e ∧ e ≤ parseSchedAt fmt key := by
      intro key m hget
      obtain hmem | he := hcover key m hget
      · rw [hdue] at hmem
        cases hmem
      · exact he
    refine ⟨fun key m hget => ?_, fun j r e hr he key m hget => ?_⟩
    · obtain ⟨e, he, hle⟩ := hset key m hget
      exact .inl ⟨e, by simp [Object.next, he], hle⟩
    · have hj : o.sweeps j = some r := by
        by_cases hji : j = i
        · subst hji
          simp [Object.next] at hr
        · simpa [Object.next, hji] using hr
      exact h j r e hj he key m hget
  | cons entry due =>
    obtain ⟨key₀, m₀⟩ := entry
    have hcared : ∀ key m, o.rows.get key = some m → key ∈ ((key₀, m₀) :: due).map Prod.fst ∨
        ∃ e, l.earliestRemaining = some e ∧ e ≤ parseSchedAt fmt key := by
      intro key m hget
      refine (hcover key m hget).imp_left fun hmem => ?_
      rw [hdue] at hmem
      exact List.mem_map_of_mem hmem
    refine ⟨fun key m hget => ?_, fun j r e hr he key m hget => ?_⟩
    · exact .inr ⟨i, _, Function.update_self .., hcared key m hget⟩
    · by_cases hji : j = i
      · subst hji
        obtain rfl : _ = r := by simpa [Object.next] using hr
        obtain hmem | ⟨e', he', hle⟩ := hcared key m hget
        · exact .inr hmem
        · left
          rw [show l.earliestRemaining = some e from he] at he'
          cases he'
          exact hle
      · exact h j r e (by simpa [Object.next, hji] using hr) he key m hget

/-- A call whose send resolved deletes its row; when it has no more, it sets the alarm. -/
theorem Guarded.resolve (h : Guarded fmt o) {i : ι} {r : Sweep N} (hi : o.sweeps i = some r) :
    Guarded fmt (o.resolved i r) := by
  have hrow : ∀ key m, (o.rows.delete r.key).get key = some m →
      key ≠ r.key ∧ o.rows.get key = some m := by
    intro key m hget
    rw [OMap.get_delete] at hget
    split at hget
    · cases hget
    · rename_i hne
      exact ⟨Ne.symm hne, hget⟩
  have hleft : ∀ key, key ≠ r.key → key ∈ r.left.map Prod.fst → key ∈ r.due.map Prod.fst := by
    intro key hne hmem
    rcases List.mem_cons.mp hmem with heq | hmem
    · exact absurd heq hne
    · exact hmem
  unfold Object.resolved
  cases hdue : r.due with
  | nil =>
    refine ⟨fun key m hget => ?_, fun j r' e hr he key m hget => ?_⟩
    · obtain ⟨hne, hold⟩ := hrow key m hget
      cases he : r.earliestRemaining with
      | some e =>
        obtain hle | hmem := h.pending i r e hi he key m hold
        · exact .inl ⟨e, rfl, hle⟩
        · have hnone := hleft key hne hmem
          rw [hdue] at hnone
          cases hnone
      | none =>
        obtain halarm | ⟨j, r', hr', hc⟩ := h.cared key m hold
        · exact .inl halarm
        · have hji : j ≠ i := by
            intro hji
            rw [hji, hi] at hr'
            cases hr'
            obtain hmem | ⟨e, he', -⟩ := hc
            · have hnone := hleft key hne hmem
              rw [hdue] at hnone
              cases hnone
            · rw [he] at he'
              cases he'
          exact .inr ⟨j, r', by simpa [Object.next, hji] using hr', hc⟩
    · obtain ⟨-, hold⟩ := hrow key m hget
      have hj : o.sweeps j = some r' := by
        by_cases hji : j = i
        · subst hji
          simp [Object.next] at hr
        · simpa [Object.next, hji] using hr
      exact h.pending j r' e hj he key m hold
  | cons entry due =>
    obtain ⟨key₀, m₀⟩ := entry
    refine ⟨fun key m hget => ?_, fun j r' e hr he key m hget => ?_⟩
    · obtain ⟨hne, hold⟩ := hrow key m hget
      obtain halarm | ⟨j, r', hr', hc⟩ := h.cared key m hold
      · exact .inl halarm
      · by_cases hji : j = i
        · rw [hji, hi] at hr'
          cases hr'
          refine .inr ⟨i, _, Function.update_self .., hc.imp_left fun hmem => ?_⟩
          have hmem' := hleft key hne hmem
          rwa [hdue] at hmem'
        · exact .inr ⟨j, r', by simpa [Object.next, hji] using hr', hc⟩
    · obtain ⟨hne, hold⟩ := hrow key m hget
      by_cases hji : j = i
      · subst hji
        obtain rfl : _ = r' := by simpa [Object.next] using hr
        refine (h.pending j r e hi he key m hold).imp_right fun hmem => ?_
        have hmem' := hleft key hne hmem
        rwa [hdue] at hmem'
      · exact h.pending j r' e (by simpa [Object.next, hji] using hr) he key m hold

/-- The invariant needs no more once a send has thrown. -/
def GuardedUnlessThrew (fmt : NumberText N) (o : Object N ι) : Prop :=
  o.threw = false → Guarded fmt o

theorem GuardedUnlessThrew.step (h : GuardedUnlessThrew fmt o) {e : Happening N ι}
    (hok : NotBefore fmt o e) : GuardedUnlessThrew fmt (o.step fmt e) := by
  cases e with
  | tick now =>
    intro hthrew
    exact ⟨(h hthrew).cared, (h hthrew).pending⟩
  | schedule m atMs => exact fun hthrew => (h hthrew).schedule hok
  | process i =>
    simp only [Object.step]
    cases hi : o.sweeps i with
    | some r => exact h
    | none =>
      intro hthrew
      have hsame : (o.processDueSchedules fmt i).threw = o.threw := Object.next_threw ..
      exact (h (hsame ▸ hthrew)).pending.process hi
  | wake i =>
    simp only [Object.step]
    cases hi : o.sweeps i with
    | some r => exact h
    | none =>
      cases ha : o.alarm with
      | none => exact h
      | some a =>
        dsimp only
        split
        · intro hthrew
          have hsame : ({ o with alarm := none }.processDueSchedules fmt i).threw = o.threw :=
            Object.next_threw ..
          have hpend : Pending fmt { o with alarm := none } := (h (hsame ▸ hthrew)).pending
          exact hpend.process hi
        · exact h
  | resolve i =>
    simp only [Object.step]
    cases hi : o.sweeps i with
    | none => exact h
    | some r =>
      intro hthrew
      have hsame : (o.resolved i r).threw = o.threw := Object.next_threw ..
      exact (h (hsame ▸ hthrew)).resolve hi
  | throw i =>
    simp only [Object.step]
    cases hi : o.sweeps i with
    | none => exact h
    | some r =>
      intro hthrew
      cases hthrew

/-! ## The result -/

/-- In every run in which no retry is scheduled before the time a running call has chosen,
the alarm covers the earliest row after every step. -/
theorem alarm_covers_earliest (fmt : NumberText N) (clock : N) (es : List (Happening N ι))
    (h : Along (Object.step fmt) (NotBefore fmt) (Object.fresh clock) es) :
    Along (Object.step fmt) (fun o e => AlarmCovers fmt (o.step fmt e))
      (Object.fresh clock : Object N ι) es := by
  refine Along.strengthen (I := GuardedUnlessThrew fmt) (fun o e hg hok => hg.step hok)
    (fun o e hg hok => ?_) (fun _ => guarded_fresh clock) h
  intro hidle hthrew
  exact (hg.step hok hthrew).alarmCovers hidle hthrew

/-- Two retries; the alarm fires for the first and its send is awaited. -/
def sendingFirst : List (Happening ℕ Unit) :=
  [.schedule (retry "msg_a") 10, .schedule (retry "msg_b") 100, .tick 10, .wake ()]

/-- While it is, a third retry is scheduled after the second. -/
theorem scheduled_later_covered :
    Along (Object.step decimal) (NotBefore decimal) (Object.fresh 0)
        (sendingFirst ++ [.schedule (retry "msg_c") 200, .resolve ()]) ∧
      Along (Object.step decimal) (fun o e => AlarmCovers decimal (o.step decimal e))
        (Object.fresh 0 : Object ℕ Unit)
        (sendingFirst ++ [.schedule (retry "msg_c") 200, .resolve ()]) := by
  have hok : Along (Object.step decimal) (NotBefore decimal) (Object.fresh 0)
      (sendingFirst ++ [.schedule (retry "msg_c") 200, .resolve ()]) := by
    refine ⟨fun i r e hr => ?_, fun i r e hr => ?_, trivial, trivial, fun i r e hr he => .inl ?_,
      trivial, trivial⟩
    · cases hr
    · cases hr
    · have hsweep : ((sendingFirst.foldl (Object.step decimal) (Object.fresh 0)).sweeps ()).map
          Sweep.earliestRemaining = some (some 100) := by decide +kernel
      rw [show (sendingFirst.foldl (Object.step decimal) (Object.fresh 0)).sweeps () = some r
        from hr] at hsweep
      rw [Option.map_some, he] at hsweep
      cases hsweep
      decide
  exact ⟨hok, alarm_covers_earliest decimal 0 _ hok⟩

/-- The third retry is scheduled between the two: the call then sets the alarm past it. -/
theorem alarm_set_past_earlier_retry :
    ¬ ∀ (clock : ℕ) (es : List (Happening ℕ Unit)),
      Along (Object.step decimal) (fun o e => AlarmCovers decimal (o.step decimal e))
        (Object.fresh clock) es := by
  intro h
  let before : List (Happening ℕ Unit) := sendingFirst ++ [.schedule (retry "msg_c") 50]
  have hlast := (h 0 (before ++ [.resolve ()])).after
  obtain ⟨a, ha, hle⟩ := hlast (fun _ => by rfl) (by decide +kernel) "sched:50:msg_c"
    (retry "msg_c") (by decide +kernel)
  have halarm : ((before.foldl (Object.step decimal) (Object.fresh 0)).step decimal
      (.resolve ())).alarm = some 100 := by decide +kernel
  rw [halarm] at ha
  cases ha
  exact absurd hle (by decide +kernel)

end Anyhook.Cloudflare
