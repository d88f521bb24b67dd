import Anyhook.Lib.Run
import Anyhook.Cloudflare.Schedule

/-! Retries are kept until they are sent. `processDueSchedules` sends a row as it listed it
and then deletes the key, whatever the key holds by then. A retry stored under the key
while that send is awaited is deleted with it. Without such a retry, what was stored is
stored still, or was sent after it was stored and not before its time. -/
namespace Anyhook.Cloudflare
open Anyhook.Core Anyhook.Lib.OrderedMap Anyhook.Lib.Run

variable {N ι : Type} [LinearOrder N] (fmt : NumberText N)

/-! ## The law -/

/-- A send of `m` started after entry `n` of the log and not before `atMs`. -/
def SentSince (log : List (Entry N)) (n : Nat) (atMs : N) (m : Message) : Prop :=
  ∃ key since startedAt, .sent key m since startedAt ∈ log ∧ n < since ∧ atMs ≤ startedAt

/-- Nothing that was stored is lost, and no row is sent before its time. -/
structure Kept (o : Object N ι) : Prop where
  kept : ∀ n atMs m, o.log[n]? = some (.stored atMs m) →
    o.rows.get (schedKey fmt atMs m.messageId) = some m ∨ SentSince o.log n atMs m
  notEarly : ∀ key m since startedAt, .sent key m since startedAt ∈ o.log →
    parseSchedAt fmt key ≤ startedAt

/-- A retry is not stored under a key whose send is awaited. Another message stored or
listed under its key is not replaced. -/
def Untouched (o : Object N ι) : Happening N ι → Prop
  | .schedule m atMs =>
    (∀ i r, o.sweeps i = some r → r.key ≠ schedKey fmt atMs m.messageId ∧
      ∀ m', (schedKey fmt atMs m.messageId, m') ∈ r.due → m' = m) ∧
    ∀ m', o.rows.get (schedKey fmt atMs m.messageId) = some m' → m' = m
  | _ => True

/-! ## The invariant -/

/-- What was stored under `key` has been sent since, or is what a call knows as `m`. -/
def Known (o : Object N ι) (key : String) (m : Message) (known : Nat → Prop) : Prop :=
  ∀ n atMs m', o.log[n]? = some (.stored atMs m') → schedKey fmt atMs m'.messageId = key →
    SentSince o.log n atMs m' ∨ m' = m ∧ known n

/-- A running call: its rows are due, and they are the ones stored under their keys. What
its awaited send can account for was stored before that send started. -/
structure Sweep.Fits (o : Object N ι) (r : Sweep N) : Prop where
  began : parseSchedAt fmt r.key ≤ r.startedAt
  current : Known fmt o r.key r.message (· < r.since)
  due : ∀ entry ∈ r.due, parseSchedAt fmt entry.1 ≤ o.clock
  listed : ∀ entry ∈ r.due, Known fmt o entry.1 entry.2 fun _ => True

structure Safe (o : Object N ι) : Prop extends Kept fmt o where
  fits : ∀ i r, o.sweeps i = some r → r.Fits fmt o

variable {fmt} {o : Object N ι}

theorem SentSince.mono {log log' : List (Entry N)} {n : Nat} {atMs : N} {m : Message}
    (h : SentSince log n atMs m) (hsub : ∀ e ∈ log, e ∈ log') : SentSince log' n atMs m := by
  obtain ⟨key, since, startedAt, hmem, hn, hle⟩ := h
  exact ⟨key, since, startedAt, hsub _ hmem, hn, hle⟩

theorem safe_fresh (clock : N) : Safe fmt (Object.fresh clock : Object N ι) where
  kept n atMs m h := by cases h
  notEarly key m since startedAt h := by cases h
  fits i r h := by cases h

/-! ## Steps -/

/-- An entry of a log that grew by one is an old one or the new one. -/
theorem getElem?_append_singleton {α : Type} {l : List α} {a b : α} {n : Nat}
    (h : (l ++ [a])[n]? = some b) : l[n]? = some b ∨ n = l.length ∧ b = a := by
  rcases Nat.lt_trichotomy n l.length with hn | hn | hn
  · exact .inl (by rwa [List.getElem?_append_left hn] at h)
  · subst hn
    rw [List.getElem?_concat_length] at h
    cases h
    exact .inr ⟨rfl, rfl⟩
  · rw [List.getElem?_eq_none (by simp; omega)] at h
    cases h

/-- The known rows stay known when a row is stored that does not hide them. -/
theorem Known.schedule {key : String} {m₀ m : Message} {known : Nat → Prop} {atMs : N}
    (h : Known fmt o key m₀ known)
    (hnew : schedKey fmt atMs m.messageId = key → m = m₀ ∧ known o.log.length) :
    Known fmt (o.scheduleRetry fmt m atMs) key m₀ known := by
  intro n atMs' m' hn hkey
  rcases getElem?_append_singleton hn with hold | ⟨rfl, heq⟩
  · refine (h n atMs' m' hold hkey).imp_left fun hs => hs.mono fun e he => ?_
    exact List.mem_append_left _ he
  · cases heq
    exact .inr (hnew hkey)

theorem Safe.schedule (h : Safe fmt o) {m : Message} {atMs : N}
    (hok : Untouched fmt o (.schedule m atMs)) : Safe fmt (o.scheduleRetry fmt m atMs) where
  kept := by
    intro n atMs' m' hn
    rcases getElem?_append_singleton hn with hold | ⟨-, heq⟩
    · obtain hrow | hsent := h.kept n atMs' m' hold
      · left
        show (o.rows.set _ m).get _ = some m'
        by_cases hk : schedKey fmt atMs m.messageId = schedKey fmt atMs' m'.messageId
        · rw [hk, OMap.get_set_self, hok.2 m' (hk ▸ hrow)]
        · rw [OMap.get_set_of_ne _ hk]
          exact hrow
      · exact .inr (hsent.mono fun e he => List.mem_append_left _ he)
    · cases heq
      exact .inl (OMap.get_set_self ..)
  notEarly := by
    intro key m' since startedAt hmem
    rcases List.mem_append.mp hmem with hold | hnew
    · exact h.notEarly key m' since startedAt hold
    · cases List.mem_singleton.mp hnew
  fits := by
    intro i r hr
    have hfit := h.fits i r hr
    obtain ⟨hcur, hdue⟩ := hok.1 i r hr
    refine ⟨hfit.began, hfit.current.schedule fun hk => absurd hk.symm hcur, hfit.due, ?_⟩
    intro entry hmem
    refine (hfit.listed entry hmem).schedule fun hk => ⟨(hdue entry.2 ?_).symm, trivial⟩
    rw [hk]
    exact hmem

variable [DecidableEq ι]

/-- A call that goes on starts its next send now, after everything stored so far. -/
theorem Safe.next (h : Safe fmt o) {i : ι} {earliestRemaining : Option N}
    {due : List (String × Message)} (hdue : ∀ entry ∈ due, parseSchedAt fmt entry.1 ≤ o.clock)
    (hlisted : ∀ entry ∈ due, Known fmt o entry.1 entry.2 fun _ => True) :
    Safe fmt (o.next i earliestRemaining due) where
  kept := by
    rw [Object.next_log, Object.next_rows]
    exact h.kept
  notEarly := by
    rw [Object.next_log]
    exact h.notEarly
  fits := by
    intro j r hr
    -- the invariant of a call reads the log and the clock only, and these stay
    have hsame : ∀ r : Sweep N, r.Fits fmt o → r.Fits fmt (o.next i earliestRemaining due) := by
      intro r hfit
      cases due <;> exact ⟨hfit.began, hfit.current, hfit.due, hfit.listed⟩
    by_cases hji : j = i
    · subst hji
      cases due with
      | nil => simp [Object.next] at hr
      | cons entry rest =>
        obtain rfl : _ = r := by simpa [Object.next] using hr
        refine hsame _ ⟨hdue entry List.mem_cons_self, ?_,
          fun x hx => hdue x (List.mem_cons_of_mem _ hx),
          fun x hx => hlisted x (List.mem_cons_of_mem _ hx)⟩
        intro n atMs m' hn hkey
        refine (hlisted entry List.mem_cons_self n atMs m' hn hkey).imp_right fun hm => ⟨hm.1, ?_⟩
        exact (List.getElem?_eq_some_iff.mp hn).1
    · refine hsame r (h.fits j r ?_)
      cases due <;> simpa [Object.next, hji] using hr

/-- A listed row is the one stored under its key. -/
theorem Safe.process (h : Safe fmt o) (i : ι) : Safe fmt (o.processDueSchedules fmt i) := by
  have hrow : ∀ entry ∈ (listing fmt o.clock o.list).due,
      o.rows.get entry.1 = some entry.2 ∧ parseSchedAt fmt entry.1 ≤ o.clock := by
    intro entry hmem
    obtain ⟨hlist, hle⟩ := (listing_covers o.clock o.list).due entry hmem
    exact ⟨OMap.get_of_mem ((List.mem_insertionSort _).mp hlist), hle⟩
  refine h.next (fun entry hmem => (hrow entry hmem).2) ?_
  intro entry hmem n atMs m' hn hkey
  obtain hstored | hsent := h.kept n atMs m' hn
  · rw [hkey, (hrow entry hmem).1] at hstored
    cases hstored
    exact .inr ⟨rfl, trivial⟩
  · exact .inl hsent

/-- The send that resolved accounts for the row it deletes. -/
theorem Safe.resolve (h : Safe fmt o) {i : ι} {r : Sweep N} (hi : o.sweeps i = some r) :
    Safe fmt (o.resolved i r) := by
  have hfit := h.fits i r hi
  have hold : ∀ {n atMs m}, SentSince o.log n atMs m →
      SentSince (o.log ++ [.sent r.key r.message r.since r.startedAt]) n atMs m :=
    fun hs => hs.mono fun e he => List.mem_append_left _ he
  have hlog : ∀ {n : Nat} {atMs : N} {m : Message},
      (o.log ++ [.sent r.key r.message r.since r.startedAt])[n]? = some (.stored atMs m) →
        o.log[n]? = some (.stored atMs m) := by
    intro n atMs m hn
    rcases getElem?_append_singleton hn with hn | ⟨-, heq⟩
    · exact hn
    · cases heq
  have hknown : ∀ {key m known}, Known fmt o key m known → Known fmt
      { o with
        rows := o.rows.delete r.key
        log := o.log ++ [.sent r.key r.message r.since r.startedAt] } key m known :=
    fun hk n atMs m' hn hkey => (hk n atMs m' (hlog hn) hkey).imp_left hold
  refine Safe.next ⟨⟨?_, ?_⟩, ?_⟩ hfit.due fun entry hmem => hknown (hfit.listed entry hmem)
  · intro n atMs m hn
    by_cases hkey : schedKey fmt atMs m.messageId = r.key
    · right
      obtain hsent | ⟨rfl, hlt⟩ := hfit.current n atMs m (hlog hn) hkey
      · exact hold hsent
      · refine ⟨r.key, r.since, r.startedAt, List.mem_append_right _ List.mem_cons_self, hlt, ?_⟩
        rw [← parseSchedAt_schedKey fmt atMs r.message.messageId, hkey]
        exact hfit.began
    · refine (h.kept n atMs m (hlog hn)).imp (fun hrow => ?_) hold
      rw [OMap.get_delete, if_neg (Ne.symm hkey)]
      exact hrow
  · intro key m since startedAt hmem
    rcases List.mem_append.mp hmem with hmem | hmem
    · exact h.notEarly key m since startedAt hmem
    · cases List.mem_singleton.mp hmem
      exact hfit.began
  · intro j r' hr'
    have hfit' := h.fits j r' hr'
    exact ⟨hfit'.began, hknown hfit'.current, hfit'.due,
      fun entry hmem => hknown (hfit'.listed entry hmem)⟩

theorem Safe.step (h : Safe fmt o) {e : Happening N ι} (hok : Untouched fmt o e) :
    Safe fmt (o.step fmt e) := by
  cases e with
  | tick now =>
    refine ⟨⟨h.kept, h.notEarly⟩, fun i r hr => ?_⟩
    have hfit := h.fits i r hr
    exact ⟨hfit.began, hfit.current, fun x hx => (hfit.due x hx).trans (le_max_left ..),
      hfit.listed⟩
  | schedule m atMs => exact h.schedule hok
  | process i =>
    simp only [Object.step]
    split
    · exact h.process i
    · exact h
  | wake i =>
    simp only [Object.step]
    split
    · split
      · have hquiet : Safe fmt { o with alarm := none } :=
          ⟨⟨h.kept, h.notEarly⟩, fun i r hr =>
            ⟨(h.fits i r hr).began, (h.fits i r hr).current, (h.fits i r hr).due,
              (h.fits i r hr).listed⟩⟩
        exact hquiet.process i
      · exact h
    · exact h
  | resolve i =>
    simp only [Object.step]
    cases hi : o.sweeps i with
    | some r => exact h.resolve hi
    | none => exact h
  | throw i =>
    simp only [Object.step]
    cases hi : o.sweeps i with
    | none => exact h
    | some r =>
      refine ⟨⟨h.kept, h.notEarly⟩, fun j r' hr' => ?_⟩
      by_cases hji : j = i
      · subst hji
        simp at hr'
      · have hfit := h.fits j r' (by simpa [hji] using hr')
        exact ⟨hfit.began, hfit.current, hfit.due, hfit.listed⟩

/-! ## The result -/

/-- In every run in which no retry is stored under a key whose send is awaited, and none
replaces another message, every retry is kept until it is sent in time. Keys are exact
whatever the run. -/
theorem retries_kept (fmt : NumberText N) (clock : N) (es : List (Happening N ι))
    (h : Along (Object.step fmt) (Untouched fmt) (Object.fresh clock) es) :
    Along (Object.step fmt) (fun o e => Kept fmt (o.step fmt e))
        (Object.fresh clock : Object N ι) es ∧
      (∀ atMs atMs' messageId messageId',
        schedKey fmt atMs messageId = schedKey fmt atMs' messageId' →
          atMs = atMs' ∧ messageId = messageId') ∧
      ∀ atMs messageId, parseSchedAt fmt (schedKey fmt atMs messageId) = atMs := by
  refine ⟨?_, fun _ _ _ _ hkey => schedKey_injective fmt hkey, parseSchedAt_schedKey fmt⟩
  exact Along.strengthen (I := Safe fmt) (fun o e hs hok => hs.step hok)
    (fun o e hs hok => (hs.step hok).toKept) (safe_fresh clock) h

/-- A retry is stored; its time comes and its send is awaited. -/
def sendingOnly : List (Happening ℕ Unit) :=
  [.schedule (retry "msg_a") 5, .tick 10, .wake ()]

/-- While it is, the message's next retry is stored under its own time; the send throws. -/
theorem stored_meanwhile_kept :
    Along (Object.step decimal) (Untouched decimal) (Object.fresh 0)
        (sendingOnly ++ [.schedule (retry "msg_a") 20, .throw (), .process (), .resolve ()]) ∧
      Along (Object.step decimal) (fun o e => Kept decimal (o.step decimal e))
        (Object.fresh 0 : Object ℕ Unit)
        (sendingOnly ++ [.schedule (retry "msg_a") 20, .throw (), .process (), .resolve ()]) := by
  have hok : Along (Object.step decimal) (Untouched decimal) (Object.fresh 0)
      (sendingOnly ++
        [.schedule (retry "msg_a") 20, .throw (), .process (), .resolve ()]) := by
    refine ⟨⟨fun i r hr => ?_, fun m hm => ?_⟩, trivial, trivial,
      ⟨fun i r hr => ?_, fun m hm => ?_⟩, trivial, trivial, trivial, trivial⟩
    · cases hr
    · cases hm
    · have hsweep : ((sendingOnly.foldl (Object.step decimal) (Object.fresh 0)).sweeps ()).map
          (fun r => (r.key, r.due)) = some ("sched:5:msg_a", []) := by decide +kernel
      rw [show (sendingOnly.foldl (Object.step decimal) (Object.fresh 0)).sweeps () = some r
        from hr, Option.map_some, Option.some.injEq, Prod.mk.injEq] at hsweep
      rw [hsweep.1, hsweep.2]
      refine ⟨by decide +kernel, fun m hm => ?_⟩
      cases hm
    · have hnone : (sendingOnly.foldl (Object.step decimal) (Object.fresh 0)).rows.get
          (schedKey decimal 20 (retry "msg_a").messageId) = none := by decide +kernel
      rw [show (sendingOnly.foldl (Object.step decimal) (Object.fresh 0)).rows.get
        (schedKey decimal 20 (retry "msg_a").messageId) = some m from hm] at hnone
      cases hnone
  exact ⟨hok, (retries_kept decimal 0 _ hok).1⟩

/-- The same retry is stored again while its send is awaited, and is deleted unsent. -/
theorem stored_again_deleted_unsent :
    ¬ ∀ (clock : ℕ) (es : List (Happening ℕ Unit)),
      Along (Object.step decimal) (fun o e => Kept decimal (o.step decimal e))
        (Object.fresh clock) es := by
  intro h
  let before : List (Happening ℕ Unit) := sendingOnly ++ [.schedule (retry "msg_a") 5]
  have hlast := (h 0 (before ++ [.resolve ()])).after
  have hlog : ((before.foldl (Object.step decimal) (Object.fresh 0)).step decimal
      (.resolve ())).log = [.stored 5 (retry "msg_a"), .stored 5 (retry "msg_a"),
        .sent "sched:5:msg_a" (retry "msg_a") 1 10] := by rfl
  obtain hrow | ⟨key, since, startedAt, hmem, hn, -⟩ :=
    hlast.kept 1 5 (retry "msg_a") (by rw [hlog]; rfl)
  · have hnone : ((before.foldl (Object.step decimal) (Object.fresh 0)).step decimal
        (.resolve ())).rows.get "sched:5:msg_a" = none := by decide +kernel
    rw [show ((before.foldl (Object.step decimal) (Object.fresh 0)).step decimal
      (.resolve ())).rows.get "sched:5:msg_a" = some _ from hrow] at hnone
    cases hnone
  · rw [hlog] at hmem
    rcases List.mem_cons.mp hmem with hmem | hmem
    · cases hmem
    rcases List.mem_cons.mp hmem with hmem | hmem
    · cases hmem
    cases List.mem_singleton.mp hmem
    omega

end Anyhook.Cloudflare
