import Anyhook.Lib.Interleave
import Anyhook.Aws.DynamoStore

/-! Concurrent `recordEvent` calls over a table whose default reads lag. A refused put
proves that the row exists; TypeScript then reads it with ConsistentRead, Go with a
default read that may not find it yet and takes the event for new. The calls of one key
agree on their event exactly as long as no such read comes back empty. -/
namespace Anyhook.Aws.Store
open Anyhook.Core Anyhook.Testing Anyhook.Lib.Program Anyhook.Lib.Interleave
open Anyhook.Lib.OrderedMap

/-! ## The system -/

structure RecordCall where
  lang : Lang
  tenant : String
  eventId : String
  idemKey : String

def RecordCall.program (j : RecordCall) : Ddb EventRecordResult :=
  match j.lang with
  | .ts => recordEvent j.tenant j.eventId j.idemKey
  | .go => goRecordEvent j.tenant j.eventId j.idemKey

variable {ι : Type} (jobs : ι → RecordCall)

abbrev RecordConf (ι : Type) := Conf TableOp TableRes String EventRecordResult Table ι Unit

/-- The calls need no watching: a call is where its program says. -/
def recordPool (ι : Type) : System TableOp TableRes String Table TableAnswer ι Unit where
  exec _ a op t := (.ok (tableExec a op t).1, (tableExec a op t).2)
  monitor := { allows := fun _ _ => True, next := fun _ _ _ => () }

/-- Every call at its first command, over an empty table. -/
def recordStart : RecordConf ι where
  shared := .empty
  rest i := (jobs i).program
  view _ := ()

/-! ## The law -/

def SameKey (j j' : RecordCall) : Prop := j.tenant = j'.tenant ∧ j.idemKey = j'.idemKey

/-- Among the calls of one key that have returned, one and only one found the event new,
and all return its event. -/
structure OneWinner (c : RecordConf ι) : Prop where
  once : ∀ i j r r', SameKey (jobs i) (jobs j) → c.rest i = .pure r → c.rest j = .pure r' →
    r.isNew = true → r'.isNew = true → i = j
  agree : ∀ i j r r', SameKey (jobs i) (jobs j) → c.rest i = .pure r → c.rest j = .pure r' →
    r'.isNew = true → r.eventId = r'.eventId
  won : ∀ i r, c.rest i = .pure r →
    ∃ j r', SameKey (jobs i) (jobs j) ∧ c.rest j = .pure r' ∧ r'.isNew = true

/-- The step is not a default read that finds nothing. -/
def SeesRow (c : RecordConf ι) (e : ι × TableAnswer) : Prop :=
  ∀ key, (c.rest e.1).head = some (.getItem key false) → c.shared.see e.2.lag key ≠ none

/-! ## Where a call can be -/

def RecordCall.key (j : RecordCall) : String × String := (tenantPk j.tenant, idemSk j.idemKey)

def RecordCall.row (j : RecordCall) : Row where
  pk := tenantPk j.tenant
  sk := idemSk j.idemKey
  attrs := .event { eventId := j.eventId, messageCount := 0 }
  version := none

def RecordCall.isConsistent (j : RecordCall) : Bool :=
  match j.lang with
  | .ts => true
  | .go => false

/-- What the call returns when it takes the event for new. -/
def RecordCall.fresh (j : RecordCall) : EventRecordResult where
  isNew := true
  eventId := j.eventId
  messageCount := 0

/-- What the call makes of the item it reads back. -/
def RecordCall.found (j : RecordCall) : Option Row → Ddb EventRecordResult
  | none => return j.fresh
  | some row => do
    let rec ← stripKeys Attrs.event? row
    return { isNew := false, eventId := rec.eventId, messageCount := rec.messageCount }

/-- The call after its put was refused. -/
def RecordCall.readBack (j : RecordCall) : Ddb EventRecordResult :=
  .call (.getItem j.key j.isConsistent) j.found

theorem RecordCall.program_eq (j : RecordCall) :
    j.program = .call (.putItem j.row .skAbsent) fun won =>
      if won then pure j.fresh else j.readBack := by
  have hwith : j.program = recordEventWith j.isConsistent j.tenant j.eventId j.idemKey := by
    unfold RecordCall.program RecordCall.isConsistent
    cases j.lang <;> rfl
  rw [hwith]
  refine congrArg (Prog.call _) (funext fun won => ?_)
  cases won with
  | true => rfl
  | false =>
    refine congrArg (Prog.call _) (funext fun item => ?_)
    cases item with
    | none => rfl
    | some row =>
      obtain ⟨pk, sk, attrs, version⟩ := row
      cases attrs <;> rfl

theorem RecordCall.key_eq_iff {j j' : RecordCall} : j.key = j'.key ↔ SameKey j j' := by
  simp [RecordCall.key, SameKey, tenantPk, idemSk, String.ext_iff]

/-! ## The invariant -/

/-- `winner` names the call that wrote the row of a key. Rows are written once, by calls
that then return; a call is at its start, or some call has won its key. -/
structure Raced (winner : String × String → Option ι) (c : RecordConf ι) : Prop where
  rows : ∀ key, c.shared.rows.get key = (winner key).map fun w => (jobs w).row
  won : ∀ key w, winner key = some w → (jobs w).key = key ∧ c.rest w = .pure (jobs w).fresh
  past : ∀ key, ∀ old ∈ c.shared.past key, old = none
  forms : ∀ i, c.rest i = (jobs i).program ∨
    (∃ w, winner (jobs i).key = some w) ∧ (c.rest i = (jobs i).readBack ∨ ∃ r, c.rest i = .pure r)

/-- The calls that have returned agree with the winner of their key. -/
def Agreed (winner : String × String → Option ι) (c : RecordConf ι) : Prop :=
  ∀ i r, c.rest i = .pure r → ∃ w, winner (jobs i).key = some w ∧
    r.eventId = (jobs w).eventId ∧ (r.isNew = true → i = w)

variable {jobs} {winner : String × String → Option ι} {c : RecordConf ι}

theorem raced_start : Raced jobs (fun _ => none) (recordStart jobs) where
  rows _ := rfl
  won _ _ h := by cases h
  past _ _ h := by cases h
  forms _ := .inl rfl

theorem agreed_start : Agreed jobs (fun _ => none) (recordStart jobs) := by
  intro i r h
  have hp := (jobs i).program_eq
  rw [show (jobs i).program = .pure r from h] at hp
  cases hp

/-- A read finds the row of its key or nothing. -/
theorem Raced.see (h : Raced jobs winner c) (lag : Nat) (key : String × String) :
    c.shared.see lag key = none ∨ c.shared.see lag key = c.shared.rows.get key := by
  cases lag with
  | zero => exact .inr (see_zero _ _)
  | succ n =>
    left
    rw [Table.see, List.drop_succ_cons]
    cases hd : ((c.shared.past key).drop n) with
    | nil => rfl
    | cons old rest =>
      have hold : old ∈ c.shared.past key :=
        List.mem_of_mem_drop (hd ▸ List.mem_cons_self : old ∈ (c.shared.past key).drop n)
      simp [h.past key old hold]

variable [DecidableEq ι]

/-- One command of a call: no command fails. -/
theorem recordPool_step {i : ι} {op : TableOp} {k : TableRes op → Ddb EventRecordResult}
    (hc : c.rest i = .call op k) (a : TableAnswer) :
    ((recordPool ι).step c (i, a)).shared = (tableExec a op c.shared).2 ∧
      ((recordPool ι).step c (i, a)).rest =
        Function.update c.rest i (k (tableExec a op c.shared).1) := by
  unfold System.step
  simp only [hc]
  exact ⟨rfl, rfl⟩

/-- A put on a free key wins it. -/
theorem Raced.win (h : Raced jobs winner c) {i : ι} (a : TableAnswer)
    (hc : c.rest i = (jobs i).program) (hfree : winner (jobs i).key = none) :
    Raced jobs (Function.update winner (jobs i).key (some i)) ((recordPool ι).step c (i, a)) ∧
      (Agreed jobs winner c →
        Agreed jobs (Function.update winner (jobs i).key (some i))
          ((recordPool ι).step c (i, a))) := by
  rw [RecordCall.program_eq] at hc
  obtain ⟨hs, hr⟩ := recordPool_step hc a
  have hget : c.shared.rows.get (jobs i).row.key = none := by
    rw [show (jobs i).row.key = (jobs i).key from rfl, h.rows, hfree]
    rfl
  have hx : tableExec a (.putItem (jobs i).row .skAbsent) c.shared =
      (true, c.shared.commit (jobs i).key (c.shared.rows.set (jobs i).key (jobs i).row)) := by
    simp only [tableExec, Condition.holds, hget]
    rfl
  rw [hx] at hs hr
  refine ⟨⟨?_, ?_, ?_, ?_⟩, ?_⟩
  · intro key
    rw [hs]
    by_cases hk : key = (jobs i).key
    · subst hk
      simp [Table.commit]
    · simp [Table.commit, OMap.get_set_of_ne _ (Ne.symm hk), hk, h.rows key]
  · intro key w hw
    rw [hr]
    by_cases hk : key = (jobs i).key
    · subst hk
      obtain rfl : i = w := by simpa using hw
      exact ⟨rfl, by simp; rfl⟩
    · rw [Function.update_of_ne hk] at hw
      obtain ⟨hkey, hrest⟩ := h.won key w hw
      have hne : w ≠ i := by
        intro he
        rw [he, hc] at hrest
        cases hrest
      exact ⟨hkey, by rw [Function.update_of_ne hne]; exact hrest⟩
  · intro key old hold
    rw [hs] at hold
    by_cases hk : key = (jobs i).key
    · subst hk
      rcases List.mem_cons.mp (by simpa [Table.commit] using hold) with rfl | hold
      · exact hget
      · exact h.past _ old hold
    · exact h.past key old (by simpa [Table.commit, hk] using hold)
  · intro j
    rw [hr]
    by_cases hj : j = i
    · subst hj
      exact .inr ⟨⟨j, by simp⟩, .inr ⟨(jobs j).fresh, by simp; rfl⟩⟩
    · rw [Function.update_of_ne hj]
      refine (h.forms j).imp_right fun hform => ⟨?_, hform.2⟩
      obtain ⟨w, hw⟩ := hform.1
      by_cases hk : (jobs j).key = (jobs i).key
      · exact ⟨i, by simp [hk]⟩
      · exact ⟨w, by simp [hk, hw]⟩
  · intro hag j r hj
    rw [hr] at hj
    by_cases hji : j = i
    · subst hji
      rw [Function.update_self] at hj
      cases hj
      exact ⟨j, by simp, rfl, fun _ => rfl⟩
    · rw [Function.update_of_ne hji] at hj
      obtain ⟨w, hw, hev, hnew⟩ := hag j r hj
      have hk : (jobs j).key ≠ (jobs i).key := by
        intro he
        rw [he, hfree] at hw
        cases hw
      exact ⟨w, by simp [hk, hw], hev, hnew⟩

/-- A call whose key is won moves on without touching the table. -/
theorem Raced.move (h : Raced jobs winner c) {c' : RecordConf ι} {i : ι}
    {p : Ddb EventRecordResult} (hs : c'.shared = c.shared)
    (hr : c'.rest = Function.update c.rest i p) (hi : ∀ r, c.rest i ≠ .pure r)
    (hw : ∃ w, winner (jobs i).key = some w) (hp : p = (jobs i).readBack ∨ ∃ r, p = .pure r) :
    Raced jobs winner c' := by
  refine ⟨hs ▸ h.rows, ?_, hs ▸ h.past, ?_⟩
  · intro key w hkey
    obtain ⟨hk, hrest⟩ := h.won key w hkey
    have hne : w ≠ i := by
      intro he
      rw [he] at hrest
      exact hi _ hrest
    exact ⟨hk, by rw [hr, Function.update_of_ne hne]; exact hrest⟩
  · intro j
    rw [hr]
    by_cases hj : j = i
    · subst hj
      rw [Function.update_self]
      exact .inr ⟨hw, hp⟩
    · rw [Function.update_of_ne hj]
      exact h.forms j

theorem Agreed.move (h : Agreed jobs winner c) {c' : RecordConf ι} {i : ι}
    {p : Ddb EventRecordResult} (hr : c'.rest = Function.update c.rest i p)
    (hp : ∀ r, p = .pure r → ∃ w, winner (jobs i).key = some w ∧
      r.eventId = (jobs w).eventId ∧ (r.isNew = true → i = w)) : Agreed jobs winner c' := by
  intro j r hj
  rw [hr] at hj
  by_cases hji : j = i
  · subst hji
    rw [Function.update_self] at hj
    exact hp r hj
  · rw [Function.update_of_ne hji] at hj
    exact h j r hj

/-- A put on a key that is won is refused. -/
theorem Raced.refused (h : Raced jobs winner c) {i w : ι} (a : TableAnswer)
    (hc : c.rest i = (jobs i).program) (hw : winner (jobs i).key = some w) :
    ((recordPool ι).step c (i, a)).shared = c.shared ∧
      ((recordPool ι).step c (i, a)).rest = Function.update c.rest i (jobs i).readBack := by
  rw [RecordCall.program_eq] at hc
  have hget : c.shared.rows.get (jobs i).row.key = some (jobs w).row := by
    rw [show (jobs i).row.key = (jobs i).key from rfl, h.rows, hw]
    rfl
  have hx : tableExec a (.putItem (jobs i).row .skAbsent) c.shared = (false, c.shared) := by
    simp only [tableExec, Condition.holds, hget]
    rfl
  simpa [hx] using recordPool_step hc a

/-- A read-back returns at once: the winner's event, or its own when it found nothing. -/
theorem Raced.read (h : Raced jobs winner c) {i w : ι} (a : TableAnswer)
    (hc : c.rest i = (jobs i).readBack) (hw : winner (jobs i).key = some w) :
    ∃ r, ((recordPool ι).step c (i, a)).shared = c.shared ∧
      ((recordPool ι).step c (i, a)).rest = Function.update c.rest i (.pure r) ∧
      (SeesRow c (i, a) → r.isNew = false ∧ r.eventId = (jobs w).eventId) ∧
      (¬ SeesRow c (i, a) → r.isNew = true) := by
  obtain ⟨hs, hr⟩ := recordPool_step hc a
  have hsees : SeesRow c (i, a) ↔
      c.shared.see (if (jobs i).isConsistent then 0 else a.lag) (jobs i).key ≠ none := by
    unfold SeesRow
    rw [hc]
    simp only [RecordCall.readBack, Prog.head]
    cases (jobs i).isConsistent with
    | true => simp [see_zero, h.rows, hw]
    | false => simp
  rcases h.see (if (jobs i).isConsistent then 0 else a.lag) (jobs i).key with hnone | hrow
  · refine ⟨(jobs i).fresh, hs, ?_, fun hyes => absurd hnone (hsees.mp hyes), fun _ => rfl⟩
    rw [hr]
    simp only [tableExec, hnone]
    rfl
  · rw [h.rows, hw] at hrow
    refine ⟨{ isNew := false, eventId := (jobs w).eventId, messageCount := 0 }, hs, ?_,
      fun _ => ⟨rfl, rfl⟩, fun hno => absurd (hsees.mpr ?_) hno⟩
    · rw [hr]
      simp only [tableExec, hrow]
      rfl
    · rw [hrow]
      exact Option.some_ne_none _

/-- A step keeps the race in order, and keeps its calls agreed unless a read finds nothing. -/
theorem Raced.step (h : Raced jobs winner c) (e : ι × TableAnswer) :
    ∃ winner', Raced jobs winner' ((recordPool ι).step c e) ∧
      (SeesRow c e → Agreed jobs winner c → Agreed jobs winner' ((recordPool ι).step c e)) := by
  obtain ⟨i, a⟩ := e
  rcases h.forms i with hp | ⟨⟨w, hw⟩, hb | ⟨r, hr⟩⟩
  · have hcall : ∀ r, c.rest i ≠ .pure r := by
      intro r hr
      rw [hp, RecordCall.program_eq] at hr
      cases hr
    cases hw : winner (jobs i).key with
    | none =>
      obtain ⟨hrace, hag⟩ := h.win a hp hw
      exact ⟨_, hrace, fun _ => hag⟩
    | some w =>
      obtain ⟨hs, hr⟩ := h.refused a hp hw
      refine ⟨winner, h.move hs hr hcall ⟨w, hw⟩ (.inl rfl), fun _ hag => hag.move hr ?_⟩
      intro r hr
      cases hr
  · obtain ⟨r, hs, hr, hyes, -⟩ := h.read a hb hw
    have hcall : ∀ r, c.rest i ≠ .pure r := by
      intro r hr
      rw [hb] at hr
      cases hr
    refine ⟨winner, h.move hs hr hcall ⟨w, hw⟩ (.inr ⟨r, rfl⟩), fun hsee hag => hag.move hr ?_⟩
    intro r' hr'
    cases hr'
    obtain ⟨hold, hev⟩ := hyes hsee
    refine ⟨w, hw, hev, fun hnew => ?_⟩
    rw [hold] at hnew
    cases hnew
  · have hstay : (recordPool ι).step c (i, a) = c := by
      unfold System.step
      rw [hr]
    rw [hstay]
    exact ⟨winner, h, fun _ hag => hag⟩

omit [DecidableEq ι] in
theorem Raced.oneWinner (h : Raced jobs winner c) (hag : Agreed jobs winner c) :
    OneWinner jobs c := by
  have hwin : ∀ i r, c.rest i = .pure r → r.isNew = true →
      winner (jobs i).key = some i ∧ r.eventId = (jobs i).eventId := by
    intro i r hi hnew
    obtain ⟨w, hw, hev, hiw⟩ := hag i r hi
    obtain rfl := hiw hnew
    exact ⟨hw, hev⟩
  refine ⟨?_, ?_, ?_⟩
  · intro i j r r' hkey hi hj hnew hnew'
    have hwi := (hwin i r hi hnew).1
    rw [RecordCall.key_eq_iff.mpr hkey, (hwin j r' hj hnew').1] at hwi
    exact (Option.some.inj hwi).symm
  · intro i j r r' hkey hi hj hnew'
    obtain ⟨w, hw, hev, -⟩ := hag i r hi
    obtain ⟨hwj, hev'⟩ := hwin j r' hj hnew'
    rw [RecordCall.key_eq_iff.mpr hkey, hwj] at hw
    cases hw
    rw [hev, hev']
  · intro i r hi
    obtain ⟨w, hw, -, -⟩ := hag i r hi
    obtain ⟨hkey, hrest⟩ := h.won _ w hw
    exact ⟨w, (jobs w).fresh, RecordCall.key_eq_iff.mp hkey.symm, hrest, rfl⟩

/-- A read that finds nothing makes a second winner. -/
theorem Raced.second (h : Raced jobs winner c) {e : ι × TableAnswer} (hno : ¬ SeesRow c e) :
    ¬ OneWinner jobs ((recordPool ι).step c e) := by
  obtain ⟨i, a⟩ := e
  intro hone
  have hback : c.rest i = (jobs i).readBack ∧ ∃ w, winner (jobs i).key = some w := by
    rcases h.forms i with hp | ⟨hw, hb | ⟨r, hr⟩⟩
    · refine absurd (fun key hhead => ?_) hno
      rw [hp, RecordCall.program_eq] at hhead
      cases hhead
    · exact ⟨hb, hw⟩
    · refine absurd (fun key hhead => ?_) hno
      rw [hr] at hhead
      cases hhead
  obtain ⟨hb, w, hw⟩ := hback
  obtain ⟨r, -, hr, -, hnew⟩ := h.read a hb hw
  obtain ⟨hkey, hrest⟩ := h.won _ w hw
  have hne : w ≠ i := by
    intro he
    rw [he, hb] at hrest
    cases hrest
  refine hne (hone.once w i (jobs w).fresh r (RecordCall.key_eq_iff.mp hkey) ?_ ?_ rfl (hnew hno))
  · rw [hr, Function.update_of_ne hne]
    exact hrest
  · rw [hr, Function.update_self]

/-! ## The result -/

theorem Raced.along_iff (h : Raced jobs winner c) (hag : Agreed jobs winner c)
    (es : List (ι × TableAnswer)) :
    (recordPool ι).Along (fun c e => OneWinner jobs ((recordPool ι).step c e)) c es ↔
      (recordPool ι).Along SeesRow c es := by
  induction es generalizing c winner with
  | nil => exact Iff.rfl
  | cons e es ih =>
    obtain ⟨winner', hrace, hkeep⟩ := h.step e
    constructor
    · intro ⟨hone, hrest⟩
      have hsee : SeesRow c e := by
        by_contra hno
        exact h.second hno hone
      exact ⟨hsee, (ih hrace (hkeep hsee hag)).mp hrest⟩
    · intro ⟨hsee, hrest⟩
      exact ⟨hrace.oneWinner (hkeep hsee hag), (ih hrace (hkeep hsee hag)).mpr hrest⟩

/-- For every interleaving of `recordEvent` calls of both languages: the calls of each key
agree on one event after every step exactly when no default read came back empty. Only
Go reads so. -/
theorem record_event_agrees_iff (jobs : ι → RecordCall) (es : List (ι × TableAnswer)) :
    (recordPool ι).Along (fun c e => OneWinner jobs ((recordPool ι).step c e))
        (recordStart jobs) es ↔
      (recordPool ι).Along SeesRow (recordStart jobs) es :=
  raced_start.along_iff agreed_start es

def twoGoCalls (i : Fin 2) : RecordCall where
  lang := .go
  tenant := "acme"
  eventId := if i.val = 0 then "evt_a" else "evt_b"
  idemKey := "k"

/-- A replica that lags one write behind. -/
def lagging : TableAnswer where
  lag := 1
  size := 0
  more := false

/-- The first call records the event; the second is refused, reads a replica that has not
seen the row, and records the event as new once more. -/
theorem stale_read_back_records_twice :
    ¬ ∀ (jobs : Fin 2 → RecordCall) (es : List (Fin 2 × TableAnswer)),
      (recordPool (Fin 2)).Along (fun c e => OneWinner jobs ((recordPool (Fin 2)).step c e))
        (recordStart jobs) es := by
  intro h
  have hlast := (h twoGoCalls ([(0, lagging), (1, lagging)] ++ [(1, lagging)])).after
  have hsame := hlast.once 0 1 { isNew := true, eventId := "evt_a", messageCount := 0 }
    { isNew := true, eventId := "evt_b", messageCount := 0 } ⟨rfl, rfl⟩ rfl rfl rfl rfl
  exact absurd hsame (by decide)

end Anyhook.Aws.Store
