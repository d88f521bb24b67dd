import Anyhook.Delivery.Claim
import Anyhook.Delivery.Phase

/-! One fan-out per idempotency key. Any number of calls of `send` and of
`processMessage`, of either engine, run over one runtime and interleave port call by port
call; between two port calls endpoints are created, changed and deleted, the queue is read
and the scheduler advances. The call that makes the record of a key is the only one of
that key to fan out, and what the others return they read from the record. -/
namespace Anyhook.Delivery
open Anyhook.Core Anyhook.Testing Anyhook.Lib.Program Anyhook.Lib.Interleave
open Anyhook.Lib.OrderedMap

/-! ## The pool -/

inductive Task where
  | send (lang : Lang) (en : Engine) (event : SendEvent)
  | process (en : Engine) (job : Job)

/-- What happens before a port call, and what the environment answers it. -/
structure Moment where
  changes : List Change
  answer : Answer

def Moment.before (moment : Moment) (w : World) : World := w.changed moment.changes

/-- The state of a call: its stage or its phase, with what it is about. -/
inductive View where
  | sending (event : SendEvent) (key : String) (stage : Stage)
  | delivering (en : Engine) (m : Message) (phase : Phase)

def View.stage : View → Stage
  | .sending _ _ s => s
  | .delivering .. => .begun

def viewMonitor : Monitor Op Res View where
  allows
    | .sending event key s, op => s.allows event key op
    | .delivering en m p, op => p.allows en m op
  next
    | .sending event key s, op, r => .sending event key (s.next op r)
    | .delivering en m p, op, r => .delivering en m (p.next m op r)

namespace Task

def program : Task → Eng (Option Receipt)
  | .send lang en event => some <$> lang.send en event
  | .process en job => (fun _ => none) <$> job.process en

def view : Task → View
  | .send lang en event => .sending event (lang.keyOf en event) .begun
  | .process en job => .delivering en job.message .begun

/-- The message a delivery is made for. -/
def self : Task → Option Message
  | .send .. => none
  | .process _ job => some job.message

/-- A call of `send` with this tenant and idempotency key. -/
def HasKey (tenant key : String) : Task → Prop
  | .send lang en event => event.tenant = tenant ∧ lang.keyOf en event = key
  | .process .. => False

instance (tenant key : String) : (task : Task) → Decidable (task.HasKey tenant key)
  | .send .. => inferInstanceAs (Decidable (_ ∧ _))
  | .process .. => inferInstanceAs (Decidable False)

/-- A call of `send` whose event does not pass the checks. -/
def Refused : Task → Prop
  | .send _ en event => sendError en event ≠ none
  | .process .. => False

/-- The endpoints of the runtime that are enabled and subscribed to the event. -/
def wanting (w : World) : Task → List Endpoint
  | .send _ _ event =>
    (w.store.tenants event.tenant).endpoints.values.filter (wants event.type)
  | .process .. => []

end Task

variable {ι : Type} [DecidableEq ι]

abbrev FanConf (ι : Type) := Conf Op Res String (Option Receipt) World ι View

/-- No port fails. -/
def fanPool (tasks : ι → Task) : System Op Res String World Moment ι View where
  exec i moment op w :=
    (.ok (exec (tasks i).self moment.answer op (moment.before w)).1,
      (exec (tasks i).self moment.answer op (moment.before w)).2)
  monitor := viewMonitor

def fanStart (tasks : ι → Task) (w : World) : FanConf ι where
  shared := w
  rest i := (tasks i).program
  view i := (tasks i).view

/-- What a call has returned. -/
def receiptOf (c : FanConf ι) (i : ι) : Option Receipt := (c.rest i).result?.join

/-! ## The law -/

/-- What the calls with the key have done. `started` made a port call, `late` made their
first one after the call that fanned out had returned. `matched` asked for endpoints, and
these were enabled and subscribed then. `enqueued` is what was put on the transport. -/
structure FanLog (ι : Type) where
  started : List ι
  late : List ι
  matched : List (ι × List Endpoint)
  enqueued : List (ι × Message)

def FanLog.empty : FanLog ι where
  started := []
  late := []
  matched := []
  enqueued := []

/-- The first port call of `i`. -/
def FanLog.starting (log : FanLog ι) (c : FanConf ι) (i : ι) : FanLog ι :=
  if i ∈ log.started then log
  else { log with
    started := i :: log.started
    late := if log.matched.any fun p => (receiptOf c p.1).isSome then i :: log.late else log.late }

/-- A port call of `i`, made when `eps` were enabled and subscribed. -/
def FanLog.performing (log : FanLog ι) (i : ι) (eps : List Endpoint) : Op → FanLog ι
  | .matchEndpoints .. => { log with matched := log.matched ++ [(i, eps)] }
  | .transportSend m => { log with enqueued := log.enqueued ++ [(i, m)] }
  | _ => log

def noteFanout (tasks : ι → Task) (tenant key : String) (log : FanLog ι) (c : FanConf ι)
    (e : ι × Moment) : FanLog ι :=
  match (c.rest e.1).head with
  | none => log
  | some op =>
    if (tasks e.1).HasKey tenant key then
      (log.starting c e.1).performing e.1 ((tasks e.1).wanting (e.2.before c.shared)) op
    else log

/-- A message of the call's event, for the endpoint. -/
def Task.Made (task : Task) (eventId : String) (e : Endpoint) (m : Message) : Prop :=
  match task with
  | .send _ _ event => MessageFor event eventId e m
  | .process .. => False

structure FansOutOnce (tasks : ι → Task) (tenant key : String) (log : FanLog ι)
    (c : FanConf ι) : Prop where
  /-- A call that has returned a receipt made a port call. -/
  counted : ∀ i, (tasks i).HasKey tenant key → (receiptOf c i).isSome → i ∈ log.started
  /-- A call that has ended has returned a receipt, but for a refused event. -/
  returned : ∀ i, (tasks i).HasKey tenant key → ¬ (tasks i).Refused → (c.rest i).head = none →
    (receiptOf c i).isSome
  /-- Never two calls. -/
  atMostOne : log.matched.length ≤ 1
  /-- One, when there was a call and all have ended. -/
  exactlyOne : log.started ≠ [] → (∀ i ∈ log.started, (c.rest i).head = none) →
    ∃ i eps, log.matched = [(i, eps)] ∧ (receiptOf c i).isSome
  /-- The messages, in order and none twice; all of them once the call has returned. -/
  messages : ∀ i eps, (i, eps) ∈ log.matched →
    (∀ p ∈ log.enqueued, p.1 = i) ∧ (eps.map Endpoint.endpointId).Nodup ∧
      (∃ eventId, (∀ receipt, receiptOf c i = some receipt → receipt.eventId = eventId) ∧
        List.Forall₂ ((tasks i).Made eventId) (eps.take log.enqueued.length)
          (log.enqueued.map Prod.snd)) ∧
      ((receiptOf c i).isSome → log.enqueued.length = eps.length)
  nothingElse : log.matched = [] → log.enqueued = []
  sameEvent : ∀ i j receipt receipt', (tasks i).HasKey tenant key → (tasks j).HasKey tenant key →
    receiptOf c i = some receipt → receiptOf c j = some receipt' →
      receipt.eventId = receipt'.eventId
  /-- A call that started after the one that fanned out had returned. -/
  lateSame : ∀ i j eps receipt, i ∈ log.late → (j, eps) ∈ log.matched →
    receiptOf c i = some receipt → receiptOf c j = some receipt

/-! ## What a step changes -/

theorem Moment.before_events (moment : Moment) (w : World) (t : String) :
    ((moment.before w).store.tenants t).events = (w.store.tenants t).events := by
  obtain ⟨endpoints, h⟩ := w.changed_tenants moment.changes t
  unfold Moment.before
  rw [h]

/-- The record of the key. -/
def recordOf (tenant key : String) (w : World) : Option EventRecord :=
  (w.store.tenants tenant).events.get key

/-- Only `recordEvent` and `finalizeEvent` with the key change its record. -/
theorem recordOf_exec (tenant key : String) (self : Option Message) (moment : Moment) (op : Op)
    (w : World) :
    recordOf tenant key (exec self moment.answer op (moment.before w)).2 = match op with
      | .recordEvent t eventId k =>
        if t = tenant ∧ k = key ∧ recordOf tenant key w = none then
          some { eventId := eventId, messageCount := 0 }
        else recordOf tenant key w
      | .finalizeEvent t k eventId n =>
        if t = tenant ∧ k = key then some { eventId := eventId, messageCount := n }
        else recordOf tenant key w
      | _ => recordOf tenant key w := by
  unfold recordOf
  rw [exec_events]
  cases op with
  | recordEvent t eventId k =>
    dsimp only
    rw [moment.before_events]
    by_cases hk : k = key
    · subst hk
      by_cases ht : t = tenant
      · by_cases hnone : (w.store.tenants tenant).events.get k = none
        · simp [ht, hnone]
        · simp [ht, hnone]
      · simp [ht]
    · by_cases hnone : t = tenant ∧ (w.store.tenants tenant).events.get k = none
      · rw [if_pos hnone, OMap.get_set_of_ne _ hk, if_neg (by simp [hk])]
      · rw [if_neg hnone, if_neg (by simp [hk])]
  | finalizeEvent t k eventId n =>
    dsimp only
    rw [moment.before_events]
    by_cases ht : t = tenant
    · by_cases hk : k = key
      · subst hk
        simp [ht]
      · rw [if_pos ht, OMap.get_set_of_ne _ hk, if_neg (by simp [hk])]
    · simp [ht]
  | _ =>
    dsimp only
    rw [moment.before_events]

section Steps
variable {tasks : ι → Task} {c : FanConf ι} {i : ι} {moment : Moment}

/-- A call in the pool always gets an answer. -/
theorem fanPool_step {op : Op} {k : Res op → Eng (Option Receipt)} (hc : c.rest i = .call op k) :
    (fanPool tasks).step c (i, moment) =
      { shared := (exec (tasks i).self moment.answer op (moment.before c.shared)).2
        rest := Function.update c.rest i
          (k (exec (tasks i).self moment.answer op (moment.before c.shared)).1)
        view := Function.update c.view i (viewMonitor.next (c.view i) op
          (exec (tasks i).self moment.answer op (moment.before c.shared)).1) } := by
  unfold System.step
  simp only [hc]
  rfl

/-- What a call returns, it may return at its stage. -/
def returnsAt : View → Option Receipt → Prop
  | .sending _ _ s, some receipt => s.returns receipt
  | .sending .., none => False
  | .delivering .., r => r = none

/-- A send keeps its event and key, a delivery stays one. -/
def Task.Fits : Task → View → Prop
  | .send lang en event, .sending event' key _ => event' = event ∧ key = lang.keyOf en event
  | .process .., .delivering .. => True
  | _, _ => False

theorem obeys_view {event : SendEvent} {key : String} {s : Stage} {p : Eng Receipt}
    (h : Obeys (claimMonitor event key) Stage.returns s p) :
    Obeys viewMonitor returnsAt (.sending event key s) (some <$> p) := by
  induction p generalizing s with
  | pure receipt => exact h
  | throw e => trivial
  | call op k ih => exact ⟨h.1, fun r => ih r (h.2 r)⟩

theorem obeys_view_process {en : Engine} {m : Message} {phase : Phase} {p : Eng Unit}
    {done : Message × Phase → Unit → Prop} (h : Obeys (monitor en) done (m, phase) p) :
    Obeys viewMonitor returnsAt (.delivering en m phase) ((fun _ => none) <$> p) := by
  induction p generalizing phase with
  | pure u => exact rfl
  | throw e => trivial
  | call op k ih => exact ⟨h.1, fun r => ih r (h.2 r)⟩

omit [DecidableEq ι] in
theorem fanStart_obeyed (tasks : ι → Task) (w : World) :
    (fanPool tasks).Obeyed returnsAt (fanStart tasks w) := by
  intro i
  show Obeys viewMonitor returnsAt (tasks i).view (tasks i).program
  cases tasks i with
  | send lang en event => exact obeys_view (send_claim lang en event)
  | process en job =>
    dsimp only [Task.program]
    rw [job.process_eq]
    exact obeys_view_process (process_obeys job.lang.dialect en job.message)

/-- A call that has returned keeps its receipt. -/
theorem receipt_kept {op : Op} {k : Res op → Eng (Option Receipt)} (hc : c.rest i = .call op k)
    {j : ι} (hj : (receiptOf c j).isSome) :
    receiptOf ((fanPool tasks).step c (i, moment)) j = receiptOf c j := by
  have hji : j ≠ i := by
    intro he
    rw [he, receiptOf, hc] at hj
    cases hj
  unfold receiptOf
  rw [(System.step_other hji moment).1]

end Steps

/-! ## The invariant -/

section Invariant
variable (tasks : ι → Task) (tenant key : String)

/-- The endpoints of a match that get a message. -/
def Task.wanted (task : Task) (eps : List Endpoint) : List Endpoint :=
  match task with
  | .send _ _ event => eps.filter (wants event.type)
  | .process .. => []

/-- What the log shows of the fan-out of `o` to `eps`. -/
structure Fanned (log : FanLog ι) (o : ι) (eventId : String) (eps : List Endpoint)
    (sent : List Message) : Prop where
  matched : log.matched = [(o, (tasks o).wanted eps)]
  enqueued : log.enqueued = sent.map fun m => (o, m)
  made : List.Forall₂ ((tasks o).Made eventId) (((tasks o).wanted eps).take sent.length) sent
  nodup : (((tasks o).wanted eps).map Endpoint.endpointId).Nodup

/-- The stage of the call that made the record, and the log. -/
def OwnerAt (log : FanLog ι) (o : ι) (eventId : String) : Stage → Prop
  | .claimed id => id = eventId ∧ log.matched = [] ∧ log.enqueued = []
  | .matched id eps sent => id = eventId ∧ Fanned tasks log o eventId eps sent
  | .finalized id eps sent => id = eventId ∧ Fanned tasks log o eventId eps sent ∧
      sent.length = ((tasks o).wanted eps).length
  | _ => False

/-- What the record counts. -/
def Stage.count : Stage → Nat
  | .finalized _ _ sent => sent.length
  | _ => 0

/-- The key has no record. -/
structure Free (log : FanLog ι) (c : FanConf ι) : Prop where
  record : recordOf tenant key c.shared = none
  begun : ∀ i, (tasks i).HasKey tenant key → (c.view i).stage = .begun
  matched : log.matched = []
  enqueued : log.enqueued = []
  late : log.late = []

/-- The record is the one of `o`. -/
structure Owned (log : FanLog ι) (c : FanConf ι) (o : ι) (eventId : String) : Prop where
  hasKey : (tasks o).HasKey tenant key
  started : o ∈ log.started
  record : recordOf tenant key c.shared =
    some { eventId := eventId, messageCount := (c.view o).stage.count }
  owner : OwnerAt tasks log o eventId (c.view o).stage
  others : ∀ i, (tasks i).HasKey tenant key → i ≠ o → (c.view i).stage = .begun ∨
    ∃ n, (c.view i).stage = .told { isNew := false, eventId := eventId, messageCount := n } ∧
      (i ∈ log.late → n = (c.view o).stage.count)
  late : ∀ i ∈ log.late, (tasks i).HasKey tenant key ∧ i ≠ o ∧ (receiptOf c o).isSome

structure Sound (log : FanLog ι) (c : FanConf ι) : Prop where
  obeyed : (fanPool tasks).Obeyed returnsAt c
  fits : ∀ i, (tasks i).Fits (c.view i)
  fresh : ∀ i, (tasks i).HasKey tenant key → i ∉ log.started → (c.view i).stage = .begun
  total : ∀ i, (tasks i).HasKey tenant key →
    (∃ e, c.rest i = .throw e) ∧ (tasks i).Refused ∧ i ∉ log.started ∨ (c.rest i).Total
  hasKey : ∀ i ∈ log.started, (tasks i).HasKey tenant key
  state : Free tasks tenant key log c ∨ ∃ o eventId, Owned tasks tenant key log c o eventId

end Invariant

section Keep
variable {tasks : ι → Task} {tenant key : String} {log : FanLog ι} {c c' : FanConf ι} {o : ι}
variable {eventId : String}

omit [DecidableEq ι]

/-- A step that changes neither the record nor a stage of the key. -/
theorem Free.frame (h : Free tasks tenant key log c)
    (hrecord : recordOf tenant key c'.shared = recordOf tenant key c.shared)
    (hstage : ∀ i, (tasks i).HasKey tenant key → (c'.view i).stage = (c.view i).stage) :
    Free tasks tenant key log c' where
  record := hrecord.trans h.record
  begun i hi := (hstage i hi).trans (h.begun i hi)
  matched := h.matched
  enqueued := h.enqueued
  late := h.late

theorem Owned.frame (h : Owned tasks tenant key log c o eventId)
    (hrecord : recordOf tenant key c'.shared = recordOf tenant key c.shared)
    (hstage : ∀ i, (tasks i).HasKey tenant key → (c'.view i).stage = (c.view i).stage)
    (hreceipt : (receiptOf c o).isSome → (receiptOf c' o).isSome) :
    Owned tasks tenant key log c' o eventId where
  hasKey := h.hasKey
  started := h.started
  record := by rw [hrecord, hstage o h.hasKey, h.record]
  owner := by rw [hstage o h.hasKey]; exact h.owner
  others := by
    intro i hi hne
    rw [hstage o h.hasKey, hstage i hi]
    exact h.others i hi hne
  late := by
    intro i hi
    obtain ⟨hkey, hne, hr⟩ := h.late i hi
    exact ⟨hkey, hne, hreceipt hr⟩

theorem OwnerAt.congr {log' : FanLog ι} {s : Stage} (h : OwnerAt tasks log o eventId s)
    (hm : log'.matched = log.matched) (he : log'.enqueued = log.enqueued) :
    OwnerAt tasks log' o eventId s := by
  have hfan : ∀ {eps sent}, Fanned tasks log o eventId eps sent →
      Fanned tasks log' o eventId eps sent :=
    fun hf => ⟨hm.trans hf.matched, he.trans hf.enqueued, hf.made, hf.nodup⟩
  cases s with
  | claimed id => exact ⟨h.1, hm.trans h.2.1, he.trans h.2.2⟩
  | matched id eps sent => exact ⟨h.1, hfan h.2⟩
  | finalized id eps sent => exact ⟨h.1, hfan h.2.1, h.2.2⟩
  | begun => exact h
  | told rec => exact h

/-- The owner is the only call the log shows as fanning out. -/
theorem Owned.owner_of_matched (h : Owned tasks tenant key log c o eventId)
    {p : ι × List Endpoint} (hp : p ∈ log.matched) : p.1 = o := by
  have howner := h.owner
  cases hs : (c.view o).stage with
  | claimed id =>
    rw [hs] at howner
    rw [howner.2.1] at hp
    cases hp
  | matched id eps sent =>
    rw [hs] at howner
    rw [howner.2.matched] at hp
    rw [List.mem_singleton.mp hp]
  | finalized id eps sent =>
    rw [hs] at howner
    rw [howner.2.1.matched] at hp
    rw [List.mem_singleton.mp hp]
  | begun =>
    rw [hs] at howner
    exact absurd howner id
  | told rec =>
    rw [hs] at howner
    exact absurd howner id

end Keep

/-! ## The first port call of a call -/

section Starting
variable {tasks : ι → Task} {tenant key : String} {log : FanLog ι} {c : FanConf ι} {i o : ι}
variable {eventId : String}

@[simp] theorem FanLog.starting_matched : (log.starting c i).matched = log.matched := by
  unfold FanLog.starting
  split <;> rfl
@[simp] theorem FanLog.starting_enqueued : (log.starting c i).enqueued = log.enqueued := by
  unfold FanLog.starting
  split <;> rfl

theorem FanLog.mem_starting {j : ι} :
    j ∈ (log.starting c i).started ↔ j = i ∨ j ∈ log.started := by
  unfold FanLog.starting
  split
  · rename_i hi
    exact ⟨.inr, fun h => h.elim (fun he => he ▸ hi) id⟩
  · exact List.mem_cons

theorem FanLog.mem_starting_late {j : ι} (h : j ∈ (log.starting c i).late) :
    j ∈ log.late ∨ j = i ∧ i ∉ log.started ∧ ∃ p ∈ log.matched, (receiptOf c p.1).isSome := by
  unfold FanLog.starting at h
  split at h
  · exact .inl h
  · rename_i hi
    dsimp only at h
    split at h
    · rename_i hany
      obtain ⟨p, hp, hr⟩ := List.any_eq_true.mp hany
      rcases List.mem_cons.mp h with he | h
      · exact .inr ⟨he, hi, p, hp, hr⟩
      · exact .inl h
    · exact .inl h

theorem Free.starting (h : Free tasks tenant key log c) :
    Free tasks tenant key (log.starting c i) c where
  record := h.record
  begun := h.begun
  matched := FanLog.starting_matched.trans h.matched
  enqueued := FanLog.starting_enqueued.trans h.enqueued
  late := by
    rw [List.eq_nil_iff_forall_not_mem]
    intro j hj
    obtain hj | ⟨-, -, p, hp, -⟩ := FanLog.mem_starting_late hj
    · rw [h.late] at hj
      cases hj
    · rw [h.matched] at hp
      cases hp

theorem Owned.starting (h : Owned tasks tenant key log c o eventId)
    (hi : (tasks i).HasKey tenant key) (hfresh : i ∉ log.started → (c.view i).stage = .begun) :
    Owned tasks tenant key (log.starting c i) c o eventId where
  hasKey := h.hasKey
  started := FanLog.mem_starting.mpr (.inr h.started)
  record := h.record
  owner := h.owner.congr FanLog.starting_matched FanLog.starting_enqueued
  others := by
    intro j hj hne
    refine (h.others j hj hne).imp_right fun ⟨n, hn, hlate⟩ => ⟨n, hn, fun hmem => ?_⟩
    obtain hmem | ⟨rfl, hnew, -⟩ := FanLog.mem_starting_late hmem
    · exact hlate hmem
    · rw [hfresh hnew] at hn
      cases hn
  late := by
    intro j hj
    obtain hj | ⟨rfl, hnew, p, hp, hr⟩ := FanLog.mem_starting_late hj
    · exact h.late j hj
    · rw [h.owner_of_matched hp] at hr
      exact ⟨hi, fun he => hnew (he ▸ h.started), hr⟩

end Starting

/-! ## A port call of a call with the key -/

section Performing
variable {tasks : ι → Task} {tenant key : String} {log : FanLog ι} {c : FanConf ι} {i o : ι}
variable {eventId : String} {moment : Moment} {op : Op} {k : Res op → Eng (Option Receipt)}

/-- The stage of the call that moved, and those of the others. -/
theorem step_stage (hc : c.rest i = .call op k) (j : ι) :
    (((fanPool tasks).step c (i, moment)).view j).stage = if j = i then
      (viewMonitor.next (c.view i) op
        (exec (tasks i).self moment.answer op (moment.before c.shared)).1).stage
      else (c.view j).stage := by
  rw [fanPool_step hc]
  by_cases hj : j = i
  · subst hj
    simp
  · simp [hj]

theorem step_record (hc : c.rest i = .call op k) :
    recordOf tenant key ((fanPool tasks).step c (i, moment)).shared =
      recordOf tenant key (exec (tasks i).self moment.answer op (moment.before c.shared)).2 := by
  rw [fanPool_step hc]

omit [DecidableEq ι] in
/-- A call about to be made has not returned, so no call is late to the one that makes it. -/
theorem Owned.late_of_call (h : Owned tasks tenant key log c o eventId)
    (hc : c.rest o = .call op k) : log.late = [] := by
  rw [List.eq_nil_iff_forall_not_mem]
  intro j hj
  obtain ⟨-, -, hr⟩ := h.late j hj
  rw [receiptOf, hc] at hr
  cases hr

omit [DecidableEq ι] in
/-- A call at a stage of the owner is the owner. -/
theorem Owned.eq_owner (h : Owned tasks tenant key log c o eventId)
    (hi : (tasks i).HasKey tenant key) (hb : (c.view i).stage ≠ .begun)
    (ht : ∀ rec, (c.view i).stage ≠ .told rec) : i = o := by
  by_contra hne
  obtain hs | ⟨n, hs, -⟩ := h.others i hi hne
  · exact hb hs
  · exact ht _ hs

/-- The owner goes from one of its stages to the next; the others stay. -/
theorem Owned.advance (h : Owned tasks tenant key log c o eventId) (hc : c.rest o = .call op k)
    {log' : FanLog ι} {s : Stage}
    (hstage : (((fanPool tasks).step c (o, moment)).view o).stage = s)
    (hrecord : recordOf tenant key ((fanPool tasks).step c (o, moment)).shared =
      some { eventId := eventId, messageCount := s.count })
    (howner : OwnerAt tasks log' o eventId s) (hstarted : log'.started = log.started)
    (hlate : log'.late = log.late) :
    Owned tasks tenant key log' ((fanPool tasks).step c (o, moment)) o eventId where
  hasKey := h.hasKey
  started := hstarted ▸ h.started
  record := by rw [hstage]; exact hrecord
  owner := by rw [hstage]; exact howner
  others := by
    intro j hj hne
    rw [step_stage hc, if_neg hne, hlate, h.late_of_call hc]
    refine (h.others j hj hne).imp_right fun ⟨n, hn, _⟩ => ⟨n, hn, fun hmem => ?_⟩
    cases hmem
  late := by
    intro j hj
    rw [hlate, h.late_of_call hc] at hj
    cases hj

/-- The first `recordEvent` makes the record. -/
theorem Free.recordEvent {t k' : String} {kont : EventRecordResult → Eng (Option Receipt)}
    {event : SendEvent} (h : Free tasks tenant key log c)
    (hc : c.rest i = .call (.recordEvent t eventId k') kont)
    (hi : (tasks i).HasKey tenant key) (hv : c.view i = .sending event key .begun)
    (ht : t = tenant) (hk : k' = key) (hstarted : i ∈ log.started) :
    Owned tasks tenant key log ((fanPool tasks).step c (i, moment)) i eventId := by
  subst ht hk
  have hnone : (((moment.before c.shared).store.tenants t).events.get k') = none := by
    rw [moment.before_events]
    exact h.record
  have hnew : (exec (tasks i).self moment.answer (.recordEvent t eventId k')
      (moment.before c.shared)).1 = { isNew := true, eventId := eventId, messageCount := 0 } := by
    simp [exec, MemoryStateStore.recordEvent, hnone]
  have hstage : (((fanPool tasks).step c (i, moment)).view i).stage = .claimed eventId := by
    rw [step_stage hc, if_pos rfl, hv, hnew]
    rfl
  refine ⟨hi, hstarted, ?_, ?_, ?_, ?_⟩
  · rw [step_record hc, recordOf_exec, hstage]
    exact if_pos ⟨rfl, rfl, h.record⟩
  · rw [hstage]
    exact ⟨rfl, h.matched, h.enqueued⟩
  · intro j hj hne
    left
    rw [step_stage hc, if_neg hne]
    exact h.begun j hj
  · intro j hj
    rw [h.late] at hj
    cases hj

/-- A later `recordEvent` is told what the record says. -/
theorem Owned.recordEvent {t id k' : String} {kont : EventRecordResult → Eng (Option Receipt)}
    {event : SendEvent} (h : Owned tasks tenant key log c o eventId)
    (hc : c.rest i = .call (.recordEvent t id k') kont)
    (hv : c.view i = .sending event key .begun)
    (ht : t = tenant) (hk : k' = key) :
    Owned tasks tenant key log ((fanPool tasks).step c (i, moment)) o eventId := by
  subst ht hk
  have hio : i ≠ o := by
    intro he
    have howner := h.owner
    rw [← he, hv] at howner
    exact howner
  have hsome : (((moment.before c.shared).store.tenants t).events.get k') =
      some { eventId := eventId, messageCount := (c.view o).stage.count } := by
    rw [moment.before_events]
    exact h.record
  have htold : (exec (tasks i).self moment.answer (.recordEvent t id k')
      (moment.before c.shared)).1 =
        { isNew := false, eventId := eventId, messageCount := (c.view o).stage.count } := by
    simp [exec, MemoryStateStore.recordEvent, hsome]
  have hstage : (((fanPool tasks).step c (i, moment)).view i).stage =
      .told { isNew := false, eventId := eventId, messageCount := (c.view o).stage.count } := by
    rw [step_stage hc, if_pos rfl, hv, htold]
    rfl
  have howner : (((fanPool tasks).step c (i, moment)).view o).stage = (c.view o).stage := by
    rw [step_stage hc, if_neg (Ne.symm hio)]
  refine ⟨h.hasKey, h.started, ?_, ?_, ?_, ?_⟩
  · rw [step_record hc, recordOf_exec, howner]
    dsimp only
    rw [if_neg (by rw [h.record]; simp), h.record]
  · rw [howner]
    exact h.owner
  · intro j hj hne
    rw [howner]
    by_cases hji : j = i
    · subst hji
      exact .inr ⟨_, hstage, fun _ => rfl⟩
    · rw [step_stage hc, if_neg hji]
      exact h.others j hj hne
  · intro j hj
    obtain ⟨hkey, hne, hr⟩ := h.late j hj
    exact ⟨hkey, hne, by rw [receipt_kept hc hr]; exact hr⟩

/-- The owner asks for the endpoints of its event. -/
theorem Owned.matchEndpoints {t type id : String} {kont : List Endpoint → Eng (Option Receipt)}
    {lang : Lang} {en : Engine} {event : SendEvent} (h : Owned tasks tenant key log c o eventId)
    (hc : c.rest o = .call (.matchEndpoints t type) kont)
    (htask : tasks o = .send lang en event) (hv : c.view o = .sending event key (.claimed id))
    (ht : t = event.tenant) (htype : type = event.type) :
    Owned tasks tenant key (log.performing o ((tasks o).wanting (moment.before c.shared))
      (.matchEndpoints t type)) ((fanPool tasks).step c (o, moment)) o eventId := by
  subst ht htype
  have howner := h.owner
  rw [hv] at howner
  obtain ⟨rfl, hm, he⟩ := howner
  let eps := (moment.before c.shared).store.matchEndpoints event.tenant event.type
  have hwanted : (tasks o).wanted eps = (tasks o).wanting (moment.before c.shared) := by
    rw [htask]
    show (List.filter _ _).filter _ = _
    rw [List.filter_filter]
    refine List.filter_congr fun e _ => ?_
    simp only [wants]
    cases subscribes e event.type <;> simp
  refine h.advance hc (s := .matched id eps []) ?_ ?_ ?_ rfl rfl
  · rw [step_stage hc, if_pos rfl, hv]
    rfl
  · rw [step_record hc, recordOf_exec]
    exact h.record.trans (by rw [hv]; rfl)
  · refine ⟨rfl, ?_, ?_, .nil, ?_⟩
    · simp [FanLog.performing, hm, hwanted]
    · exact he
    · rw [hwanted, htask]
      have hnodup := ((moment.before c.shared).store.tenants event.tenant).endpoints.nodup_keys
      exact hnodup.sublist (List.Sublist.map _ List.filter_sublist)

/-- The owner puts the next message on the transport. -/
theorem Owned.transportSend {m : Message} {kont : Unit → Eng (Option Receipt)} {lang : Lang}
    {en : Engine} {event : SendEvent} {id : String} {eps : List Endpoint} {sent : List Message}
    {wanting : List Endpoint} (h : Owned tasks tenant key log c o eventId)
    (hc : c.rest o = .call (.transportSend m) kont) (htask : tasks o = .send lang en event)
    (hv : c.view o = .sending event key (.matched id eps sent))
    (hnext : IsNext event id eps sent m) :
    Owned tasks tenant key (log.performing o wanting (.transportSend m))
      ((fanPool tasks).step c (o, moment)) o eventId := by
  have howner := h.owner
  rw [hv] at howner
  obtain ⟨rfl, hfan⟩ := howner
  refine h.advance hc (s := .matched id eps (sent ++ [m])) ?_ ?_ ?_ rfl rfl
  · rw [step_stage hc, if_pos rfl, hv]
    rfl
  · rw [step_record hc, recordOf_exec]
    exact h.record.trans (by rw [hv]; rfl)
  · obtain ⟨e, he, hm⟩ := hnext
    have hwanted : (tasks o).wanted eps = eps.filter (wants event.type) := by rw [htask]; rfl
    refine ⟨rfl, hfan.matched, ?_, ?_, hfan.nodup⟩
    · simp [FanLog.performing, hfan.enqueued]
    · have hmade := hfan.made
      rw [hwanted] at hmade ⊢
      rw [List.length_append, List.length_singleton, List.take_add_one, he]
      refine List.rel_append hmade ?_
      rw [htask]
      exact .cons hm .nil

/-- The owner finalizes the record. -/
theorem Owned.finalizeEvent {t k' id : String} {n : Nat} {kont : Unit → Eng (Option Receipt)}
    {lang : Lang} {en : Engine} {event : SendEvent} {eps : List Endpoint} {sent : List Message}
    (h : Owned tasks tenant key log c o eventId)
    (hc : c.rest o = .call (.finalizeEvent t k' id n) kont)
    (htask : tasks o = .send lang en event)
    (hv : c.view o = .sending event key (.matched id eps sent))
    (ht : t = tenant) (hk : k' = key) (hn : n = sent.length)
    (hlen : sent.length = (eps.filter (wants event.type)).length) :
    Owned tasks tenant key log ((fanPool tasks).step c (o, moment)) o eventId := by
  have howner := h.owner
  rw [hv] at howner
  obtain ⟨rfl, hfan⟩ := howner
  refine h.advance hc (s := .finalized id eps sent) ?_ ?_ ?_ rfl rfl
  · rw [step_stage hc, if_pos rfl, hv]
    rfl
  · rw [step_record hc, recordOf_exec]
    dsimp only
    rw [if_pos ⟨ht, hk⟩, hn]
    rfl
  · refine ⟨rfl, hfan, ?_⟩
    rw [htask]
    exact hlen

/-- A port call of a call with the key, after its start is noted. -/
theorem performing_state {event : SendEvent} {lang : Lang} {en : Engine} {s : Stage}
    (h : Free tasks tenant key log c ∨ ∃ o eventId, Owned tasks tenant key log c o eventId)
    (hc : c.rest i = .call op k) (hi : (tasks i).HasKey tenant key)
    (htask : tasks i = .send lang en event) (hv : c.view i = .sending event key s)
    (hallow : s.allows event key op) (hstarted : i ∈ log.started) :
    Free tasks tenant key (log.performing i ((tasks i).wanting (moment.before c.shared)) op)
        ((fanPool tasks).step c (i, moment)) ∨
      ∃ o eventId, Owned tasks tenant key
        (log.performing i ((tasks i).wanting (moment.before c.shared)) op)
        ((fanPool tasks).step c (i, moment)) o eventId := by
  have htenant : event.tenant = tenant := by
    rw [htask] at hi
    exact hi.1
  have hstage : (c.view i).stage = s := by rw [hv]; rfl
  -- a port call that moves neither the stage nor the record
  have hframe : (∀ r, s.next op r = s) →
      recordOf tenant key (exec (tasks i).self moment.answer op (moment.before c.shared)).2 =
        recordOf tenant key c.shared →
      Free tasks tenant key log ((fanPool tasks).step c (i, moment)) ∨
        ∃ o eventId, Owned tasks tenant key log ((fanPool tasks).step c (i, moment)) o eventId := by
    intro hnext hrec
    have hstages : ∀ j, (tasks j).HasKey tenant key →
        (((fanPool tasks).step c (i, moment)).view j).stage = (c.view j).stage := by
      intro j _
      rw [step_stage hc]
      split
      · rename_i hji
        rw [hji, hv]
        exact hnext _
      · rfl
    have hrecord : recordOf tenant key ((fanPool tasks).step c (i, moment)).shared =
        recordOf tenant key c.shared := (step_record hc).trans hrec
    rcases h with h | ⟨o, eventId, h⟩
    · exact .inl (h.frame hrecord hstages)
    · refine .inr ⟨o, eventId, h.frame hrecord hstages fun hr => ?_⟩
      rw [receipt_kept hc hr]
      exact hr
  -- the owner's port calls
  have howner : s ≠ .begun → (∀ rec, s ≠ .told rec) →
      ∃ eventId, Owned tasks tenant key log c i eventId := by
    intro hb ht
    rcases h with h | ⟨o, eventId, h⟩
    · exact absurd (hstage.symm.trans (h.begun i hi)) hb
    · obtain rfl := h.eq_owner hi (hstage ▸ hb) (hstage ▸ ht)
      exact ⟨eventId, h⟩
  cases op with
  | recordEvent t id k' =>
    obtain ⟨rfl, ht, hk⟩ := hallow
    rcases h with h | ⟨o, eventId, h⟩
    · exact .inr ⟨i, id, h.recordEvent hc hi hv (ht.trans htenant) hk hstarted⟩
    · exact .inr ⟨o, eventId, h.recordEvent hc hv (ht.trans htenant) hk⟩
  | matchEndpoints t type =>
    obtain ⟨⟨id, rfl⟩, ht, htype⟩ := hallow
    obtain ⟨eventId, h⟩ := howner (fun he => by cases he) fun rec he => by cases he
    exact .inr ⟨i, eventId, h.matchEndpoints hc htask hv ht htype⟩
  | transportSend m =>
    obtain ⟨id, eps, sent, rfl, hnext⟩ := hallow
    obtain ⟨eventId, h⟩ := howner (fun he => by cases he) fun rec he => by cases he
    exact .inr ⟨i, eventId, h.transportSend hc htask hv hnext⟩
  | finalizeEvent t k' id n =>
    obtain ⟨eps, sent, rfl, ht, hk, hn, hlen⟩ := hallow
    obtain ⟨eventId, h⟩ := howner (fun he => by cases he) fun rec he => by cases he
    exact .inr ⟨i, eventId, h.finalizeEvent hc htask hv (ht.trans htenant) hk hn hlen⟩
  | putMessage m => exact hframe (fun _ => rfl) (recordOf_exec ..)
  | now => exact hframe (fun _ => rfl) (recordOf_exec ..)
  | next => exact hframe (fun _ => rfl) (recordOf_exec ..)
  | _ => exact absurd hallow id

/-- The call of another key, or a delivery, leaves the record alone. -/
theorem record_foreign {task : Task} {v : View} {w : World} {self : Option Message}
    (hfits : task.Fits v) (hallow : viewMonitor.allows v op) (hno : ¬ task.HasKey tenant key) :
    recordOf tenant key (exec self moment.answer op (moment.before w)).2 =
      recordOf tenant key w := by
  rw [recordOf_exec]
  cases v with
  | delivering en m phase =>
    cases op with
    | recordEvent => exact absurd hallow id
    | finalizeEvent => exact absurd hallow id
    | _ => rfl
  | sending event key' s =>
    cases task with
    | process en job => exact absurd hfits id
    | send lang en event' =>
      obtain ⟨rfl, rfl⟩ := hfits
      cases op with
      | recordEvent t id k' =>
        obtain ⟨-, rfl, rfl⟩ := hallow
        exact if_neg fun h => hno ⟨h.1, h.2.1⟩
      | finalizeEvent t k' id n =>
        obtain ⟨eps, sent, -, rfl, rfl, -⟩ := hallow
        exact if_neg fun h => hno h
      | _ => rfl

end Performing

/-! ## A step of the pool -/

section Step
variable {tasks : ι → Task} {tenant key : String} {log : FanLog ι} {c : FanConf ι} {i : ι}
variable {moment : Moment} {op : Op} {k : Res op → Eng (Option Receipt)}

omit [DecidableEq ι] in
theorem FanLog.performing_started (i : ι) (eps : List Endpoint) (op : Op) :
    (log.performing i eps op).started = log.started := by
  cases op <;> rfl

omit [DecidableEq ι] in
theorem Task.Fits.next {task : Task} {v : View} (h : task.Fits v) (op : Op) (r : Res op) :
    task.Fits (viewMonitor.next v op r) := by
  cases task <;> cases v <;> exact h

/-- The parts of the invariant about single calls, for any log that notes the start. -/
theorem Sound.calls (h : Sound tasks tenant key log c) (hc : c.rest i = .call op k)
    {log' : FanLog ι} (hstarted : ∀ j, j ∈ log'.started ↔
      (tasks i).HasKey tenant key ∧ j = i ∨ j ∈ log.started)
    (hstate : Free tasks tenant key log' ((fanPool tasks).step c (i, moment)) ∨
      ∃ o eventId, Owned tasks tenant key log' ((fanPool tasks).step c (i, moment)) o eventId) :
    Sound tasks tenant key log' ((fanPool tasks).step c (i, moment)) where
  obeyed := h.obeyed.step
  fits := by
    intro j
    by_cases hj : j = i
    · subst hj
      rw [fanPool_step hc]
      dsimp only
      rw [Function.update_self]
      exact (h.fits j).next op _
    · rw [(System.step_other hj moment).2]
      exact h.fits j
  fresh := by
    intro j hj hnew
    rw [hstarted] at hnew
    have hji : j ≠ i := fun he => hnew (.inl ⟨he ▸ hj, he⟩)
    rw [(System.step_other hji moment).2]
    exact h.fresh j hj fun hmem => hnew (.inr hmem)
  total := by
    intro j hj
    by_cases hji : j = i
    · subst hji
      right
      rw [fanPool_step hc]
      dsimp only
      rw [Function.update_self]
      obtain ⟨⟨e, he⟩, -⟩ | htotal := h.total j hj
      · rw [hc] at he
        cases he
      · rw [hc] at htotal
        exact htotal _
    · rw [(System.step_other hji moment).1]
      refine (h.total j hj).imp_left fun ⟨hthrow, hrefused, hnew⟩ =>
        ⟨hthrow, hrefused, fun hmem => ?_⟩
      rcases (hstarted j).mp hmem with ⟨-, he⟩ | hmem
      · exact hji he
      · exact hnew hmem
  hasKey := by
    intro j hmem
    rcases (hstarted j).mp hmem with ⟨hkey, he⟩ | hmem
    · exact he ▸ hkey
    · exact h.hasKey j hmem
  state := hstate

theorem Sound.step (h : Sound tasks tenant key log c) (e : ι × Moment) :
    Sound tasks tenant key (noteFanout tasks tenant key log c e) ((fanPool tasks).step c e) := by
  obtain ⟨i, moment⟩ := e
  unfold noteFanout
  dsimp only
  cases hc : c.rest i with
  | pure r =>
    have hsame : (fanPool tasks).step c (i, moment) = c := by simp [System.step, hc]
    rw [hsame]
    exact h
  | throw x =>
    have hsame : (fanPool tasks).step c (i, moment) = c := by simp [System.step, hc]
    rw [hsame]
    exact h
  | call op k =>
    have hallow := h.obeyed.allows hc
    dsimp only [Prog.head]
    split
    · rename_i hi
      refine h.calls hc (fun j => ?_) ?_
      · rw [FanLog.performing_started, FanLog.mem_starting]
        exact or_congr_left (and_iff_right hi).symm
      · have hfits := h.fits i
        have hview : ∃ lang en event s, tasks i = .send lang en event ∧
            c.view i = .sending event key s ∧ s.allows event key op := by
          cases htask : tasks i with
          | process en job =>
            rw [htask] at hi
            exact absurd hi id
          | send lang en event =>
            rw [htask] at hi hfits
            cases hv : c.view i with
            | delivering en m phase =>
              rw [hv] at hfits
              exact absurd hfits id
            | sending event' key' s =>
              rw [hv] at hfits hallow
              obtain ⟨rfl, rfl⟩ := hfits
              rw [hi.2] at hallow ⊢
              exact ⟨lang, en, event', s, rfl, rfl, hallow⟩
        obtain ⟨lang, en, event, s, htask, hv, hal⟩ := hview
        refine performing_state ?_ hc hi htask hv hal (FanLog.mem_starting.mpr (.inl rfl))
        rcases h.state with hfree | ⟨o, eventId, hheld⟩
        · exact .inl hfree.starting
        · exact .inr ⟨o, eventId, hheld.starting hi (h.fresh i hi)⟩
    · rename_i hi
      refine h.calls hc (fun j => by simp [hi]) ?_
      have hrecord : recordOf tenant key ((fanPool tasks).step c (i, moment)).shared =
          recordOf tenant key c.shared :=
        (step_record hc).trans (record_foreign (h.fits i) hallow hi)
      have hstages : ∀ j, (tasks j).HasKey tenant key →
          (((fanPool tasks).step c (i, moment)).view j).stage = (c.view j).stage := by
        intro j hj
        have hji : j ≠ i := fun he => hi (he ▸ hj)
        rw [(System.step_other hji moment).2]
      rcases h.state with hfree | ⟨o, eventId, hheld⟩
      · exact .inl (hfree.frame hrecord hstages)
      · refine .inr ⟨o, eventId, hheld.frame hrecord hstages fun hr => ?_⟩
        rw [receipt_kept hc hr]
        exact hr

omit [DecidableEq ι] in
theorem sound_start (tasks : ι → Task) {w : World} (h : recordOf tenant key w = none) :
    Sound tasks tenant key .empty (fanStart tasks w) where
  obeyed := fanStart_obeyed tasks w
  fits := by
    intro i
    show (tasks i).Fits (tasks i).view
    cases tasks i with
    | send lang en event => exact ⟨rfl, rfl⟩
    | process en job => trivial
  fresh := by
    intro i _ _
    show (tasks i).view.stage = .begun
    cases tasks i <;> rfl
  total := by
    intro i hi
    show (∃ e, (tasks i).program = .throw e) ∧ (tasks i).Refused ∧ i ∉ [] ∨
      (tasks i).program.Total
    cases htask : tasks i with
    | process en job =>
      rw [htask] at hi
      exact absurd hi id
    | send lang en event =>
      obtain ⟨e, herror, he⟩ | htotal := send_total lang en event
      · refine .inl ⟨⟨e, ?_⟩, ?_, List.not_mem_nil⟩
        · show some <$> lang.send en event = _
          rw [he]
          rfl
        · show sendError en event ≠ none
          rw [herror]
          exact Option.some_ne_none e
      · exact .inr (Prog.total_bind htotal fun _ => trivial)
  hasKey := by
    intro i hi
    cases hi
  state := by
    refine .inl ⟨h, fun i _ => ?_, rfl, rfl, rfl⟩
    show (tasks i).view.stage = .begun
    cases tasks i <;> rfl

end Step

/-! ## The result -/

section Result
variable {tasks : ι → Task} {tenant key : String} {log : FanLog ι} {c : FanConf ι} {i o : ι}
variable {eventId : String}

omit [DecidableEq ι]

/-- A call that has returned a receipt did so at its stage. -/
theorem Sound.returns (h : Sound tasks tenant key log c) {receipt : Receipt}
    (hr : receiptOf c i = some receipt) : (c.view i).stage.returns receipt := by
  have hobeys := h.obeyed i
  unfold receiptOf at hr
  cases hc : c.rest i with
  | throw x =>
    rw [hc] at hr
    cases hr
  | call op k =>
    rw [hc] at hr
    cases hr
  | pure r =>
    rw [hc] at hr hobeys
    have hsome : r = some receipt := hr
    rw [hsome] at hobeys
    cases hv : c.view i with
    | sending event k s =>
      rw [hv] at hobeys
      exact hobeys
    | delivering en m phase =>
      rw [hv] at hobeys
      cases (show some receipt = none from hobeys)

/-- The receipt of the owner, once there is one, is the one of the finalized record. -/
theorem Owned.owner_receipt (h : Owned tasks tenant key log c o eventId)
    (hs : Sound tasks tenant key log c) {receipt : Receipt} (hr : receiptOf c o = some receipt) :
    ∃ eps sent, (c.view o).stage = .finalized eventId eps sent ∧
      Fanned tasks log o eventId eps sent ∧ sent.length = ((tasks o).wanted eps).length ∧
      receipt = { eventId := eventId, accepted := true, messageCount := sent.length } := by
  have hreturns := hs.returns hr
  have howner := h.owner
  cases hstage : (c.view o).stage with
  | finalized id eps sent =>
    rw [hstage] at hreturns howner
    obtain ⟨rfl, hfan, hlen⟩ := howner
    exact ⟨eps, sent, rfl, hfan, hlen, hreturns⟩
  | begun =>
    rw [hstage] at howner
    exact absurd howner id
  | told rec =>
    rw [hstage] at howner
    exact absurd howner id
  | claimed id =>
    rw [hstage] at hreturns
    exact absurd hreturns (fun hf => hf)
  | matched id eps sent =>
    rw [hstage] at hreturns
    exact absurd hreturns (fun hf => hf)

theorem Owned.other_receipt (h : Owned tasks tenant key log c o eventId)
    (hs : Sound tasks tenant key log c) (hi : (tasks i).HasKey tenant key) (hne : i ≠ o)
    {receipt : Receipt} (hr : receiptOf c i = some receipt) :
    ∃ n, receipt = { eventId := eventId, accepted := true, messageCount := n } ∧
      (i ∈ log.late → n = (c.view o).stage.count) := by
  have hreturns := hs.returns hr
  obtain hb | ⟨n, ht, hlate⟩ := h.others i hi hne
  · rw [hb] at hreturns
    exact absurd hreturns id
  · rw [ht] at hreturns
    exact ⟨n, hreturns, hlate⟩

theorem Owned.eventId_of_receipt (h : Owned tasks tenant key log c o eventId)
    (hs : Sound tasks tenant key log c) (hi : (tasks i).HasKey tenant key)
    {receipt : Receipt} (hr : receiptOf c i = some receipt) : receipt.eventId = eventId := by
  by_cases hio : i = o
  · subst hio
    obtain ⟨eps, sent, -, -, -, rfl⟩ := h.owner_receipt hs hr
    rfl
  · obtain ⟨n, rfl, -⟩ := h.other_receipt hs hi hio hr
    rfl

/-- Where the key has no record no call of it has returned. -/
theorem Free.receipt_eq_none (h : Free tasks tenant key log c) (hs : Sound tasks tenant key log c)
    (hi : (tasks i).HasKey tenant key) : receiptOf c i = none := by
  cases hr : receiptOf c i with
  | none => rfl
  | some receipt =>
    have hreturns := hs.returns hr
    rw [h.begun i hi] at hreturns
    exact absurd hreturns id

/-- A call that is not about to make a port call has returned, unless its event was refused
before it made any. -/
theorem Sound.receipt_of_ended (h : Sound tasks tenant key log c)
    (hkey : (tasks i).HasKey tenant key) (hi : i ∈ log.started ∨ ¬ (tasks i).Refused)
    (hended : (c.rest i).head = none) : (receiptOf c i).isSome := by
  obtain ⟨-, hrefused, hnew⟩ | htotal := h.total i hkey
  · rcases hi with hi | hi
    · exact absurd hi hnew
    · exact absurd hrefused hi
  · have hobeys := h.obeyed i
    have hfits := h.fits i
    cases hc : c.rest i with
    | throw x =>
      rw [hc] at htotal
      exact absurd htotal id
    | call op k =>
      rw [hc] at hended
      cases hended
    | pure r =>
      cases hv : c.view i with
      | delivering en m phase =>
        rw [hv] at hfits
        cases htask : tasks i with
        | send lang en event =>
          rw [htask] at hfits
          exact absurd hfits id
        | process en job =>
          rw [htask] at hkey
          exact absurd hkey id
      | sending event k s =>
        rw [hc, hv] at hobeys
        cases r with
        | none => exact absurd hobeys id
        | some receipt => simp [receiptOf, hc, Prog.result?]

/-- A call with a receipt made a port call. -/
theorem Sound.started_of_receipt (h : Sound tasks tenant key log c)
    (hi : (tasks i).HasKey tenant key) (hsome : (receiptOf c i).isSome) : i ∈ log.started := by
  by_contra hnew
  obtain ⟨receipt, hr⟩ := Option.isSome_iff_exists.mp hsome
  have hreturns := h.returns hr
  rw [h.fresh i hi hnew] at hreturns
  exact absurd hreturns id

/-- The invariant gives the law. -/
theorem Sound.fansOutOnce (h : Sound tasks tenant key log c) :
    FansOutOnce tasks tenant key log c := by
  have hcounted : ∀ i, (tasks i).HasKey tenant key → (receiptOf c i).isSome → i ∈ log.started :=
    fun i hi hsome => h.started_of_receipt hi hsome
  have hreturned : ∀ i, (tasks i).HasKey tenant key → ¬ (tasks i).Refused →
      (c.rest i).head = none → (receiptOf c i).isSome :=
    fun i hi hvalid hended => h.receipt_of_ended hi (.inr hvalid) hended
  rcases h.state with hfree | ⟨o, eventId, hheld⟩
  · refine ⟨hcounted, hreturned, by simp [hfree.matched], ?_, ?_, fun _ => hfree.enqueued, ?_, ?_⟩
    · intro hne hended
      obtain ⟨i, hi⟩ := List.exists_mem_of_ne_nil _ hne
      have hsome := h.receipt_of_ended (h.hasKey i hi) (.inl hi) (hended i hi)
      rw [hfree.receipt_eq_none h (h.hasKey i hi)] at hsome
      cases hsome
    · intro i eps hmem
      rw [hfree.matched] at hmem
      cases hmem
    · intro i j receipt receipt' hi _ hr
      rw [hfree.receipt_eq_none h hi] at hr
      cases hr
    · intro i j eps receipt hlate
      rw [hfree.late] at hlate
      cases hlate
  · have hsplit : log.matched = [] ∧ log.enqueued = [] ∧ receiptOf c o = none ∨
        ∃ eps sent, Fanned tasks log o eventId eps sent ∧
          ((receiptOf c o).isSome → sent.length = ((tasks o).wanted eps).length) := by
      have howner := hheld.owner
      cases hstage : (c.view o).stage with
      | begun =>
        rw [hstage] at howner
        exact absurd howner id
      | told rec =>
        rw [hstage] at howner
        exact absurd howner id
      | claimed id =>
        rw [hstage] at howner
        refine .inl ⟨howner.2.1, howner.2.2, ?_⟩
        cases hr : receiptOf c o with
        | none => rfl
        | some receipt =>
          have hreturns := h.returns hr
          rw [hstage] at hreturns
          exact absurd hreturns (fun hf => hf)
      | matched id eps sent =>
        rw [hstage] at howner
        refine .inr ⟨eps, sent, howner.2, fun hsome => ?_⟩
        obtain ⟨receipt, hr⟩ := Option.isSome_iff_exists.mp hsome
        have hreturns := h.returns hr
        rw [hstage] at hreturns
        exact absurd hreturns (fun hf => hf)
      | finalized id eps sent =>
        rw [hstage] at howner
        exact .inr ⟨eps, sent, howner.2.1, fun _ => howner.2.2⟩
    refine ⟨hcounted, hreturned, ?_, ?_, ?_, ?_, ?_, ?_⟩
    · obtain ⟨hm, -⟩ | ⟨eps, sent, hfan, -⟩ := hsplit
      · simp [hm]
      · simp [hfan.matched]
    · intro _ hended
      have hsome := h.receipt_of_ended hheld.hasKey (.inl hheld.started) (hended o hheld.started)
      obtain ⟨-, -, hnone⟩ | ⟨eps, sent, hfan, -⟩ := hsplit
      · rw [hnone] at hsome
        cases hsome
      · exact ⟨o, _, hfan.matched, hsome⟩
    · intro i eps hmem
      obtain ⟨hm, -⟩ | ⟨eps', sent, hfan, hlen⟩ := hsplit
      · rw [hm] at hmem
        cases hmem
      · rw [hfan.matched] at hmem
        cases List.mem_singleton.mp hmem
        have hcount : log.enqueued.length = sent.length := by simp [hfan.enqueued]
        have hsent : log.enqueued.map Prod.snd = sent := by simp [hfan.enqueued]
        refine ⟨?_, hfan.nodup, ⟨eventId, fun receipt hr => ?_, ?_⟩, ?_⟩
        · intro p hp
          rw [hfan.enqueued] at hp
          obtain ⟨m, -, rfl⟩ := List.mem_map.mp hp
          rfl
        · exact hheld.eventId_of_receipt h hheld.hasKey hr
        · rw [hcount, hsent]
          exact hfan.made
        · rw [hcount]
          exact hlen
    · intro hnil
      obtain ⟨-, he, -⟩ | ⟨eps, sent, hfan, -⟩ := hsplit
      · exact he
      · rw [hfan.matched] at hnil
        cases hnil
    · intro i j receipt receipt' hi hj hr hr'
      rw [hheld.eventId_of_receipt h hi hr, hheld.eventId_of_receipt h hj hr']
    · intro i j eps receipt hlate hmem hr
      have hj : j = o := hheld.owner_of_matched hmem
      subst hj
      obtain ⟨hi, hne, hsome⟩ := hheld.late i hlate
      obtain ⟨receipt', hr'⟩ := Option.isSome_iff_exists.mp hsome
      obtain ⟨eps', sent, hstage, -, -, rfl⟩ := hheld.owner_receipt h hr'
      obtain ⟨n, rfl, hn⟩ := hheld.other_receipt h hi hne hr
      rw [hr', hn hlate, hstage]
      rfl

end Result

/-- For every pool of calls and every interleaving, from a runtime in which the key has no
record: the calls with the key fan out once. -/
theorem one_fanout_per_key (tasks : ι → Task) (tenant key : String) (w : World)
    (hfresh : recordOf tenant key w = none) (es : List (ι × Moment)) :
    FansOutOnce tasks tenant key
      ((fanPool tasks).noted (noteFanout tasks tenant key) .empty (fanStart tasks w) es)
      ((fanPool tasks).run (fanStart tasks w) es) := by
  refine Sound.fansOutOnce ?_
  exact System.noted_invariant (fun log c e h => Sound.step h e) (sound_start tasks hfresh)

/-- Two calls with one key, one in each engine; the second starts when the first has
returned, after its endpoint was deleted. -/
def twoSends : Bool → Task
  | true => .send .ts (plainEngine 5) orderCreated
  | false => .send .go (plainEngine 5) orderCreated

def quiet : Moment where
  changes := []
  answer := answering 0 .timeout

def oneAfterTheOther : List (Bool × Moment) :=
  List.replicate 50 (true, quiet) ++
    (false, { quiet with changes := [.deleteEndpoint "acme" "ep_1"] }) ::
      List.replicate 25 (false, quiet)

theorem two_sends_fan_out_once :
    recordOf "acme" "k" oneEndpoint = none ∧
      FansOutOnce twoSends "acme" "k"
        ((fanPool twoSends).noted (noteFanout twoSends "acme" "k") .empty
          (fanStart twoSends oneEndpoint) oneAfterTheOther)
        ((fanPool twoSends).run (fanStart twoSends oneEndpoint) oneAfterTheOther) := by
  have hfresh : recordOf "acme" "k" oneEndpoint = none := by decide +kernel
  exact ⟨hfresh, one_fanout_per_key twoSends "acme" "k" oneEndpoint hfresh oneAfterTheOther⟩

end Anyhook.Delivery
