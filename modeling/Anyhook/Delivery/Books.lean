import Anyhook.Delivery.Wire
import Mathlib.Data.List.ReduceOption

/-! The books are honest. In every run of the service, however its calls interleave, fail and
are repeated: an entry of an attempt log stands for a POST of its own that was answered so, or
says that no POST was made; a message is stored as delivered only if a POST of it was answered
with success; and a dead letter has the reason of an entry that was logged as its last. -/
namespace Anyhook.Delivery
open Anyhook.Core Anyhook.Testing Anyhook.Lib.Program Anyhook.Lib.OrderedMap

/-! ## What an entry says -/

/-- What a call may make of the outcome of its POST. -/
def MayLog : Outcome → AttemptOutcome → Prop
  | .delivered, o => o = .delivered
  | .permanent, o => o = .dead
  | .retryable, o => o = .retried ∨ o = .dead

/-- The entry reports the answer of a POST, as one of the engines puts it. -/
def Reports (res : HttpResult) (a : Attempt) : Prop :=
  MayLog (outcomeOf res) a.outcome ∧ ∃ (lang : Lang) (latencyMs : Time),
    a.status = (lang.dialect.resultOf res latencyMs).status ∧
    a.respSnippet = (lang.dialect.resultOf res latencyMs).respSnippet

/-- The entry says that no POST was made. -/
def Unposted (a : Attempt) : Prop :=
  a.status = .network ∧ a.outcome = .dead ∧
    (a.respSnippet = "endpoint_gone" ∨ "ssrf_blocked:".toList <+: a.respSnippet.text.toList)

/-- The last entry of a message that was given up for this reason. -/
def Because : DlqReason → Attempt → Prop
  | .endpointGone, a => a.status = .network ∧ a.respSnippet = "endpoint_gone"
  | .blockedSsrf, a => a.status = .network ∧ "ssrf_blocked:".toList <+: a.respSnippet.text.toList
  | .permanent4xx, a => classifyOutcome a.status = .permanent
  | .exhaustedRetries, a => classifyOutcome a.status = .retryable
  | .circuitOpenExpired, _ => False

section Results
variable (lang : Lang)

theorem resultOf_status (res : HttpResult) (latencyMs : Time) :
    classifyOutcome (lang.dialect.resultOf res latencyMs).status = outcomeOf res := by
  cases lang with
  | ts => cases res <;> rfl
  | go =>
    cases res with
    | timeout => rfl
    | network => rfl
    | response n body headers =>
      show classifyOutcome (Go.deliveryResultOf (.response n body headers) latencyMs).status = _
      unfold Go.deliveryResultOf Go.statusOf outcomeOf
      by_cases h1 : n = -1
      · subst h1
        rfl
      · by_cases h2 : n = -2
        · subst h2
          rfl
        · simp [h1, h2]

theorem resultOf_posted (res : HttpResult) (latencyMs : Time) :
    (lang.dialect.resultOf res latencyMs).blockedBySsrf = false := by
  cases lang with
  | ts => cases res <;> rfl
  | go =>
    show (Go.deliveryResultOf res latencyMs).blockedBySsrf = false
    unfold Go.deliveryResultOf
    split <;> rfl

theorem refused_entry (v : Verdict) : (lang.dialect.refused v).blockedBySsrf = true ∧
    (lang.dialect.refused v).status = .network ∧
    "ssrf_blocked:".toList <+: (lang.dialect.refused v).respSnippet.text.toList := by
  cases lang with
  | ts =>
    refine ⟨rfl, rfl, ?_⟩
    show _ <+: ("ssrf_blocked:" ++ _ : String).toList
    rw [String.toList_append]
    exact List.prefix_append _ _
  | go =>
    refine ⟨rfl, rfl, ?_⟩
    show _ <+: ("ssrf_blocked:" ++ _ : String).toList
    rw [String.toList_append]
    exact List.prefix_append _ _

end Results

/-! ## What a call has to show -/

inductive Evidence where
  | nothing
  /-- A POST was answered, and no entry made of it. -/
  | answered (res : HttpResult)
  | logged (a : Attempt)

/-- The entries a call can make. -/
def Evidence.Shows (a : Attempt) : Evidence → Prop
  | .nothing => Unposted a
  | .answered res => Reports res a
  | .logged _ => False

/-- The entry is about this pass over the message. -/
structure Entry (m : Message) (a : Attempt) : Prop where
  tenant : a.tenant = m.tenant
  messageId : a.messageId = m.messageId
  attemptNo : a.attemptNo = m.attemptNo

def evidenceMonitor (m : Message) : Monitor Op Res Evidence where
  allows g
    | .post .. => g = .nothing
    | .appendAttempt a => Entry m a ∧ g.Shows a
    | .putMessage x => x.status = .delivered →
        x.key = m.key ∧ ∃ res, g = .answered res ∧ outcomeOf res = .delivered
    | .addToDlq x reason => x = m ∧
        ∃ a, g = .logged a ∧ Entry m a ∧ a.outcome = .dead ∧ Because reason a
    | _ => True
  next g
    | .post .., res => .answered res
    | .appendAttempt a, _ => .logged a
    | _, _ => g

/-- An operation that makes no entry and needs no evidence. -/
def Idle : Op → Prop
  | .post .. | .appendAttempt _ | .addToDlq .. => False
  | .putMessage x => x.status ≠ .delivered
  | _ => True

section Programs
variable {lang : Lang} {en : Engine} {m : Message} {g : Evidence}

theorem idle_obeys {α : Type} {done : Evidence → α → Prop} {p : Eng α}
    (hp : Prog.Only Idle p) (hd : ∀ a, done g a) : Obeys (evidenceMonitor m) done g p := by
  induction p with
  | pure a => exact hd a
  | throw e => trivial
  | call op k ih =>
    obtain ⟨hop, hk⟩ := hp
    have hallowed : (evidenceMonitor m).allows g op := by
      cases op with
      | putMessage x => exact fun hx => absurd hx hop
      | post | appendAttempt | addToDlq => exact absurd hop id
      | _ => trivial
    refine ⟨hallowed, fun r => ?_⟩
    have hsame : (evidenceMonitor m).next g op r = g := by
      cases op <;> first | rfl | exact absurd hop id
    rw [hsame]
    exact ih r (hk r)

theorem rateLimitGate_idle {d : Dialect} (ep : Endpoint) : Prog.Only Idle (rateLimitGate d m ep) := by
  unfold rateLimitGate
  cases ep.rateLimit with
  | none => trivial
  | some rate =>
    dsimp only
    split
    · refine Prog.only_call trivial fun now => Prog.only_call trivial fun stored =>
        Prog.only_call trivial fun _ => ?_
      split
      · trivial
      · exact Prog.only_call (fun h => by cases h) fun _ => Prog.only_call trivial fun _ => trivial
    · trivial

theorem circuitGate_idle {d : Dialect} : Prog.Only Idle (circuitGate d en m) := by
  refine Prog.only_call trivial fun stored => Prog.only_call trivial fun now => ?_
  dsimp only
  split
  · split
    · exact ⟨trivial, fun _ => trivial⟩
    · trivial
  · refine Prog.only_bind ?_ fun _ => trivial
    exact Prog.only_call (fun h => by cases h) fun _ =>
      Prog.only_bind ((d.wakeAt_reads _).only trivial trivial) fun _ => ⟨trivial, fun _ => trivial⟩

theorem record_evidence {a : Attempt} (ha : Entry m a) (hg : g.Shows a) :
    Obeys (evidenceMonitor m) (fun g' _ => g' = .logged a) g (record a) :=
  ⟨⟨ha, hg⟩, fun _ => ⟨trivial, fun _ => rfl⟩⟩

theorem dlq_evidence {a : Attempt} {reason : DlqReason} (ha : Entry m a)
    (hg : g.Shows { a with outcome := .dead }) (hwhy : Because reason { a with outcome := .dead }) :
    Obeys (evidenceMonitor m) (fun _ _ => True) g (dlq m a reason) := by
  have hentry : Entry m { a with outcome := .dead } := ⟨ha.tenant, ha.messageId, ha.attemptNo⟩
  have hstatus : (evidenceMonitor m).allows g (.putMessage { m with status := .dead }) := by
    intro h
    cases h
  refine obeys_perform_bind.mpr ⟨hstatus, fun _ => ?_⟩
  rw [obeys_bind]
  refine (record_evidence hentry hg).mono ?_
  intro g' _ hg'
  exact ⟨⟨rfl, _, hg', hentry, rfl, hwhy⟩, fun _ => trivial⟩

theorem endpointGone_evidence :
    Obeys (evidenceMonitor m) (fun _ _ => True) .nothing (endpointGone m) := by
  refine obeys_perform_bind.mpr ⟨trivial, fun ts => ?_⟩
  exact dlq_evidence ⟨rfl, rfl, rfl⟩ ⟨rfl, rfl, .inl rfl⟩ ⟨rfl, rfl⟩

/-- The result of a delivery, with what there is to show for it. -/
def Shown (lang : Lang) (g : Evidence) (result : DeliveryResult) : Prop :=
  (∃ res latencyMs, g = .answered res ∧ result = lang.dialect.resultOf res latencyMs) ∨
    (g = .nothing ∧ ∃ v, result = lang.dialect.refused v)

theorem deliverWith_evidence (ep : Endpoint) :
    Obeys (evidenceMonitor m) (Shown lang) .nothing (deliverWith lang.dialect en m ep) := by
  refine obeys_perform_bind.mpr ⟨trivial, fun v => ?_⟩
  split
  · refine obeys_perform_bind.mpr ⟨trivial, fun signedAt => ?_⟩
    refine obeys_perform_bind.mpr ⟨trivial, fun start => ?_⟩
    refine obeys_perform_bind.mpr ⟨rfl, fun res => ?_⟩
    exact obeys_perform_bind.mpr ⟨trivial, fun stop => .inl ⟨res, _, rfl, rfl⟩⟩
  · exact .inr ⟨rfl, v, rfl⟩

/-- What follows the answer of a delivery has the evidence it needs. -/
theorem outcome_evidence {result : DeliveryResult} (hshown : Shown lang g result)
    (circuit : CircuitRecord) (ts : Time) :
    Obeys (evidenceMonitor m) (fun _ _ => True) g
      (let attempt := attemptOf m result.status result.latencyMs result.respSnippet ts .retried
      match result.outcome with
      | .delivered => onDelivered m circuit attempt
      | .permanent => onPermanent en m circuit attempt result
      | .retryable => onRetryable lang.dialect en m circuit attempt result) := by
  obtain ⟨res, latencyMs, rfl, rfl⟩ | ⟨rfl, v, rfl⟩ := hshown
  · have hreports : ∀ outcome, MayLog (outcomeOf res) outcome → Evidence.Shows
        (attemptOf m (lang.dialect.resultOf res latencyMs).status
          (lang.dialect.resultOf res latencyMs).latencyMs
          (lang.dialect.resultOf res latencyMs).respSnippet ts outcome) (.answered res) :=
      fun _ h => ⟨h, lang, latencyMs, rfl, rfl⟩
    have hclass := resultOf_status lang res latencyMs
    dsimp only
    rw [lang.dialect.resultOf_outcome]
    cases hout : outcomeOf res with
    | delivered =>
      rw [hout] at hreports
      refine obeys_perform_bind.mpr ⟨trivial, fun _ => ?_⟩
      refine obeys_perform_bind.mpr ⟨fun _ => ⟨rfl, res, rfl, hout⟩, fun _ => ?_⟩
      exact (record_evidence ⟨rfl, rfl, rfl⟩ (hreports _ rfl)).mono fun _ _ _ => trivial
    | permanent =>
      rw [hout] at hreports hclass
      refine obeys_perform_bind.mpr ⟨trivial, fun now => ?_⟩
      refine obeys_perform_bind.mpr ⟨trivial, fun _ => ?_⟩
      rw [resultOf_posted]
      exact dlq_evidence ⟨rfl, rfl, rfl⟩ (hreports _ rfl) hclass
    | retryable =>
      rw [hout] at hreports hclass
      have hdead : Obeys (evidenceMonitor m) (fun _ _ => True) (.answered res) (dlq m
          (attemptOf m (lang.dialect.resultOf res latencyMs).status
            (lang.dialect.resultOf res latencyMs).latencyMs
            (lang.dialect.resultOf res latencyMs).respSnippet ts .retried) .exhaustedRetries) :=
        dlq_evidence ⟨rfl, rfl, rfl⟩ (hreports _ (.inr rfl)) hclass
      refine obeys_perform_bind.mpr ⟨trivial, fun now => ?_⟩
      refine obeys_perform_bind.mpr ⟨trivial, fun _ => ?_⟩
      rw [obeys_bind]
      refine idle_obeys ((lang.dialect.nextDelayMs_reads _ _ _).only trivial trivial) fun delay => ?_
      cases delay with
      | none => exact hdead
      | some delay =>
        dsimp only
        rw [obeys_bind]
        refine (record_evidence ⟨rfl, rfl, rfl⟩ (hreports _ (.inl rfl))).mono ?_
        intro g' _ _
        have hretry : ∀ next : Message, next.status = .retrying →
            (evidenceMonitor m).allows g' (.putMessage next) := by
          intro next hnext hdelivered
          rw [hnext] at hdelivered
          cases hdelivered
        refine obeys_perform_bind.mpr ⟨trivial, fun base => ?_⟩
        exact obeys_perform_bind.mpr ⟨hretry _ rfl, fun _ => ⟨trivial, fun _ => trivial⟩⟩
  · obtain ⟨hblocked, hstatus, hsnippet⟩ := refused_entry lang v
    dsimp only
    rw [lang.dialect.refused_outcome]
    refine obeys_perform_bind.mpr ⟨trivial, fun now => ?_⟩
    refine obeys_perform_bind.mpr ⟨trivial, fun _ => ?_⟩
    rw [hblocked]
    exact dlq_evidence ⟨rfl, rfl, rfl⟩ ⟨hstatus, rfl, .inr hsnippet⟩ ⟨hstatus, hsnippet⟩

/-- **Every path of either engine writes its books on evidence.** -/
theorem process_evidence :
    Obeys (evidenceMonitor m) (fun _ _ => True) .nothing (processWith lang.dialect en m) := by
  refine obeys_perform_bind.mpr ⟨trivial, fun endpoint => ?_⟩
  cases endpoint with
  | none => exact endpointGone_evidence
  | some ep =>
    dsimp only
    split
    · exact endpointGone_evidence
    · rw [obeys_bind]
      refine idle_obeys (rateLimitGate_idle ep) fun throttled => ?_
      split
      · trivial
      · rw [obeys_bind]
        refine idle_obeys circuitGate_idle fun circuit => ?_
        cases circuit with
        | none => trivial
        | some circuit =>
          have hstatus : (evidenceMonitor m).allows .nothing
              (.putMessage { m with status := .delivering }) := by
            intro h
            cases h
          refine obeys_perform_bind.mpr ⟨hstatus, fun _ => ?_⟩
          rw [obeys_bind]
          refine (deliverWith_evidence ep).mono ?_
          intro g result hshown
          exact obeys_perform_bind.mpr ⟨trivial, fun ts => outcome_evidence hshown circuit ts⟩

end Programs

/-! ## The books of one message -/

/-- The entry stands for the answer at this index, or says that there is none. -/
def Attests (answers : List HttpResult) (a : Attempt) : Option Nat → Prop
  | none => Unposted a
  | some n => ∃ res, answers[n]? = some res ∧ Reports res a

theorem getElem?_of_prefix {α : Type} {l l' : List α} (h : l <+: l') {n : Nat} {x : α}
    (hx : l[n]? = some x) : l'[n]? = some x := by
  obtain ⟨more, rfl⟩ := h
  rw [List.getElem?_append_left (List.getElem?_eq_some_iff.mp hx).1]
  exact hx

theorem Attests.grow {answers answers' : List HttpResult} (hgrow : answers <+: answers')
    {a : Attempt} {u : Option Nat} (h : Attests answers a u) : Attests answers' a u := by
  cases u with
  | none => exact h
  | some n =>
    obtain ⟨res, hres, hreports⟩ := h
    exact ⟨res, getElem?_of_prefix hgrow hres, hreports⟩

/-- An index in use is that of an answer. -/
theorem index_lt {answers : List HttpResult} {log : List Attempt} {used : List (Option Nat)}
    (h : List.Forall₂ (Attests answers) log used) {n : Nat} (hn : some n ∈ used) :
    n < answers.length := by
  induction h with
  | nil => cases hn
  | cons hu _ ih =>
    rcases List.mem_cons.mp hn with rfl | hn
    · obtain ⟨res, hres, -⟩ := hu
      exact (List.getElem?_eq_some_iff.mp hres).1
    · exact ih hn

/-! ## The books of a runtime -/

abbrev Key := String × String

/-- `used` gives the answers the entries of a log stand for; `hold` those that calls have to
show and not logged yet. -/
structure Audited {ι : Type} (w : World) (used : Key → List (Option Nat))
    (hold : ι → Option (Key × Nat)) : Prop where
  entries : ∀ key, List.Forall₂ (Attests (card w key).answers) (card w key).attempts (used key)
  once : ∀ key, (used key).reduceOption.Nodup
  free : ∀ i key n, hold i = some (key, n) →
    some n ∉ used key ∧ n < (card w key).answers.length
  apart : ∀ i j x, hold i = some x → hold j = some x → i = j
  delivered : ∀ key m, (card w key).stored = some m → m.status = .delivered →
    ∃ res ∈ (card w key).answers, outcomeOf res = .delivered
  dead : ∀ key, ∀ row ∈ (card w key).dlq, ∃ a ∈ (card w key).attempts, a.outcome = .dead ∧
    a.attemptNo = row.message.attemptNo ∧ Because row.reason a

/-- The evidence of a call for `m` is there. -/
def Evidence.Held (w : World) (h : Option (Key × Nat)) (m : Message) : Evidence → Prop
  | .nothing => True
  | .answered res => ∃ n, h = some (m.key, n) ∧ (card w m.key).answers[n]? = some res
  | .logged a => a ∈ (card w m.key).attempts

/-- Answers and entries only come on top. -/
structure Grown (w w' : World) : Prop where
  answers : ∀ key, (card w key).answers <+: (card w' key).answers
  attempts : ∀ key, (card w key).attempts <+: (card w' key).attempts

theorem Grown.refl (w : World) : Grown w w := ⟨fun _ => List.prefix_rfl, fun _ => List.prefix_rfl⟩

theorem Evidence.Held.grow {w w' : World} {h : Option (Key × Nat)} {m : Message} {g : Evidence}
    (hheld : g.Held w h m) (hgrown : Grown w w') : g.Held w' h m := by
  cases g with
  | nothing => trivial
  | answered res =>
    obtain ⟨n, hn, hres⟩ := hheld
    exact ⟨n, hn, getElem?_of_prefix (hgrown.answers m.key) hres⟩
  | logged a => exact (hgrown.attempts m.key).subset hheld

section Exec
variable {ι : Type} {w : World} {used : Key → List (Option Nat)} {hold : ι → Option (Key × Nat)}
  {op : Op}

section Touch
variable (self : Option Message) (a : Answer) (key : Key) (op : Op) (c : Card)

theorem touch_answers : (touch self a key op c).answers = match op with
    | .post .. => if self.map Message.key = some key then c.answers ++ [a.http] else c.answers
    | _ => c.answers := by
  unfold touch
  cases op <;> first | rfl | (dsimp only; split <;> rfl)

theorem touch_attempts : (touch self a key op c).attempts = match op with
    | .appendAttempt x => if (x.tenant, x.messageId) = key then c.attempts ++ [x] else c.attempts
    | _ => c.attempts := by
  unfold touch
  cases op <;> first | rfl | (dsimp only; split <;> rfl)

theorem touch_dlq : (touch self a key op c).dlq = match op with
    | .addToDlq m r =>
      if m.key = key then c.dlq ++ [{ message := m, reason := r }] else c.dlq
    | _ => c.dlq := by
  unfold touch
  cases op <;> first | rfl | (dsimp only; split <;> rfl)

theorem touch_stored : (touch self a key op c).stored = match op with
    | .putMessage m => if m.key = key then some m else c.stored
    | _ => c.stored := by
  unfold touch
  cases op <;> first | rfl | (dsimp only; split <;> rfl)

end Touch

theorem exec_grown (self : Option Message) (a : Answer) (op : Op) (w : World) :
    Grown w (exec self a op w).2 := by
  refine ⟨fun key => ?_, fun key => ?_⟩
  · rw [card_exec, touch_answers]
    split
    · split
      · exact List.prefix_append _ _
      · exact List.prefix_rfl
    · exact List.prefix_rfl
  · rw [card_exec, touch_attempts]
    split
    · split
      · exact List.prefix_append _ _
      · exact List.prefix_rfl
    · exact List.prefix_rfl

/-- A change of the runtime that leaves answers, entries and dead letters as they are. -/
theorem Audited.stores (h : Audited w used hold) {w' : World}
    (hanswers : ∀ key, (card w' key).answers = (card w key).answers)
    (hattempts : ∀ key, (card w' key).attempts = (card w key).attempts)
    (hdlq : ∀ key, (card w' key).dlq = (card w key).dlq)
    (hstored : ∀ key m, (card w' key).stored = some m → m.status = .delivered →
      (card w key).stored = some m ∨ ∃ res ∈ (card w key).answers, outcomeOf res = .delivered) :
    Audited w' used hold where
  entries key := by
    rw [hanswers, hattempts]
    exact h.entries key
  once := h.once
  free i key n hn := by
    rw [hanswers]
    exact h.free i key n hn
  apart := h.apart
  delivered key m hm hstatus := by
    rw [hanswers]
    rcases hstored key m hm hstatus with hold | hanswered
    · exact h.delivered key m hold hstatus
    · exact hanswered
  dead key row hrow := by
    rw [hdlq] at hrow
    rw [hattempts]
    exact h.dead key row hrow

/-- A port call that needs no evidence. -/
theorem Audited.idle (h : Audited w used hold) (hop : Idle op) (self : Option Message) (a : Answer) :
    Audited (exec self a op w).2 used hold := by
  refine h.stores (fun key => ?_) (fun key => ?_) (fun key => ?_) (fun key m hm hstatus => ?_)
  · rw [card_exec, touch_answers]
    split
    · exact absurd hop id
    · rfl
  · rw [card_exec, touch_attempts]
    split
    · exact absurd hop id
    · rfl
  · rw [card_exec, touch_dlq]
    split
    · exact absurd hop id
    · rfl
  · left
    rw [card_exec, touch_stored] at hm
    split at hm
    · split at hm
      · cases hm
        exact absurd hstatus hop
      · exact hm
    · exact hm

variable [DecidableEq ι] {m : Message} {i : ι} {g : Evidence}

/-- A POST is one answer more, for its call to show. -/
theorem Audited.post (h : Audited w used hold) (i : ι) (m : Message) (a : Answer) (url body : String)
    (headers : List (String × String)) (timeoutMs : Time) :
    Audited (exec (some m) a (.post url body headers timeoutMs) w).2 used
      (Function.update hold i (some (m.key, (card w m.key).answers.length))) := by
  have hgrown := exec_grown (some m) a (.post url body headers timeoutMs) w
  have hattempts : ∀ key, (card (exec (some m) a (.post url body headers timeoutMs) w).2
      key).attempts = (card w key).attempts := by
    intro key
    rw [card_exec, touch_attempts]
  refine ⟨?_, h.once, ?_, ?_, ?_, ?_⟩
  · intro key
    rw [hattempts]
    exact (h.entries key).imp fun _ _ hu => hu.grow (hgrown.answers key)
  · intro j key n hn
    have hlen := (hgrown.answers key).length_le
    by_cases hj : j = i
    · subst hj
      rw [Function.update_self] at hn
      obtain ⟨rfl, rfl⟩ := Prod.mk.inj (Option.some.inj hn)
      refine ⟨fun hmem => ?_, ?_⟩
      · exact absurd (index_lt (h.entries m.key) hmem) (lt_irrefl _)
      · rw [card_exec, touch_answers]
        simp
    · rw [Function.update_of_ne hj] at hn
      obtain ⟨hfree, hlt⟩ := h.free j key n hn
      exact ⟨hfree, hlt.trans_le hlen⟩
  · -- The new answer's index is past every other.
    have hnew : ∀ j, hold j ≠ some (m.key, (card w m.key).answers.length) := by
      intro j hj
      exact absurd (h.free j _ _ hj).2 (lt_irrefl _)
    intro j k x hj hk
    by_cases hji : j = i
    · by_cases hki : k = i
      · rw [hji, hki]
      · subst hji
        rw [Function.update_self] at hj
        rw [Function.update_of_ne hki, ← hj] at hk
        exact absurd hk (hnew k)
    · rw [Function.update_of_ne hji] at hj
      by_cases hki : k = i
      · subst hki
        rw [Function.update_self] at hk
        rw [← hk] at hj
        exact absurd hj (hnew j)
      · rw [Function.update_of_ne hki] at hk
        exact h.apart j k x hj hk
  · intro key x hx hstatus
    rw [card_exec, touch_stored] at hx
    obtain ⟨res, hres, hdelivered⟩ := h.delivered key x hx hstatus
    exact ⟨res, (hgrown.answers key).subset hres, hdelivered⟩
  · intro key row hrow
    rw [card_exec, touch_dlq] at hrow
    rw [hattempts]
    exact h.dead key row hrow

/-- A call that gives up what it has to show. -/
theorem Audited.release (h : Audited w used hold) (i : ι) :
    Audited w used (Function.update hold i none) := by
  have hold' : ∀ j x, Function.update hold i none j = some x → hold j = some x := by
    intro j x hj
    by_cases hji : j = i
    · subst hji
      rw [Function.update_self] at hj
      cases hj
    · rwa [Function.update_of_ne hji] at hj
  exact ⟨h.entries, h.once, fun j key n hn => h.free j key n (hold' j _ hn),
    fun j k x hj hk => h.apart j k x (hold' j x hj) (hold' k x hk), h.delivered, h.dead⟩

/-- An entry is made of what its call has to show. -/
theorem Audited.append (h : Audited w used hold) (hheld : g.Held w (hold i) m) {x : Attempt}
    (hx : Entry m x) (hshows : g.Shows x) (self : Option Message) (a : Answer) :
    ∃ u, Audited (exec self a (.appendAttempt x) w).2
      (Function.update used m.key (used m.key ++ [u])) (Function.update hold i none) := by
  -- What the entry stands for: the answer held, or none.
  obtain ⟨u, hu, hmine⟩ : ∃ u, Attests (card w m.key).answers x u ∧
      ∀ n, u = some n → hold i = some (m.key, n) := by
    cases g with
    | nothing => exact ⟨none, hshows, fun n hn => by cases hn⟩
    | answered res =>
      obtain ⟨n, hn, hres⟩ := hheld
      exact ⟨some n, ⟨res, hres, hshows⟩, fun n' hn' => by rw [← Option.some.inj hn']; exact hn⟩
    | logged y => exact absurd hshows id
  have hkey : (x.tenant, x.messageId) = m.key := by rw [hx.tenant, hx.messageId]; rfl
  have hgrown := exec_grown self a (.appendAttempt x) w
  have hanswers : ∀ key, (card (exec self a (.appendAttempt x) w).2 key).answers =
      (card w key).answers := by
    intro key
    rw [card_exec, touch_answers]
  have hattempts : ∀ key, (card (exec self a (.appendAttempt x) w).2 key).attempts =
      if m.key = key then (card w key).attempts ++ [x] else (card w key).attempts := by
    intro key
    rw [card_exec, touch_attempts]
    dsimp only
    rw [hkey]
  have hrelease := h.release i
  refine ⟨u, ?_, ?_, ?_, hrelease.apart, ?_, ?_⟩
  · intro key
    rw [hanswers, hattempts]
    by_cases hk : m.key = key
    · subst hk
      rw [if_pos rfl, Function.update_self]
      exact List.rel_append (h.entries m.key) (.cons hu .nil)
    · rw [if_neg hk, Function.update_of_ne (Ne.symm hk)]
      exact h.entries key
  · intro key
    by_cases hk : key = m.key
    · subst hk
      rw [Function.update_self, List.reduceOption_append, List.reduceOption_singleton]
      cases u with
      | none =>
        rw [Option.toList_none, List.append_nil]
        exact h.once m.key
      | some n =>
        have hfree := (h.free i m.key n (hmine n rfl)).1
        refine (h.once m.key).append (List.nodup_singleton n) ?_
        intro n' hn' hlast
        obtain rfl := List.mem_singleton.mp hlast
        exact hfree (List.reduceOption_mem_iff.mp hn')
    · rw [Function.update_of_ne hk]
      exact h.once key
  · intro j key n hn
    rw [hanswers]
    obtain ⟨hfree, hlt⟩ := hrelease.free j key n hn
    refine ⟨fun hmem => ?_, hlt⟩
    by_cases hk : key = m.key
    · subst hk
      rw [Function.update_self] at hmem
      rcases List.mem_append.mp hmem with hmem | hlast
      · exact hfree hmem
      · have hi := hmine n (List.mem_singleton.mp hlast).symm
        have hji : j ≠ i := by
          rintro rfl
          rw [Function.update_self] at hn
          cases hn
        rw [Function.update_of_ne hji] at hn
        exact hji (h.apart j i _ hn hi)
    · rw [Function.update_of_ne hk] at hmem
      exact hfree hmem
  · intro key y hy hstatus
    rw [card_exec, touch_stored] at hy
    rw [hanswers]
    exact h.delivered key y hy hstatus
  · intro key row hrow
    rw [card_exec, touch_dlq] at hrow
    obtain ⟨y, hy, hrest⟩ := h.dead key row hrow
    exact ⟨y, (hgrown.attempts key).subset hy, hrest⟩

/-- **One port call of a delivery.** What it enters into the books is true, and it holds what
it then has to show. -/
theorem Audited.exec (h : Audited w used hold) (hheld : g.Held w (hold i) m)
    (hop : (evidenceMonitor m).allows g op) (a : Answer) :
    ∃ used' x, Audited (exec (some m) a op w).2 used' (Function.update hold i x) ∧
      ((evidenceMonitor m).next g op (Testing.exec (some m) a op w).1).Held
        (Testing.exec (some m) a op w).2 x m := by
  have hgrown := exec_grown (some m) a op w
  have hidle : Idle op → (evidenceMonitor m).next g op (Testing.exec (some m) a op w).1 = g →
      ∃ used' x, Audited (Testing.exec (some m) a op w).2 used' (Function.update hold i x) ∧
        ((evidenceMonitor m).next g op (Testing.exec (some m) a op w).1).Held
          (Testing.exec (some m) a op w).2 x m := by
    intro hi hnext
    rw [hnext]
    refine ⟨used, hold i, ?_, hheld.grow hgrown⟩
    rw [Function.update_eq_self]
    exact h.idle hi _ a
  cases op with
  | post url body headers timeoutMs =>
    refine ⟨used, _, h.post i m a url body headers timeoutMs, _, rfl, ?_⟩
    rw [card_exec, touch_answers]
    simp only [Option.map_some, if_true]
    rw [List.getElem?_append_right le_rfl, Nat.sub_self]
    rfl
  | appendAttempt x =>
    obtain ⟨hx, hshows⟩ := hop
    obtain ⟨u, haudited⟩ := h.append hheld hx hshows (some m) a
    refine ⟨_, none, haudited, ?_⟩
    show x ∈ (card _ m.key).attempts
    rw [card_exec, touch_attempts]
    have hkey : (x.tenant, x.messageId) = m.key := by rw [hx.tenant, hx.messageId]; rfl
    simp [hkey]
  | putMessage x =>
    by_cases hx : x.status = .delivered
    · obtain ⟨hkey, res, rfl, hdelivered⟩ := hop hx
      obtain ⟨n, hn, hres⟩ := hheld
      refine ⟨used, hold i, ?_, Evidence.Held.grow ⟨n, hn, hres⟩ hgrown⟩
      rw [Function.update_eq_self]
      refine h.stores (fun key => ?_) (fun key => ?_) (fun key => ?_) (fun key y hy _ => ?_)
      · rw [card_exec, touch_answers]
      · rw [card_exec, touch_attempts]
      · rw [card_exec, touch_dlq]
      · rw [card_exec, touch_stored] at hy
        dsimp only at hy
        split at hy
        · rename_i heq
          rw [← heq, hkey]
          exact .inr ⟨res, List.mem_of_getElem? hres, hdelivered⟩
        · exact .inl hy
    · exact hidle hx rfl
  | addToDlq x reason =>
    obtain ⟨rfl, y, rfl, hentry, hdead, hwhy⟩ := hop
    refine ⟨used, hold i, ?_, hheld.grow hgrown⟩
    rw [Function.update_eq_self]
    have hanswers : ∀ key, (card (Testing.exec (some x) a (.addToDlq x reason) w).2 key).answers =
        (card w key).answers := by
      intro key
      rw [card_exec, touch_answers]
    have hattempts : ∀ key, (card (Testing.exec (some x) a (.addToDlq x reason) w).2
        key).attempts = (card w key).attempts := by
      intro key
      rw [card_exec, touch_attempts]
    refine ⟨?_, h.once, ?_, h.apart, ?_, ?_⟩
    · intro key
      rw [hanswers, hattempts]
      exact h.entries key
    · intro j key n hn
      rw [hanswers]
      exact h.free j key n hn
    · intro key z hz hstatus
      rw [card_exec, touch_stored] at hz
      rw [hanswers]
      exact h.delivered key z hz hstatus
    · intro key row hrow
      rw [card_exec, touch_dlq] at hrow
      rw [hattempts]
      dsimp only at hrow
      split at hrow
      · rename_i hkey
        rcases List.mem_append.mp hrow with hold | hnew
        · exact h.dead key row hold
        · obtain rfl := List.mem_singleton.mp hnew
          exact ⟨y, hkey ▸ hheld, hdead, hentry.attemptNo, hwhy⟩
      · exact h.dead key row hrow
  | _ => exact hidle trivial rfl

end Exec

/-! ## Whole runs -/

/-- A call has what it needs to go on. -/
def Call.Vouched (w : World) (h : Option (Key × Nat)) (call : Call) : Prop :=
  match call.view with
  | .sending .. => True
  | .delivering m _ => ∃ g, Obeys (evidenceMonitor m) (fun _ _ => True) g call.rest ∧ g.Held w h m

/-- The books are in order, and every call can go on with them. -/
def Truthful {ι : Type} (s : Service ι) : Prop :=
  ∃ used hold, Audited s.world used hold ∧
    ∀ i call, s.running i = some call → call.Vouched s.world (hold i)

section Runs
variable {ι : Type} {en : Engine} {s : Service ι} {used : Key → List (Option Nat)}
  {hold : ι → Option (Key × Nat)}

theorem Call.Vouched.grow {w w' : World} {h : Option (Key × Nat)} {call : Call}
    (hv : call.Vouched w h) (hgrown : Grown w w') : call.Vouched w' h := by
  unfold Call.Vouched at hv ⊢
  split at hv
  · trivial
  · obtain ⟨g, hobeys, hheld⟩ := hv
    exact ⟨g, hobeys, hheld.grow hgrown⟩

theorem obeys_evidence {m : Message} {g : Evidence} {p : Eng Unit}
    (h : Obeys (evidenceMonitor m) (fun _ _ => True) g p) :
    Obeys (evidenceMonitor m) (fun _ _ => True) g ((fun _ => (none : Option Receipt)) <$> p) := by
  induction p generalizing g with
  | pure u => trivial
  | throw e => trivial
  | call op k ih => exact ⟨h.1, fun r => ih r (h.2 r)⟩

/-- A call of `send` makes port calls that need no evidence. -/
theorem stage_idle {event : SendEvent} {key : String} {stage : Stage} {op : Op}
    (h : stage.allows event key op) : Idle op := by
  cases op with
  | putMessage m =>
    obtain ⟨eventId, eps, sent, -, ep, -, now, messageId, rfl⟩ := h
    intro hstatus
    cases hstatus
  | post | appendAttempt | addToDlq => exact absurd h id
  | _ => trivial

variable [DecidableEq ι]

/-- One slot holds another call, or none; the others keep theirs. -/
theorem Truthful.slot {w : World} {t : Trail} {i : ι} {x : Option (Key × Nat)}
    {call : Option Call} (haudited : Audited w used (Function.update hold i x))
    (hgrown : Grown s.world w)
    (hothers : ∀ j c, s.running j = some c → c.Vouched s.world (hold j))
    (hcall : ∀ c, call = some c → c.Vouched w x) :
    Truthful { s with world := w, running := Function.update s.running i call, trail := t } := by
  refine ⟨used, _, haudited, ?_⟩
  intro j c hc
  by_cases hj : j = i
  · subst hj
    rw [Function.update_self]
    exact hcall c ((Function.update_self j call s.running).symm.trans hc)
  · rw [Function.update_of_ne hj]
    have hother : s.running j = some c := (Function.update_of_ne hj call s.running).symm.trans hc
    exact (hothers j c hother).grow hgrown

omit [DecidableEq ι] in
/-- Queue, scheduler and endpoints are not in the books. -/
theorem Audited.cards {w : World} (h : Audited w used hold) (w' : World)
    (hstored : ∀ key, (card w' key).stored = (card w key).stored)
    (hattempts : ∀ key, (card w' key).attempts = (card w key).attempts)
    (hdlq : ∀ key, (card w' key).dlq = (card w key).dlq)
    (hanswers : ∀ key, (card w' key).answers = (card w key).answers) :
    Audited w' used hold ∧ Grown w w' := by
  refine ⟨h.stores hanswers hattempts hdlq fun key m hm _ => .inl (by rw [← hstored]; exact hm),
    fun key => ?_, fun key => ?_⟩
  · exact (hanswers key) ▸ List.prefix_rfl
  · exact (hattempts key) ▸ List.prefix_rfl

theorem Audited.same {w : World} (h : Audited w used hold) (i : ι) :
    Audited w used (Function.update hold i (hold i)) := by
  rw [Function.update_eq_self]
  exact h

theorem Truthful.send (h : Truthful s) (i : ι) (lang : Lang) (event : SendEvent) :
    Truthful (s.send en i lang event) := by
  unfold Service.send
  split
  · obtain ⟨used, hold, haudited, hcalls⟩ := h
    refine Truthful.slot (haudited.same i) (.refl _) hcalls ?_
    intro c hc
    cases hc
    trivial
  · exact h

theorem Truthful.take (h : Truthful s) (i : ι) (k : Nat) (lang : Lang) :
    Truthful (s.take en i k lang) := by
  unfold Service.take
  split
  · obtain ⟨used, hold, haudited, hcalls⟩ := h
    obtain ⟨hkept, hgrown⟩ := haudited.cards
      { s.world with queue := s.world.queue.eraseIdx k }
      (fun _ => rfl) (fun _ => rfl) (fun _ => rfl) fun _ => rfl
    refine Truthful.slot (hkept.same i) hgrown hcalls ?_
    intro c hc
    cases hc
    refine ⟨.nothing, ?_, trivial⟩
    dsimp only [Task.program]
    rw [Job.process_eq]
    exact obeys_evidence process_evidence
  · exact h

theorem Truthful.call (h : Truthful s) (ht : Traced en s) (i : ι) (inp : Input) :
    Truthful (s.call en i inp) := by
  unfold Service.call
  split
  · rename_i task op k view cleared hrunning
    obtain ⟨used, hold, haudited, hcalls⟩ := h
    obtain ⟨hobeys, -, hself⟩ := ht.running i _ hrunning
    have hvouched := hcalls i _ hrunning
    have hself' : task.self = view.self := hself
    -- After a failure nothing is left to do, whatever the call had to show.
    have hfailed : ∀ (w : World) (x : Option (Key × Nat)) (e : String),
        Call.Vouched w x { task := task, rest := .throw e, view := view, cleared := cleared } := by
      intro w x e
      unfold Call.Vouched
      cases view with
      | sending event key stage => trivial
      | delivering m wire => exact ⟨.nothing, trivial, trivial⟩
    obtain ⟨used', x, hafter, hnext⟩ : ∃ used' x,
        Audited (exec task.self inp.1 op s.world).2 used' (Function.update hold i x) ∧
        Call.Vouched (exec task.self inp.1 op s.world).2 x {
          task := task, rest := k (exec task.self inp.1 op s.world).1
          view := (callMonitor en).next view op (exec task.self inp.1 op s.world).1
          cleared := clearedBy op (exec task.self inp.1 op s.world).1 ++ cleared } := by
      cases view with
      | sending event key stage =>
        exact ⟨used, hold i, (haudited.idle (stage_idle hobeys.1) _ inp.1).same i, trivial⟩
      | delivering m wire =>
        obtain ⟨g, hg, hheld⟩ := hvouched
        have hm : task.self = some m := hself'
        rw [hm]
        obtain ⟨used', x, hexec, hheld'⟩ := haudited.exec hheld hg.1 inp.1
        exact ⟨used', x, hexec, _, hg.2 _, hheld'⟩
    unfold execFault
    cases inp.2 with
    | none =>
      refine Truthful.slot hafter (exec_grown _ inp.1 op _) hcalls fun c hc => ?_
      cases hc
      exact hnext
    | before =>
      refine Truthful.slot (haudited.same i) (.refl _) hcalls fun c hc => ?_
      cases hc
      exact hfailed _ _ _
    | after =>
      refine Truthful.slot hafter (exec_grown _ inp.1 op _) hcalls fun c hc => ?_
      cases hc
      exact hfailed _ _ _
  · exact h

theorem Truthful.finish (h : Truthful s) (i : ι) : Truthful (s.finish i) := by
  obtain ⟨used, hold, haudited, hcalls⟩ := h
  have hnone : ∀ w, ∀ c, (none : Option Call) = some c → c.Vouched w none := by
    intro w c hc
    cases hc
  unfold Service.finish
  split
  · exact Truthful.slot (haudited.release i) (.refl _) hcalls (hnone _)
  · rename_i task _ view _ _
    obtain ⟨hkept, hgrown⟩ := haudited.cards
      { s.world with queue := s.world.queue ++ task.self.toList }
      (fun _ => rfl) (fun _ => rfl) (fun _ => rfl) fun _ => rfl
    exact Truthful.slot (hkept.release i) hgrown hcalls (hnone _)
  · exact ⟨used, hold, haudited, hcalls⟩

omit [DecidableEq ι] in
theorem Truthful.duplicate (h : Truthful s) (k : Nat) : Truthful (s.duplicate k) := by
  obtain ⟨used, hold, haudited, hcalls⟩ := h
  obtain ⟨hkept, hgrown⟩ := haudited.cards (s.duplicate k).world
    (fun _ => rfl) (fun _ => rfl) (fun _ => rfl) fun _ => rfl
  exact ⟨used, hold, hkept, fun i c hc => (hcalls i c hc).grow hgrown⟩

omit [DecidableEq ι] in
theorem Truthful.change (h : Truthful s) (c : Change) : Truthful (s.change c) := by
  obtain ⟨used, hold, haudited, hcalls⟩ := h
  have htenants := Change.apply_tenants s.world c
  have hposts : (c.apply s.world).posts = s.world.posts := by
    cases c <;> rfl
  obtain ⟨hkept, hgrown⟩ := haudited.cards (c.apply s.world) (fun key => by
      obtain ⟨endpoints, heq⟩ := htenants key.1
      simp only [card, MemoryStateStore.getMessage, heq]) (fun key => by
      obtain ⟨endpoints, heq⟩ := htenants key.1
      simp only [card, MemoryStateStore.attemptsOf, heq]) (fun key => by
      obtain ⟨endpoints, heq⟩ := htenants key.1
      simp only [card, MemoryStateStore.listDlq, heq]) fun key => by
      simp only [card, hposts]
  exact ⟨used, hold, hkept, fun i call hc => (hcalls i call hc).grow hgrown⟩

theorem Truthful.step (h : Truthful s) (ht : Traced en s) (x : Occurrence ι) :
    Truthful (s.step en x) := by
  cases x with
  | send i lang event => exact h.send i lang event
  | take i k lang => exact h.take i k lang
  | call i inp => exact h.call ht i inp
  | finish i => exact h.finish i
  | duplicate k => exact h.duplicate k
  | change c => exact h.change c

theorem Truthful.run (h : Truthful s) (ht : Traced en s) (xs : List (Occurrence ι)) :
    Truthful (s.run en xs) := by
  unfold Service.run
  induction xs generalizing s with
  | nil => exact h
  | cons x xs ih => exact ih (h.step ht x) (ht.step x)

end Runs

end Anyhook.Delivery
