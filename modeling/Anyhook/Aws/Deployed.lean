import Anyhook.Aws.SameStore
import Anyhook.Delivery.Deployed
import Mathlib.Data.List.GetD

/-! The engine over DynamoStateStore. As long as no sequence number has outgrown its width, every
run over the table goes as the run over the in-memory store that has its endpoints in the order
of their ids; so what is proved of messages over the one can be read back from the other. -/
namespace Anyhook.Aws.Store
open Anyhook.Core Anyhook.Testing Anyhook.Delivery Anyhook.Lib.Program Anyhook.Lib.OrderedMap
open Anyhook.Lib.Scan

/-- A call of DynamoStateStore; its queries are read to their last page. -/
def tableCall (answers : Nat → TableAnswer) : Backing (Table × Nat) :=
  fun op x => (perform (x.1.size + 1) op).run (serve answers) x

/-- A message id that a key can hold. -/
def PlainId (_tenant messageId _endpointId : String) : Prop :=
  messageId.toList.all isIdChar = true

/-! ## Endpoints in the order of their keys -/

section Arranged
variable {pages : Nat} {t : Table} {s : MemoryStateStore}

theorem endpointSk_lt {id id' : String} (h : id < id') : endpointSk id < endpointSk id' := by
  rw [String.lt_iff_toList_lt]
  unfold endpointSk
  rw [String.toList_append, String.toList_append, append_lt_append_iff, ← String.lt_iff_toList_lt]
  exact h

theorem select_endpoints (h : Represents t s) (hs : s.Arranged) (tenant : String) :
    (t.select (tenantPk tenant) (endpointSk "")).map Row.attrs =
      (s.tenants tenant).endpoints.values.map .endpoint := by
  rw [select_attrs]
  refine sort_entries (h.holds.pairs_nodup _ _) (f := endpointSk)
    (m := (s.tenants tenant).endpoints.toOMap) ?_ ?_
  · exact (hs tenant).imp fun hlt => endpointSk_lt hlt
  · intro sk a
    rw [h.holds.mem_pairs]
    constructor
    · rintro ⟨r, hr, rfl, hprefix, hrow⟩
      obtain ⟨id, rfl⟩ := endpointSk_prefix_iff.mp hprefix
      obtain ⟨e, he, rfl⟩ := Option.map_eq_some_iff.mp hrow
      exact ⟨id, e, he, rfl, rfl⟩
    · rintro ⟨id, e, he, rfl, rfl⟩
      refine ⟨.endpoint id, trivial, rfl, endpointSk_prefix_iff.mpr ⟨id, rfl⟩, ?_⟩
      exact congrArg (Option.map Attrs.endpoint) he

theorem listEndpoints_arranged (answers : Nat → TableAnswer) (n : Nat) (h : Represents t s)
    (hs : s.Arranged) (hpages : t.size < pages) (tenant : String) :
    Prog.Ends (serve answers) (listEndpoints pages tenant)
      (fun all s' => all = (s.tenants tenant).endpoints.values ∧ s'.1 = t) (t, n) := by
  refine (h.holds.query_ends (tenantPk tenant) (endpointSk "") hpages n).bind ?_
  intro items s' hread
  obtain ⟨hitems, hs'⟩ := hread
  have hstrip : stripAll Attrs.endpoint? items = pure (s.tenants tenant).endpoints.values := by
    refine stripAll_eq ?_
    have hattrs : items.map Row.attrs = (s.tenants tenant).endpoints.values.map .endpoint := by
      rw [hitems]
      exact select_endpoints h hs tenant
    rw [show (fun row : Row => Attrs.endpoint? row.attrs) = Attrs.endpoint? ∘ Row.attrs from rfl,
      ← List.map_map, hattrs, List.map_map]
    rfl
  rw [hstrip]
  exact Prog.ends_pure ⟨rfl, hs'⟩

theorem matchEndpoints_arranged (answers : Nat → TableAnswer) (n : Nat) (h : Represents t s)
    (hs : s.Arranged) (hpages : t.size < pages) (tenant eventType : String) :
    Prog.Ends (serve answers) (matchEndpoints pages tenant eventType)
      (fun all s' => all = s.matchEndpoints tenant eventType ∧ s'.1 = t) (t, n) := by
  refine (listEndpoints_arranged answers n h hs hpages tenant).bind ?_
  intro all s' hread
  obtain ⟨rfl, hs'⟩ := hread
  exact Prog.ends_pure ⟨rfl, hs'⟩

theorem contents_arranged (s : MemoryStateStore) : contents s.arranged = contents s := by
  funext tenant r
  cases r with
  | endpoint id => exact congrArg (Option.map Attrs.endpoint) (KMap.get_sorted _ id)
  | _ => rfl

theorem Represents.arranged (h : Represents t s) : Represents t s.arranged where
  holds := by
    rw [contents_arranged]
    exact h.holds
  kept := by
    refine ⟨?_, h.kept.messages⟩
    intro tenant id e hget
    refine h.kept.endpoints tenant id e ?_
    rw [← hget]
    exact (KMap.get_sorted _ id).symm

end Arranged

/-! ## The table serves the engine -/

theorem Small.of_extends {s s' : MemoryStateStore} (h : s.Extends s') (hs : Small s') : Small s := by
  intro tenant
  refine ⟨(h.dlq tenant).length_le.trans_lt (hs tenant).1, ?_⟩
  intro messageId
  exact (h.attempts tenant messageId).length_le.trans_lt ((hs tenant).2 messageId)

theorem small_of_noLonger {s : MemoryStateStore} {k : Nat} (h : NoLonger k s) (hk : k < 10 ^ 10) :
    Small s := by
  intro tenant
  obtain ⟨hdlq, hattempts⟩ := h tenant
  refine ⟨by omega, fun messageId => ?_⟩
  exact (hattempts messageId).trans_lt hk

theorem plainIds_of_served {op : StoreOp} (hop : Served PlainId op) : PlainIds op := by
  cases op with
  | putMessage m => exact hop
  | appendAttempt a => exact hop
  | _ => trivial

section Served
variable {answers : Nat → TableAnswer}

theorem tableCall_agrees (hlag : ∀ n, (answers n).lag = 0) {s : MemoryStateStore}
    {x : Table × Nat} (h : Represents x.1 s) (hsmall : Small s) {op : StoreOp}
    (hop : Served PlainId op) : Agrees answers (x.1.size + 1) x.1 s x.2 op :=
  perform_agrees hlag h (Nat.lt_succ_self _) hsmall (plainIds_of_served hop)

theorem tableCall_answers (hlag : ∀ n, (answers n).lag = 0) {s : MemoryStateStore}
    {x : Table × Nat} (h : Represents x.1 s) (hs : s.Arranged) (hsmall : Small s) {op : StoreOp}
    (hop : Served PlainId op) : (tableCall answers op x).1 = (s.perform op).1 := by
  have hsame := (tableCall_agrees hlag h hsmall hop).same
  cases op with
  | listEndpoints tenant =>
    obtain ⟨all, s', hrun, rfl, -⟩ := listEndpoints_arranged answers x.2 h hs
      (Nat.lt_succ_self _) tenant
    exact congrArg Prod.fst hrun
  | matchEndpoints tenant eventType =>
    obtain ⟨all, s', hrun, rfl, -⟩ := matchEndpoints_arranged answers x.2 h hs
      (Nat.lt_succ_self _) tenant eventType
    exact congrArg Prod.fst hrun
  | getMessage tenant messageId => exact absurd hop id
  | listDeliveries q => exact absurd hop id
  | listDlq tenant endpointId => exact absurd hop id
  | _ => exact (hsame.eq fun _ _ hab => hab).symm

/-- The table serves the engine as the in-memory store does. -/
theorem table_serves (hlag : ∀ n, (answers n).lag = 0) :
    Serves (tableCall answers) (fun s x => Represents x.1 s) PlainId Small where
  answers h hs hsmall hop := tableCall_answers hlag h hs hsmall hop
  keeps h _ hsmall hop := (tableCall_agrees hlag h hsmall hop).represents
  arranged h := h.arranged
  fit_before h := h.of_extends (MemoryStateStore.perform_extends _ _)
  fit_arranged := Iff.rfl

end Served

/-! ## The ids of messages -/

section Ids
variable {lang : Lang} {en : Engine}

/-- What is put on the transport has an id that a key can hold. -/
def SendsPlain : Op → Prop
  | .transportSend m => m.messageId.toList.all isIdChar = true
  | _ => True

/-- The stateless monitor of `SendsPlain`. -/
def plainMonitor : Monitor Op Res Unit where
  allows _ op := SendsPlain op
  next g _ _ := g

theorem isIdChar_letter (n : Nat) : isIdChar (idAlphabet.getD n 'a') = true := by
  have hall : ∀ c ∈ 'a' :: idAlphabet, isIdChar c = true := List.all_eq_true.mp (by decide)
  refine hall _ ?_
  by_cases h : n < idAlphabet.length
  · rw [List.getD_eq_getElem _ _ h]
    exact List.mem_cons_of_mem _ (List.getElem_mem h)
  · rw [List.getD_eq_default _ _ (by omega)]
    exact List.mem_cons_self

theorem idChars_plain (n : Nat) :
    Obeys plainMonitor (fun _ cs => cs.all isIdChar = true) () (Core.idChars n) := by
  induction n with
  | zero => exact rfl
  | succ n ih =>
    refine ⟨trivial, ?_⟩
    intro draw
    show Obeys _ _ _ (Core.idChars n >>= _)
    refine (obeys_bind _ _ _).mpr (ih.mono ?_)
    intro _ cs hcs
    show (Core.idChar draw :: cs).all isIdChar = true
    rw [List.all_cons, hcs, Bool.and_true]
    exact isIdChar_letter _

theorem goIdChars_plain (n : Nat) :
    Obeys plainMonitor (fun _ cs => cs.all isIdChar = true) () (Go.idChars n) := by
  induction n with
  | zero => exact rfl
  | succ n ih =>
    refine ⟨trivial, ?_⟩
    intro draw
    show Obeys _ _ _ (Go.idChars n >>= _)
    refine (obeys_bind _ _ _).mpr (ih.mono ?_)
    intro _ cs hcs
    show (Go.idChar draw :: cs).all isIdChar = true
    rw [List.all_cons, hcs, Bool.and_true]
    exact isIdChar_letter _

/-- Ids of an engine's own making. -/
def Generates (gen : Eng String) : Prop :=
  Obeys plainMonitor (fun _ id => id.toList.all isIdChar = true) () gen

theorem generates_append {chars : Eng (List Char)} {pre : String}
    (hpre : (pre ++ "_").toList.all isIdChar = true)
    (hchars : Obeys plainMonitor (fun _ cs => cs.all isIdChar = true) () chars) :
    Generates (chars >>= fun cs => pure (pre ++ "_" ++ String.ofList cs)) := by
  refine (obeys_bind _ _ _).mpr (hchars.mono ?_)
  intro _ cs hcs
  show (pre ++ "_" ++ String.ofList cs).toList.all isIdChar = true
  rw [String.toList_append, List.all_append, hpre, String.toList_ofList, hcs]
  rfl

theorem fanoutWith_plain {gen : Eng String} (hgen : Generates gen) (event : SendEvent)
    (eventId : String) (now : Time) (endpoints : List Endpoint) :
    Obeys plainMonitor (fun _ ms => ∀ m ∈ ms, m.messageId.toList.all isIdChar = true) ()
      (fanoutWith gen event eventId now endpoints) := by
  induction endpoints with
  | nil =>
    intro m hm
    cases hm
  | cons e rest ih =>
    unfold fanoutWith
    split
    · refine (obeys_bind _ _ _).mpr (hgen.mono ?_)
      intro _ id hid
      refine (obeys_bind _ _ _).mpr (ih.mono ?_)
      intro _ ms hms m hm
      obtain rfl | hm := List.mem_cons.mp hm
      · exact hid
      · exact hms m hm
    · exact ih

theorem enqueueAll_plain {ms : List Message}
    (h : ∀ m ∈ ms, m.messageId.toList.all isIdChar = true) : Within SendsPlain (enqueueAll ms) := by
  induction ms with
  | nil => exact within_pure ()
  | cons m rest ih =>
    refine within_bind (within_perform trivial) fun _ => ?_
    refine within_bind (within_perform (h m List.mem_cons_self)) fun _ => ?_
    exact ih fun x hx => h x (List.mem_cons_of_mem _ hx)

theorem acceptWith_plain {genEvent genMessage : Eng String} (hevent : Generates genEvent)
    (hmessage : Generates genMessage) (event : SendEvent) (idemKey : String) :
    Within SendsPlain (acceptWith genEvent (fanoutWith genMessage) event idemKey) := by
  refine (obeys_bind _ _ _).mpr (hevent.mono ?_)
  intro _ eventId _
  refine within_bind (within_perform trivial) fun rec => ?_
  split
  · refine within_bind (within_perform trivial) fun endpoints => ?_
    refine within_bind (within_perform trivial) fun now => ?_
    refine (obeys_bind _ _ _).mpr ((fanoutWith_plain hmessage event eventId now endpoints).mono ?_)
    intro _ ms hms
    refine within_bind (enqueueAll_plain hms) fun _ => ?_
    exact within_bind (within_perform trivial) fun _ => within_pure _
  · exact within_pure _

theorem send_plain (lang : Lang) (en : Engine) (event : SendEvent) :
    Within SendsPlain (lang.send en event) := by
  cases lang with
  | ts =>
    show Within SendsPlain (Core.send en event)
    unfold Core.send
    split
    · exact within_throw _
    · exact acceptWith_plain (generates_append (by decide) (idChars_plain 20))
        (generates_append (by decide) (idChars_plain 20)) event _
  | go =>
    show Within SendsPlain (Go.send en event)
    unfold Go.send
    split
    · exact within_throw _
    · exact acceptWith_plain (generates_append (by decide) (goIdChars_plain 20))
        (generates_append (by decide) (goIdChars_plain 20)) event _

theorem accepted_plain (lang : Lang) (en : Engine) (w : World) (event : SendEvent)
    (env : Nat → Answer) : ∀ m ∈ (accepted lang en w event env).queue.drop w.queue.length,
      m.messageId.toList.all isIdChar = true := by
  refine (Within.run_keeps (I := fun s : World × Nat => w.queue.length ≤ s.1.queue.length ∧
    ∀ m ∈ s.1.queue.drop w.queue.length, m.messageId.toList.all isIdChar = true)
    (send_plain lang en event) ?_ (s := (w, 0)) ?_).2
  · intro op s hop hs
    obtain ⟨hle, hplain⟩ := hs
    have hqueue : (Testing.execSeq none (unfailing env) op s).2.1.queue = _ :=
      exec_queue none (env s.2) op s.1
    cases op with
    | transportSend m =>
      rw [hqueue, List.drop_append_of_le_length hle, List.length_append]
      refine ⟨by omega, ?_⟩
      intro x hx
      rcases List.mem_append.mp hx with hx | hx
      · exact hplain x hx
      · rw [List.mem_singleton.mp hx]
        exact hop
    | _ =>
      rw [hqueue]
      exact ⟨hle, hplain⟩
  · refine ⟨le_rfl, ?_⟩
    intro m hm
    rw [List.drop_length] at hm
    cases hm

theorem arrangedRun_plain {r : Run} (h : ∀ m ∈ r.sent, m.messageId.toList.all isIdChar = true)
    (steps : List Step) :
    ∀ m ∈ (r.arrangedRun lang en steps).sent, m.messageId.toList.all isIdChar = true := by
  induction steps generalizing r with
  | nil => exact h
  | cons e steps ih =>
    refine ih (r := (r.step lang en e).arranged) ?_
    intro m hm
    cases e with
    | send event env =>
      rcases List.mem_append.mp hm with hm | hm
      · exact h m hm
      · exact accepted_plain lang en r.world event env m hm
    | process k env =>
      have hsent : (r.step lang en (.process k env)).sent = r.sent := by
        simp only [Run.step]
        split <;> rfl
      exact h m (hsent ▸ hm)
    | _ => exact h m hm

end Ids

/-! ## Runs over the table -/

section Runs
variable {answers : Nat → TableAnswer} {lang : Lang} {en : Engine} {steps : List Step}

/-- A new table, and nothing sent. -/
def newTable : Deployed (Table × Nat) := .start (.empty, 0)

theorem run_stands {call : Backing (Table × Nat)}
    (hserves : Serves call (fun s x => Represents x.1 s) PlainId Small)
    (hsteps : steps.length < 10 ^ 10) :
    RunStands (fun s x => Represents x.1 s) PlainId (Run.start.arrangedRun lang en steps)
      (newTable.run call lang en steps) := by
  refine run_alike hserves (start_stands represents_begin)
    (small_of_noLonger (run_noLonger lang en steps) hsteps) ?_
  refine arrangedRun_plain ?_ steps
  intro m hm
  cases hm

/-- A store that keeps its data in the table and serves the engine. -/
theorem runs_as_memory {call : Backing (Table × Nat)}
    (hserves : Serves call (fun s x => Represents x.1 s) PlainId Small) (lang : Lang) (en : Engine)
    (hsteps : steps.length < 10 ^ 10) :
    let r := Run.start.arrangedRun lang en steps
    let d := newTable.run call lang en steps
    (d.sent = r.sent ∧ d.world.queue = r.world.queue ∧ d.world.pending = r.world.pending ∧
      d.world.posts = r.world.posts ∧ Represents d.world.store.1 r.world.store) ∧
    ∀ event env, (Deployed.accept call lang en d.world event env).1 =
      (runSeq none (unfailing env) (lang.send en event) r.world).1 := by
  intro r d
  have h : RunStands (fun s x => Represents x.1 s) PlainId r d := run_stands hserves hsteps
  refine ⟨⟨h.sent, h.world.queue, h.world.pending, h.world.posts, h.world.store⟩, ?_⟩
  intro event env
  have hafter : NoLonger steps.length (accepted lang en r.world event env).store :=
    accepted_noLonger lang en (run_noLonger lang en steps) event env
  exact (send_alike hserves h.world event env (small_of_noLonger hafter hsteps)
    (accepted_plain lang en r.world event env)).1

/-- **The engine cannot tell the table from memory.** -/
theorem table_runs_as_memory (answers : Nat → TableAnswer) (hlag : ∀ n, (answers n).lag = 0)
    (lang : Lang) (en : Engine) (steps : List Step) (hsteps : steps.length < 10 ^ 10) :
    let r := Run.start.arrangedRun lang en steps
    let d := newTable.run (tableCall answers) lang en steps
    (d.sent = r.sent ∧ d.world.queue = r.world.queue ∧ d.world.pending = r.world.pending ∧
      d.world.posts = r.world.posts ∧ Represents d.world.store.1 r.world.store) ∧
    ∀ event env, (Deployed.accept (tableCall answers) lang en d.world event env).1 =
      (runSeq none (unfailing env) (lang.send en event) r.world).1 :=
  runs_as_memory (table_serves hlag) lang en hsteps

/-- An endpoint, an event, a failed attempt, the wake-up and the delivery, over the table. -/
theorem oneDelivery_on_table :
    (Run.start.arrangedRun .ts (plainEngine 5) oneDelivery).world.posts.length = 2 ∧
      (newTable.run (tableCall onePerPage) .ts (plainEngine 5) oneDelivery).world.posts =
        (Run.start.arrangedRun .ts (plainEngine 5) oneDelivery).world.posts := by
  refine ⟨by decide +kernel, ?_⟩
  exact (table_runs_as_memory onePerPage (fun _ => rfl) .ts (plainEngine 5) oneDelivery
    (by decide)).1.2.2.2.1

end Runs

/-! ## Messages, read back from the table -/

/-- The card of a message as the methods of DynamoStateStore give it. -/
def tableCard (answers : Nat → TableAnswer) (b : Backed (Table × Nat)) (key : String × String) :
    Except String Card := do
  let stored ← ((getMessage key.1 key.2).run (serve answers) b.store).1
  let attempts ← ((listAttempts (b.store.1.size + 1) key.1 key.2).run (serve answers) b.store).1
  let dlq ← ((listDlq (b.store.1.size + 1) key.1 none).run (serve answers) b.store).1
  return {
    stored := stored
    attempts := attempts
    dlq := dlq.filter fun row => row.message.key = key
    queued := b.queue.filter fun m => m.key = key
    pending := (b.pending.map Prod.snd).filter fun m => m.key = key
    answers := (b.posts.filter fun p => p.message.map Message.key = some key).map Post.result }

section ReadBack
variable {answers : Nat → TableAnswer}

theorem tableCard_eq (hlag : ∀ n, (answers n).lag = 0) {w : World} {b : Backed (Table × Nat)}
    (h : Stands (fun s x => Represents x.1 s) PlainId w b) (hsmall : Small w.store)
    {key : String × String} (hid : key.2.toList.all isIdChar = true) :
    tableCard answers b key = .ok (card w key) := by
  have hstored : Agrees answers 0 b.store.1 w.store b.store.2 (.getMessage key.1 key.2) :=
    getMessage_agrees hlag h.store key.1 key.2
  have hdlq : Agrees answers (b.store.1.size + 1) b.store.1 w.store b.store.2
      (.listDlq key.1 none) :=
    listDlq_agrees h.store (Nat.lt_succ_self _) hsmall key.1 none
  have hattempts : Prog.Ends (serve answers) (listAttempts (b.store.1.size + 1) key.1 key.2)
      (fun log x => log = w.store.attemptsOf key.1 key.2 ∧ x.1 = b.store.1)
      (b.store.1, b.store.2) :=
    listAttempts_ends h.store (Nat.lt_succ_self _) hsmall key.1 (not_mem_hash hid)
  obtain ⟨log, x, hlog, rfl, -⟩ := hattempts
  have hstored' := hstored.same.eq fun _ _ hab => hab
  have hdlq' := hdlq.same.eq fun _ _ hab => hab
  unfold tableCard card
  rw [show ((getMessage key.1 key.2).run (serve answers) b.store).1 = _ from hstored'.symm,
    show ((listDlq (b.store.1.size + 1) key.1 none).run (serve answers) b.store).1 = _
      from hdlq'.symm,
    show ((listAttempts (b.store.1.size + 1) key.1 key.2).run (serve answers) b.store).1 = _
      from congrArg Prod.fst hlog, h.queue, h.pending, h.posts]
  rfl

/-- **The delivery state machine, on DynamoDB.** -/
theorem table_in_order (answers : Nat → TableAnswer) (hlag : ∀ n, (answers n).lag = 0)
    (lang : Lang) (en : Engine) (steps : List Step) (hsteps : steps.length < 10 ^ 10)
    (hids : ((newTable.run (tableCall answers) lang en steps).sent.map Message.key).Nodup) :
    ∀ m ∈ (newTable.run (tableCall answers) lang en steps).sent, ∃ c,
      tableCard answers (newTable.run (tableCall answers) lang en steps).world m.key = .ok c ∧
        InOrder en c := by
  intro m hm
  have h : RunStands (fun s x => Represents x.1 s) PlainId (Run.start.arrangedRun lang en steps)
      (newTable.run (tableCall answers) lang en steps) := run_stands (table_serves hlag) hsteps
  rw [h.sent] at hids hm
  have hplain : m.messageId.toList.all isIdChar = true := by
    refine arrangedRun_plain (r := .start) ?_ steps m hm
    intro x hx
    cases hx
  have hsmall := small_of_noLonger (run_noLonger lang en steps) hsteps
  refine ⟨_, tableCard_eq hlag h.world hsmall hplain, ?_⟩
  exact (((orderly_start en).arrangedRun lang hids).resting m hm).inOrder

/-- The delivered message, read back. -/
theorem oneDelivery_read_back :
    (newTable.run (tableCall onePerPage) .ts (plainEngine 5) oneDelivery).sent.length = 1 ∧
      ∀ m ∈ (newTable.run (tableCall onePerPage) .ts (plainEngine 5) oneDelivery).sent, ∃ c,
        tableCard onePerPage
          (newTable.run (tableCall onePerPage) .ts (plainEngine 5) oneDelivery).world m.key = .ok c ∧
            InOrder (plainEngine 5) c := by
  have hids : ((newTable.run (tableCall onePerPage) .ts (plainEngine 5) oneDelivery).sent.map
      Message.key).Nodup := by decide +kernel
  refine ⟨by decide +kernel, ?_⟩
  exact table_in_order onePerPage (fun _ => rfl) .ts (plainEngine 5) oneDelivery (by decide) hids

end ReadBack
end Anyhook.Aws.Store
