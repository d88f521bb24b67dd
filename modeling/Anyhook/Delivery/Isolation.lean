import Anyhook.Delivery.Phase
import Anyhook.Testing.Card
import Anyhook.Testing.Pool

/-! Fan-out isolation: what belongs to one endpoint after a run of concurrent calls is
what it would be if the calls for other endpoints had never made a step. Every
operation of a call stays in the slice of the runtime that its own endpoint names;
the library's purging lemma does the rest. -/
namespace Anyhook.Delivery
open Anyhook.Core Anyhook.Testing Anyhook.Lib.Program Anyhook.Lib.Interleave Anyhook.Lib.OrderedMap

/-- What is observed of the endpoint `b`, a tenant and an endpoint id. -/
structure Observed where
  posts : List Post
  messages : List Message
  attempts : String → List Attempt
  circuit : CircuitRecord
  bucket : Option RateBucket
  dlq : List DlqRow
  wakeups : List (Time × Message)

def observe (w : World) (b : String × String) : Observed where
  posts := w.posts.filter fun p => p.message.map Message.target = some b
  messages := (w.store.tenants b.1).messages.values.filter fun m => m.endpointId = b.2
  attempts id := (w.store.attemptsOf b.1 id).filter fun a => a.endpointId = b.2
  circuit := w.store.getCircuit b.1 b.2
  bucket := w.store.getRateBucket b.1 b.2
  dlq := (w.store.tenants b.1).dlq.filter fun r => r.message.endpointId = b.2
  wakeups := w.pending.filter fun p => p.2.target = b

/-! ## The slice of one endpoint -/

/-- All that the calls for one endpoint can see and change. `own` tells which message
ids of the tenant are the endpoint's. -/
structure Slice where
  endpoint : Option Endpoint
  messages : OMap String Message
  attempts : String → List Attempt
  circuit : CircuitRecord
  bucket : Option RateBucket
  dlq : List DlqRow
  wakeups : List (Time × Message)
  posts : List Post

def slice (own : String → Bool) (b : String × String) (w : World) : Slice where
  endpoint := w.store.getEndpoint b.1 b.2
  messages := (w.store.tenants b.1).messages.restrict own
  attempts id := (w.store.attemptsOf b.1 id).filter fun a => a.endpointId = b.2
  circuit := w.store.getCircuit b.1 b.2
  bucket := w.store.getRateBucket b.1 b.2
  dlq := (w.store.tenants b.1).dlq.filter fun r => r.message.endpointId = b.2
  wakeups := w.pending.filter fun p => p.2.target = b
  posts := w.posts.filter fun p => p.message.map Message.target = some b

section SliceSteps
variable {own : String → Bool} {b : String × String} {m : Message} {a : Answer} {op : Op}
variable {w w' : World}

theorem exec_attemptsOf (self : Option Message) (t id : String) :
    (exec self a op w).2.store.attemptsOf t id = match op with
      | .appendAttempt x => if (x.tenant, x.messageId) = (t, id)
        then w.store.attemptsOf t id ++ [x] else w.store.attemptsOf t id
      | _ => w.store.attemptsOf t id := by
  have h := congrArg Card.attempts (card_exec self a op w (t, id))
  simp only [card] at h
  rw [h]
  cases op <;> simp only [touch] <;> split <;> rfl

/-- A call for another endpoint leaves the slice alone. -/
theorem slice_foreign (own : String → Bool) (hf : Footprint m op) (hb : m.target ≠ b)
    (hown : m.tenant = b.1 → own m.messageId = false) :
    slice own b (exec (some m) a op w).2 = slice own b w := by
  obtain ⟨t, e⟩ := b
  have hne : m.tenant = t → m.endpointId ≠ e := by
    rintro rfl rfl
    exact hb rfl
  unfold slice
  simp only [MemoryStateStore.getEndpoint, exec_endpoints, exec_messages, exec_attemptsOf,
    exec_getCircuit, exec_getRateBucket, exec_dlq]
  cases op with
  | putMessage x =>
    obtain ⟨ht, hi, -⟩ := hf
    by_cases hu : x.tenant = t
    · have ho : own x.messageId ≠ true := by
        rw [hi, hown (ht.symm.trans hu)]
        exact Bool.false_ne_true
      simp [exec, hu, OMap.restrict_set_of_neg _ ho]
    · simp [exec, hu]
  | appendAttempt x =>
    obtain ⟨ht, -, he⟩ := hf
    have hx : ∀ id, (x.tenant, x.messageId) = (t, id) → x.endpointId ≠ e := by
      rintro id ⟨⟩
      rw [he]
      exact hne ht.symm
    simp only [exec, Slice.mk.injEq, true_and, and_true]
    funext id
    split
    · next heq => simp [hx id heq]
    · rfl
  | addToDlq x r =>
    obtain ⟨ht, -, he⟩ := hf
    by_cases hu : x.tenant = t
    · have hx : x.endpointId ≠ e := by rw [he]; exact hne (ht.symm.trans hu)
      simp [exec, hu, hx]
    · simp [exec, hu]
  | scheduleRetry x s =>
    have hx : x.target ≠ (t, e) := by
      have : x.target = m.target := by simp [Message.target, hf.tenant, hf.endpointId]
      rwa [this]
    simp [exec, hx]
  | post url body headers timeoutMs => simp [exec, hb]
  | putCircuit t' e' rec =>
    have hx : (t', e') ≠ (t, e) := by rw [show (t', e') = m.target from hf]; exact hb
    simp only [exec, if_neg hx]
  | putRateBucket t' e' rb =>
    have hx : (t', e') ≠ (t, e) := by rw [show (t', e') = m.target from hf]; exact hb
    simp only [exec, if_neg hx]
  | recordEvent => exact absurd hf id
  | transportSend => exact absurd hf id
  | _ => simp [exec]

/-- A call for the endpoint reads and writes its slice only. -/
theorem slice_own (hf : Footprint m op) (hb : m.target = b) (hown : own m.messageId = true)
    (h : slice own b w = slice own b w') :
    (exec (some m) a op w).1 = (exec (some m) a op w').1 ∧
      slice own b (exec (some m) a op w).2 = slice own b (exec (some m) a op w').2 := by
  subst hb
  obtain ⟨hend, hmsg, hatt, hcir, hbuc, hdlq, hwak, hpos⟩ := Slice.mk.inj h
  have hatt' := congrFun hatt
  refine ⟨?_, ?_⟩
  · cases op with
    | getEndpoint t e =>
      obtain ⟨rfl, rfl⟩ := Prod.mk.inj (show (t, e) = (m.tenant, m.endpointId) from hf)
      exact hend
    | getCircuit t e =>
      obtain ⟨rfl, rfl⟩ := Prod.mk.inj (show (t, e) = (m.tenant, m.endpointId) from hf)
      exact hcir
    | getRateBucket t e =>
      obtain ⟨rfl, rfl⟩ := Prod.mk.inj (show (t, e) = (m.tenant, m.endpointId) from hf)
      exact hbuc
    | recordEvent => exact absurd hf id
    | matchEndpoints => exact absurd hf id
    | _ => rfl
  · simp only [Message.target] at hend hmsg hatt' hcir hbuc hdlq hwak hpos
    simp only [slice, Message.target, MemoryStateStore.getEndpoint, exec_endpoints, exec_messages,
      exec_attemptsOf, exec_getCircuit, exec_getRateBucket, exec_dlq, Slice.mk.injEq]
    have hrest : (w.store.tenants m.tenant).endpoints.get m.endpointId =
        (w'.store.tenants m.tenant).endpoints.get m.endpointId := hend
    refine ⟨hrest, ?_, funext fun id => ?_, ?_, ?_, ?_, ?_, ?_⟩
    · cases op with
      | putMessage x =>
        have ho : own x.messageId = true := by rw [hf.messageId]; exact hown
        simp only [hf.tenant, if_true]
        rw [OMap.restrict_set_of_pos _ ho, OMap.restrict_set_of_pos _ ho, hmsg]
      | _ => exact hmsg
    · cases op with
      | appendAttempt x =>
        dsimp only
        split
        · rw [List.filter_append, List.filter_append, hatt' id]
        · exact hatt' id
      | _ => exact hatt' id
    · cases op with
      | putCircuit t e rec => dsimp only; rw [hcir]
      | _ => exact hcir
    · cases op with
      | putRateBucket t e rb => dsimp only; rw [hbuc]
      | _ => exact hbuc
    · cases op with
      | addToDlq x r =>
        simp only [hf.tenant, if_true]
        rw [List.filter_append, List.filter_append, hdlq]
      | _ => exact hdlq
    · cases op with
      | scheduleRetry x t =>
        simp only [exec]
        rw [List.filter_append, List.filter_append]
        exact congrArg (· ++ _) hwak
      | recordEvent => exact absurd hf id
      | transportSend => exact absurd hf id
      | _ => exact hwak
    · cases op with
      | post url body headers timeoutMs =>
        simp only [exec]
        rw [List.filter_append, List.filter_append]
        exact congrArg (· ++ _) hpos
      | recordEvent => exact absurd hf id
      | _ => exact hpos

end SliceSteps

/-! ## Runs -/

/-- The pool of calls, each watched by its phase. -/
def isolated {ι : Type} (en : Engine) (jobs : ι → Job) :
    System Op Res String World Input ι (Message × Phase) := pool jobs (monitor en)

def isolatedStart {ι : Type} (en : Engine) (jobs : ι → Job) (w : World) :
    PoolConf ι (Message × Phase) :=
  start en jobs w fun i => ((jobs i).message, .begun)

/-- A message id names one message: the jobs that share a tenant and a message id are
for the same endpoint, and so is the row already stored under it. -/
structure IdsNameOne {ι : Type} (jobs : ι → Job) (w : World) : Prop where
  calls : ∀ i j, (jobs i).message.key = (jobs j).message.key →
    (jobs i).message.endpointId = (jobs j).message.endpointId
  rows : ∀ i x, w.store.getMessage (jobs i).message.tenant (jobs i).message.messageId = some x →
    x.endpointId = (jobs i).message.endpointId

section Runs
variable {ι : Type} {en : Engine} {jobs : ι → Job} {w : World}

open Classical in
/-- The endpoint a message id of a tenant stands for: the one of its jobs, or of the
row stored at the start. -/
noncomputable def ownerOf (jobs : ι → Job) (w : World) (t id : String) : String :=
  if h : ∃ i, (jobs i).message.key = (t, id) then (jobs h.choose).message.endpointId
  else ((w.store.getMessage t id).map Message.endpointId).getD ""

theorem ownerOf_job (h : IdsNameOne jobs w) (i : ι) :
    ownerOf jobs w (jobs i).message.tenant (jobs i).message.messageId =
      (jobs i).message.endpointId := by
  have hex : ∃ j, (jobs j).message.key =
      ((jobs i).message.tenant, (jobs i).message.messageId) := ⟨i, rfl⟩
  unfold ownerOf
  rw [dif_pos hex]
  exact h.calls _ _ hex.choose_spec

/-- Every stored row is under an id that stands for its endpoint. -/
def Filed (jobs : ι → Job) (w w' : World) : Prop :=
  ∀ t id x, w'.store.getMessage t id = some x → x.endpointId = ownerOf jobs w t id

theorem filed_start (h : IdsNameOne jobs w) : Filed jobs w w := by
  intro t id x hx
  unfold ownerOf
  split
  · next hex =>
    obtain ⟨ht, hi⟩ := Prod.mk.inj hex.choose_spec
    exact h.rows _ x (by rw [ht, hi]; exact hx)
  · rw [hx]; rfl

theorem Filed.exec {w' : World} (h : Filed jobs w w') (hn : IdsNameOne jobs w) (i : ι) {op : Op}
    (hf : Footprint (jobs i).message op) (a : Answer) :
    Filed jobs w (exec (some (jobs i).message) a op w').2 := by
  intro t key x hx
  have hc := congrArg Card.stored (card_exec (some (jobs i).message) a op w' (t, key))
  simp only [card] at hc
  rw [hc] at hx
  cases op with
  | putMessage y =>
    simp only [touch] at hx
    split at hx
    · next hk =>
      obtain rfl := Option.some.inj hx
      obtain ⟨ht, hi⟩ := Prod.mk.inj hk
      rw [hf.endpointId, ← ht, ← hi, hf.tenant, hf.messageId, ownerOf_job hn]
    · exact h t key x hx
  | appendAttempt y => simp only [touch] at hx; split at hx <;> exact h t key x hx
  | addToDlq y r => simp only [touch] at hx; split at hx <;> exact h t key x hx
  | transportSend y => exact absurd hf id
  | scheduleRetry y s => simp only [touch] at hx; split at hx <;> exact h t key x hx
  | post url body headers timeoutMs =>
    simp only [touch] at hx
    split at hx <;> exact h t key x hx
  | _ => exact h t key x hx

/-- The call of each name is watched for its own message. -/
def Watched (jobs : ι → Job) (g : Message × Phase) (i : ι) : Prop :=
  g.1 = (jobs i).message ∧ g.2.keyed g.1

theorem Watched.footprint {g : Message × Phase} {i : ι} {op : Op} (h : Watched jobs g i)
    (ha : (monitor en).allows g op) : Footprint (jobs i).message op := by
  rw [← h.1]
  exact Phase.footprint h.2 ha

theorem Watched.next {g : Message × Phase} {i : ι} {op : Op} (h : Watched jobs g i)
    (ha : (monitor en).allows g op) (r : Res op) : Watched jobs ((monitor en).next g op r) i :=
  ⟨h.1, Phase.keyed_next h.2 ha r⟩

theorem isolatedStart_obeyed :
    (isolated en jobs).Obeyed (fun g _ => g.2.settled) (isolatedStart en jobs w) := by
  intro i
  change Obeys (monitor en) _ ((jobs i).message, .begun) ((jobs i).process en)
  rw [Job.process_eq]
  exact process_obeys _ en _

variable [DecidableEq ι]

theorem Filed.run (en : Engine) (hn : IdsNameOne jobs w) (es : List (ι × Input)) :
    Filed jobs w ((isolated en jobs).run (isolatedStart en jobs w) es).shared := by
  suffices h : ((isolated en jobs).Obeyed (fun g _ => g.2.settled)
      ((isolated en jobs).run (isolatedStart en jobs w) es)) ∧
      (∀ i, Watched jobs (((isolated en jobs).run (isolatedStart en jobs w) es).view i) i) ∧
      Filed jobs w ((isolated en jobs).run (isolatedStart en jobs w) es).shared from h.2.2
  refine System.run_invariant (I := fun c : PoolConf ι (Message × Phase) =>
    (isolated en jobs).Obeyed (fun g _ => g.2.settled) c ∧ (∀ i, Watched jobs (c.view i) i) ∧
      Filed jobs w c.shared) ?_ ⟨isolatedStart_obeyed, fun i => ⟨rfl, trivial⟩, filed_start hn⟩
  rintro c ⟨i, inp⟩ ⟨ho, hw, hf⟩
  refine ⟨ho.step, fun j => ?_, ?_⟩
  · obtain hv | ⟨rfl, op, k, r, hc, -, hv⟩ := System.step_view (S := isolated en jobs) c i inp j
    · rw [hv]; exact hw j
    · rw [hv]; exact (hw j).next (ho.allows hc) r
  · cases hc : c.rest i with
    | pure r => simpa [System.step, hc] using hf
    | throw x => simpa [System.step, hc] using hf
    | call op k =>
      rw [isolated, (pool_step_call jobs _ hc inp).1]
      split
      · exact hf
      · exact hf.exec hn i ((hw i).footprint (ho.allows hc)) inp.1

omit [DecidableEq ι] in
/-- With every row filed, the rows of an endpoint are those under its own ids. -/
theorem Filed.messages {w' : World} (h : Filed jobs w w') (b : String × String) :
    (observe w' b).messages =
      ((w'.store.tenants b.1).messages.restrict fun id => ownerOf jobs w b.1 id = b.2).values := by
  simp only [observe, OMap.values, OMap.restrict, List.filter_map]
  refine congrArg (List.map Prod.snd) (List.filter_congr fun p hp => ?_)
  have hx := h b.1 p.1 p.2 (OMap.get_of_mem hp)
  simp [hx]

/-- **Fan-out isolation.** Over any interleaving of calls for any endpoints, with any
answers and failures, everything that belongs to the endpoint `b` is as in the run
without the steps of the calls for other endpoints. -/
theorem fanout_isolation (hn : IdsNameOne jobs w) (es : List (ι × Input)) (b : String × String) :
    observe ((isolated en jobs).run (isolatedStart en jobs w) es).shared b =
      observe ((isolated en jobs).run (isolatedStart en jobs w)
        (es.filter fun e => (jobs e.1).message.target = b)).shared b := by
  let own : String → Bool := fun id => ownerOf jobs w b.1 id = b.2
  have hown : ∀ i, (jobs i).message.tenant = b.1 →
      (own (jobs i).message.messageId = true ↔ (jobs i).message.endpointId = b.2) := by
    intro i ht
    simp only [own, decide_eq_true_eq, ← ht, ownerOf_job hn i]
  have hsame : System.Agrees (fun i => (jobs i).message.target = b) (slice own b)
      (isolatedStart en jobs w) (isolatedStart en jobs w) :=
    ⟨rfl, fun _ _ => rfl, fun _ _ => rfl⟩
  have hpurge := System.Agrees.run_purge (S := isolated en jobs) (V := Watched jobs)
    (fun g i op r hw ha => hw.next ha r) ?_ ?_ isolatedStart_obeyed (fun i => ⟨rfl, trivial⟩)
    hsame es
  · have hs := hpurge.shared
    have h1 := (Filed.run en hn es).messages b
    have h2 := (Filed.run en hn (es.filter fun e => (jobs e.1).message.target = b)).messages b
    obtain ⟨-, hmsg, hatt, hcir, hbuc, hdlq, hwak, hpos⟩ := Slice.mk.inj hs
    have hm := h1.trans ((congrArg OMap.values hmsg).trans h2.symm)
    simp only [observe, Observed.mk.injEq] at hm ⊢
    exact ⟨hpos, hm, hatt, hcir, hbuc, hdlq, hwak⟩
  · intro g i hw hne op ha inp s
    have hforeign := slice_foreign own (a := inp.1) (w := s) (hw.footprint ha) hne
      fun ht => by
        rw [← Bool.not_eq_true, hown i ht]
        rintro he
        exact hne (Prod.ext ht he)
    obtain ⟨a, f⟩ := inp
    cases f with
    | before => rfl
    | none => exact hforeign
    | after => exact hforeign
  · intro g i hw hb op ha inp s s' hss
    have htrue : own (jobs i).message.messageId = true :=
      (hown i (congrArg Prod.fst hb)).mpr (congrArg Prod.snd hb)
    have hsame := slice_own (a := inp.1) (hw.footprint ha) hb htrue hss
    obtain ⟨a, f⟩ := inp
    cases f with
    | before => exact ⟨rfl, hss⟩
    | none => exact ⟨congrArg Except.ok hsame.1, hsame.2⟩
    | after => exact ⟨rfl, hsame.2⟩

end Runs

/-- One message to a live endpoint, and one to an endpoint that is gone. -/
def liveAndGone (i : Bool) : Job where
  lang := .ts
  message := if i then messageFor "msg_a" else { messageFor "msg_b" with endpointId := "ep_2" }

/-- The call for the gone endpoint fails half-way through its dead-lettering. -/
def mixedRun : List (Bool × Input) :=
  [(true, answering 0 .timeout, .none), (false, answering 1 .network, .none),
    (false, answering 2 .network, .none), (true, answering 3 .network, .none),
    (false, answering 4 .network, .none), (false, answering 5 .network, .after),
    (true, answering 6 .network, .none)]

theorem liveAndGone_isolated : IdsNameOne liveAndGone oneEndpoint ∧
    observe ((isolated (plainEngine 5) liveAndGone).run
        (isolatedStart (plainEngine 5) liveAndGone oneEndpoint) mixedRun).shared ("acme", "ep_1") =
      observe ((isolated (plainEngine 5) liveAndGone).run
        (isolatedStart (plainEngine 5) liveAndGone oneEndpoint)
        (mixedRun.filter fun e => (liveAndGone e.1).message.target = ("acme", "ep_1"))).shared
        ("acme", "ep_1") := by
  have hids : IdsNameOne liveAndGone oneEndpoint := by
    refine ⟨by decide, fun i x hx => ?_⟩
    have hnone : oneEndpoint.store.getMessage (liveAndGone i).message.tenant
        (liveAndGone i).message.messageId = none := by cases i <;> decide +kernel
    rw [hnone] at hx
    cases hx
  exact ⟨hids, fanout_isolation hids mixedRun ("acme", "ep_1")⟩

end Anyhook.Delivery
