import Anyhook.Delivery.Accept

/-! Sending an event again after a failure. `send` writes the idempotency record
before it fans out, so a call that fails in between leaves a record whose event has
messages for some of its endpoints only. A later `send` of the event finds the record
and reports acceptance. -/
namespace Anyhook.Delivery
open Anyhook.Core Anyhook.Testing Anyhook.Lib.Program Anyhook.Lib.OrderedMap

/-! ## A call of `send` that one of its ports may fail -/

/-- The port calls of `send`. Those made for a message carry its place in the fan-out. -/
inductive SendCall where
  | recordEvent
  | matchEndpoints
  | putMessage (i : Nat)
  | transportSend (i : Nat)
  | finalizeEvent
  deriving DecidableEq, Repr

/-- Is `op`, made after `sent` messages were enqueued, this call? -/
def SendCall.is (c : SendCall) (sent : Nat) : Op → Bool
  | .recordEvent .. => c = .recordEvent
  | .matchEndpoints .. => c = .matchEndpoints
  | .putMessage _ => c = .putMessage sent
  | .transportSend _ => c = .transportSend sent
  | .finalizeEvent .. => c = .finalizeEvent
  | _ => false

/-- A port call that throws. `committed` when it throws after its effect. -/
structure Failure where
  call : SendCall
  committed : Bool
  deriving DecidableEq, Repr

/-- One call of `send`: what the environment answers, and which port call throws. -/
structure Trial where
  answers : Nat → Answer
  failure : Option Failure

structure Progress where
  world : World
  calls : Nat
  sent : Nat

/-- Whether this call throws, and then whether its effect took place. -/
def struck (failure : Option Failure) (sent : Nat) (op : Op) : Option Bool :=
  (failure.filter fun f => f.call.is sent op).map Failure.committed

def Progress.after (s : Progress) (a : Answer) (op : Op) : Progress where
  world := (exec none a op s.world).2
  calls := s.calls + 1
  sent := match op with
    | .transportSend _ => s.sent + 1
    | _ => s.sent

def Trial.exec (t : Trial) (op : Op) (s : Progress) : Except String (Res op) × Progress :=
  match struck t.failure s.sent op with
  | none =>
    (.ok (Testing.exec none (t.answers s.calls) op s.world).1, s.after (t.answers s.calls) op)
  | some true => (.error "port failure", s.after (t.answers s.calls) op)
  | some false => (.error "port failure", s)

def Trial.run {α : Type} (t : Trial) (p : Eng α) (w : World) : Except String α × World :=
  let out := p.run t.exec { world := w, calls := 0, sent := 0 }
  (out.1, out.2.world)

/-- A call of `send` from `w`: its receipt or error, and the world it leaves. -/
def trySend (lang : Lang) (en : Engine) (event : SendEvent) (t : Trial) (w : World) :
    Except String Receipt × World :=
  t.run (lang.send en event) w

/-! ## The law -/

/-- What was put on the transport between two states of the world. -/
def enqueued (before after : World) : List Message := after.queue.drop before.queue.length

/-- A message of this event. -/
def Message.isFor (event : SendEvent) (eventId : String) (m : Message) : Prop :=
  m.tenant = event.tenant ∧ m.eventId = eventId ∧ m.eventType = event.type ∧
    m.payload = event.payload

/-- Whatever else happens between two calls, the tenant's endpoints and the record of the
key are left as they are. -/
structure Untouched (tenant key : String) (w w' : World) : Prop where
  endpoints : (w'.store.tenants tenant).endpoints = (w.store.tenants tenant).endpoints
  record : (w'.store.tenants tenant).events.get key = (w.store.tenants tenant).events.get key

/-- If a later call of `send` for the event reports acceptance, every enabled subscribed
endpoint has a message that one of the two calls enqueued. -/
def RetrySafe (lang : Lang) (en : Engine) (event : SendEvent) (w : World) (first : Trial) : Prop :=
  ∀ (between : World) (second : Trial) (receipt : Receipt),
    Untouched event.tenant (lang.keyOf en event) (trySend lang en event first w).2 between →
    (trySend lang en event second between).1 = .ok receipt → receipt.accepted = true →
    ∀ e ∈ (between.store.tenants event.tenant).endpoints.values, wants event.type e = true →
      ∃ m ∈ enqueued w (trySend lang en event first w).2 ++
          enqueued between (trySend lang en event second between).2,
        m.endpointId = e.endpointId ∧ Message.isFor event receipt.eventId m

/-- The endpoints an event goes to. -/
def wanting (w : World) (event : SendEvent) : List Endpoint :=
  (w.store.tenants event.tenant).endpoints.values.filter (wants event.type)

/-- The failure comes before the record is written, or after the last of `k` messages is
on the transport. -/
def Failure.spares (k : Nat) : Option Failure → Prop
  | none => True
  | some ⟨.recordEvent, committed⟩ => committed = false
  | some ⟨.matchEndpoints, _⟩ => False
  | some ⟨.putMessage i, _⟩ => k ≤ i
  | some ⟨.transportSend i, committed⟩ => k ≤ i ∨ committed = true ∧ i + 1 = k
  | some ⟨.finalizeEvent, _⟩ => True

/-- The event is refused, or goes nowhere, or is new and the failure spares it. -/
def Spared (lang : Lang) (en : Engine) (event : SendEvent) (w : World)
    (failure : Option Failure) : Prop :=
  sendError en event ≠ none ∨ wanting w event = [] ∨
    (w.store.tenants event.tenant).events.get (lang.keyOf en event) = none ∧
      Failure.spares (wanting w event).length failure

/-! ## What a call leaves behind -/

theorem struck_eq_some {f : Option Failure} {j : Nat} {op : Op} {c : Bool}
    (h : struck f j op = some c) : ∃ call, f = some ⟨call, c⟩ ∧ call.is j op = true := by
  unfold struck at h
  cases f with
  | none => cases h
  | some f =>
    obtain ⟨call, c'⟩ := f
    by_cases hc : call.is j op = true
    · simp only [Option.filter_some, hc, if_true, Option.map_some, Option.some.injEq] at h
      exact ⟨call, by rw [h], hc⟩
    · simp [hc] at h

section Calls
variable {t : Trial} {s : Progress}

theorem exec_pass {op : Op} (h : struck t.failure s.sent op = none) :
    t.exec op s =
      (.ok (Testing.exec none (t.answers s.calls) op s.world).1,
        s.after (t.answers s.calls) op) := by
  rw [Trial.exec, h]

theorem exec_struck {op : Op} {c : Bool} (h : struck t.failure s.sent op = some c) :
    t.exec op s =
      (.error "port failure", if c then s.after (t.answers s.calls) op else s) := by
  rw [Trial.exec, h]
  cases c <;> rfl

/-- The clock and the random source do not fail, and leave the world alone. -/
theorem run_reads {α : Type} {p : Eng α} (hp : Reads p) (t : Trial) (s : Progress) :
    ∃ a n, p.run t.exec s = (.ok a, { s with calls := n }) := by
  induction hp generalizing s with
  | pure a => exact ⟨a, s.calls, rfl⟩
  | now _ ih =>
    have hx : struck t.failure s.sent .now = none := by simp [struck, SendCall.is]
    rw [Prog.run_call_ok (exec_pass hx)]
    exact ih _ (s.after (t.answers s.calls) .now)
  | next _ ih =>
    have hx : struck t.failure s.sent .next = none := by simp [struck, SendCall.is]
    rw [Prog.run_call_ok (exec_pass hx)]
    exact ih _ (s.after (t.answers s.calls) .next)

/-- Fan-out makes one message of the event for each wanting endpoint, in order. -/
theorem run_fanout {gen : Eng String} (hg : Reads gen) (event : SendEvent) (eventId : String)
    (now : Time) (eps : List Endpoint) (t : Trial) (s : Progress) :
    ∃ ms n, (fanoutWith gen event eventId now eps).run t.exec s = (.ok ms, { s with calls := n }) ∧
      ms.map Message.endpointId = (eps.filter (wants event.type)).map Endpoint.endpointId ∧
      ∀ m ∈ ms, Message.isFor event eventId m := by
  induction eps generalizing s with
  | nil => exact ⟨[], s.calls, rfl, rfl, nofun⟩
  | cons e rest ih =>
    unfold fanoutWith
    by_cases he : wants event.type e = true
    · rw [if_pos he, Prog.run_bind]
      obtain ⟨id, n, hid⟩ := run_reads hg t s
      obtain ⟨ms, n', hms, hmap, hfor⟩ := ih { s with calls := n }
      rw [hid]
      dsimp only
      rw [Prog.run_bind, hms]
      refine ⟨freshMessage event eventId now e id :: ms, n', rfl, ?_, fun m hm => ?_⟩
      · rw [List.filter_cons_of_pos he, List.map_cons, List.map_cons, hmap]
        rfl
      · rcases List.mem_cons.mp hm with rfl | hm
        · exact ⟨rfl, rfl, rfl, rfl⟩
        · exact hfor m hm
    · rw [if_neg he, List.filter_cons_of_neg he]
      exact ih s

end Calls

/-- How many of `k` messages get on the transport before the failure. -/
def reach (k : Nat) : Option Failure → Nat
  | some ⟨.recordEvent, _⟩ | some ⟨.matchEndpoints, _⟩ => 0
  | some ⟨.putMessage i, _⟩ => min i k
  | some ⟨.transportSend i, committed⟩ => min (if committed then i + 1 else i) k
  | some ⟨.finalizeEvent, _⟩ | none => k

/-- The failure, if any, is not among the calls made for the first `j` messages or before. -/
def Failure.ahead (j : Nat) : Option Failure → Prop
  | some ⟨.recordEvent, _⟩ | some ⟨.matchEndpoints, _⟩ => False
  | some ⟨.putMessage i, _⟩ | some ⟨.transportSend i, _⟩ => j ≤ i
  | some ⟨.finalizeEvent, _⟩ | none => True

theorem reach_of_ahead {f : Option Failure} {k : Nat} (h : Failure.ahead k f) : reach k f = k := by
  unfold Failure.ahead at h
  unfold reach
  split at h
  · cases h
  · cases h
  · simpa using h
  · next i c => cases c <;> simp at h ⊢ <;> omega
  · rfl
  · rfl

theorem reach_ge {f : Option Failure} {j k : Nat} (hk : j ≤ k) (h : Failure.ahead j f) :
    j ≤ reach k f := by
  unfold Failure.ahead at h
  unfold reach
  split at h
  · cases h
  · cases h
  · exact le_min h hk
  · next i c => cases c <;> simp at h ⊢ <;> omega
  · exact hk
  · exact hk

/-- A failure ahead that does not strike at the calls for message `j` is past it. -/
theorem ahead_succ {f : Option Failure} {j : Nat} {m : Message} (h : Failure.ahead j f)
    (hput : struck f j (.putMessage m) = none) (hsend : struck f j (.transportSend m) = none) :
    Failure.ahead (j + 1) f := by
  unfold Failure.ahead at h ⊢
  split at h
  · cases h
  · cases h
  · next i c =>
    have hne : i ≠ j := by rintro rfl; simp [struck, SendCall.is] at hput
    exact Nat.lt_of_le_of_ne h hne.symm
  · next i c =>
    have hne : i ≠ j := by rintro rfl; simp [struck, SendCall.is] at hsend
    exact Nat.lt_of_le_of_ne h hne.symm
  · trivial
  · trivial

theorem ahead_zero {f : Option Failure} {tenant eventType : String}
    (hrec : ∀ c, f ≠ some ⟨.recordEvent, c⟩)
    (hmatch : struck f 0 (.matchEndpoints tenant eventType) = none) : Failure.ahead 0 f := by
  unfold Failure.ahead
  split
  · next c => exact absurd rfl (hrec c)
  · simp [struck, SendCall.is] at hmatch
  · exact Nat.zero_le _
  · exact Nat.zero_le _
  · trivial
  · trivial

/-- Enqueueing puts the messages on the transport in order, up to the failure, and leaves
the idempotency records alone. -/
theorem run_enqueueAll (t : Trial) (ms : List Message) (s : Progress)
    (ha : Failure.ahead s.sent t.failure) :
    ((enqueueAll ms).run t.exec s).2.world.queue =
        s.world.queue ++ ms.take (reach (s.sent + ms.length) t.failure - s.sent) ∧
      (∀ u, (((enqueueAll ms).run t.exec s).2.world.store.tenants u).events =
        (s.world.store.tenants u).events) ∧
      ∀ a, ((enqueueAll ms).run t.exec s).1 = .ok a →
        reach (s.sent + ms.length) t.failure = s.sent + ms.length := by
  induction ms generalizing s with
  | nil =>
    refine ⟨?_, fun _ => rfl, fun _ _ => reach_of_ahead ha⟩
    rw [List.take_nil, List.append_nil]
    rfl
  | cons m rest ih =>
    simp only [enqueueAll, Prog.perform_bind, List.length_cons]
    -- the three ways the calls for `m` can go: the first fails, the second fails, or neither
    cases hput : struck t.failure s.sent (.putMessage m) with
    | some c =>
      obtain ⟨call, hf, hcall⟩ := struck_eq_some hput
      obtain rfl : call = .putMessage s.sent := by simpa [SendCall.is] using hcall
      have hreach : reach (s.sent + (rest.length + 1)) t.failure = s.sent := by
        rw [hf]; simp [reach]
      rw [hreach, Prog.run_call_error (exec_struck hput)]
      refine ⟨?_, fun u => ?_, fun a ha => ?_⟩
      · cases c <;> simp [Progress.after, exec]
      · cases c <;> simp [Progress.after, exec_events]
      · cases ha
    | none =>
      rw [Prog.run_call_ok (exec_pass hput)]
      let s1 := s.after (t.answers s.calls) (.putMessage m)
      have hs1sent : s1.sent = s.sent := rfl
      have hs1 : ∀ u, (s1.world.store.tenants u).events = (s.world.store.tenants u).events :=
        fun u => exec_events ..
      cases hsend : struck t.failure s1.sent (.transportSend m) with
      | some c =>
        obtain ⟨call, hf, hcall⟩ := struck_eq_some hsend
        obtain rfl : call = .transportSend s.sent := by
          rw [← hs1sent]; simpa [SendCall.is] using hcall
        have hreach : reach (s.sent + (rest.length + 1)) t.failure =
            s.sent + (if c then 1 else 0) := by
          rw [hf]
          cases c <;> simp [reach]
        rw [hreach, Prog.run_call_error (exec_struck hsend)]
        refine ⟨?_, fun u => ?_, fun a ha => ?_⟩
        · cases c <;> simp [s1, Progress.after, exec]
        · cases c
          · exact hs1 u
          · exact (exec_events ..).trans (hs1 u)
        · cases ha
      | none =>
        rw [Prog.run_call_ok (exec_pass hsend)]
        let s2 := s1.after (t.answers s1.calls) (.transportSend m)
        have hs2 : s2.sent = s.sent + 1 := rfl
        obtain ⟨hq, he, hok⟩ := ih s2 (ahead_succ ha hput hsend)
        have hlen : s2.sent + rest.length = s.sent + (rest.length + 1) := by omega
        rw [hlen] at hq hok
        refine ⟨?_, fun u => ?_, hok⟩
        · have hone : s.sent + 1 ≤ reach (s.sent + (rest.length + 1)) t.failure :=
            reach_ge (by omega) (ahead_succ ha hput hsend)
          rw [hq, hs2, show reach (s.sent + (rest.length + 1)) t.failure - s.sent =
            reach (s.sent + (rest.length + 1)) t.failure - (s.sent + 1) + 1 by omega,
            List.take_succ_cons]
          simp [s2, s1, Progress.after, exec]
        · exact (he u).trans ((exec_events ..).trans (hs1 u))

theorem wanting_eq (w : World) (event : SendEvent) :
    (w.store.matchEndpoints event.tenant event.type).filter (wants event.type) =
      wanting w event := by
  unfold MemoryStateStore.matchEndpoints wanting
  rw [List.filter_filter]
  refine List.filter_congr fun e _ => ?_
  simp only [wants]
  cases e.disabled <;> simp

/-- What a call that wrote the record leaves: the messages of its fan-out, `n` of which
are on the transport, and a record of the key with the call's event id. -/
structure Accepted (event : SendEvent) (key : String) (w : World) (eventId : String)
    (ms : List Message) (n : Nat) (w' : World) : Prop where
  ids : ms.map Message.endpointId = (wanting w event).map Endpoint.endpointId
  isFor : ∀ m ∈ ms, Message.isFor event eventId m
  queue : w'.queue = w.queue ++ ms.take n
  record : ∃ count, (w'.store.tenants event.tenant).events.get key =
    some { eventId := eventId, messageCount := count }

/-- The messages of a fan-out that was cut short before it began. -/
def unsent (w : World) (event : SendEvent) (eventId : String) : List Message :=
  (wanting w event).map fun e => freshMessage event eventId 0 e ""

theorem unsent_ids (w : World) (event : SendEvent) (eventId : String) :
    (unsent w event eventId).map Message.endpointId =
      (wanting w event).map Endpoint.endpointId := by
  simp [unsent, freshMessage]

theorem unsent_isFor (w : World) (event : SendEvent) (eventId : String) :
    ∀ m ∈ unsent w event eventId, Message.isFor event eventId m := by
  intro m hm
  obtain ⟨e, -, rfl⟩ := List.mem_map.mp hm
  exact ⟨rfl, rfl, rfl, rfl⟩

section Accept
variable {genEvent genMessage : Eng String} {event : SendEvent} {key : String} {t : Trial}
variable {w : World}

theorem run_enqueueAndFinalize {eventId : String} {s : Progress} {count : Nat} (ms : List Message)
    (hsent : s.sent = 0) (hahead : Failure.ahead 0 t.failure)
    (hrec : (s.world.store.tenants event.tenant).events.get key =
      some { eventId := eventId, messageCount := count }) :
    let out := (enqueueAll ms >>= fun _ =>
      port (.finalizeEvent event.tenant key eventId ms.length) >>= fun _ =>
        (return { eventId := eventId, accepted := true, messageCount := ms.length } :
          Eng Receipt)).run t.exec s
    out.2.world.queue = s.world.queue ++ ms.take (reach ms.length t.failure) ∧
      (∃ count, (out.2.world.store.tenants event.tenant).events.get key =
        some { eventId := eventId, messageCount := count }) ∧
      ∀ r, out.1 = .ok r → r.eventId = eventId ∧ reach ms.length t.failure = ms.length := by
  intro out
  obtain ⟨hq, hev, hok⟩ := run_enqueueAll t ms s (hsent ▸ hahead)
  rw [hsent, Nat.zero_add, Nat.sub_zero] at hq
  rw [hsent, Nat.zero_add] at hok
  simp only [out]
  rw [Prog.run_bind]
  cases hrun : (enqueueAll ms).run t.exec s with
  | mk res s' =>
    rw [hrun] at hq hev hok
    have hrec' : (s'.world.store.tenants event.tenant).events.get key =
        some { eventId := eventId, messageCount := count } := by rw [hev]; exact hrec
    cases res with
    | error e =>
      refine ⟨hq, ⟨count, hrec'⟩, fun r hr => ?_⟩
      cases hr
    | ok u =>
      dsimp only
      have hfin : ∀ a, (((exec none a (.finalizeEvent event.tenant key eventId ms.length)
          s'.world).2).store.tenants event.tenant).events.get key =
          some { eventId := eventId, messageCount := ms.length } := by
        intro a
        rw [exec_events]
        simp
      cases hstr : struck t.failure s'.sent (.finalizeEvent event.tenant key eventId ms.length) with
      | none =>
        simp only [Prog.perform_bind, Prog.run_call_ok (exec_pass hstr)]
        refine ⟨hq, ⟨_, hfin (t.answers s'.calls)⟩, fun r hr => ?_⟩
        cases hr
        exact ⟨rfl, hok u rfl⟩
      | some c =>
        simp only [Prog.perform_bind, Prog.run_call_error (exec_struck hstr)]
        refine ⟨?_, ?_, fun r hr => ?_⟩
        · cases c <;> exact hq
        · cases c
          · exact ⟨count, hrec'⟩
          · exact ⟨_, hfin (t.answers s'.calls)⟩
        · cases hr

/-- From the record on, the call leaves it with its event id. -/
theorem run_distribute (hm : Reads genMessage) (eventId : String) {s : Progress} {count : Nat}
    (hsent : s.sent = 0)
    (hrec : (s.world.store.tenants event.tenant).events.get key =
      some { eventId := eventId, messageCount := count })
    (hf : ∀ c, t.failure ≠ some ⟨.recordEvent, c⟩) :
    ∃ ms, Accepted event key s.world eventId ms (reach ms.length t.failure)
        ((distribute (fanoutWith genMessage) event eventId key).run t.exec s).2.world ∧
      ∀ r, ((distribute (fanoutWith genMessage) event eventId key).run t.exec s).1 = .ok r →
        r.eventId = eventId ∧ reach ms.length t.failure = ms.length := by
  unfold distribute
  simp only [Prog.perform_bind]
  cases hmatch : struck t.failure s.sent (.matchEndpoints event.tenant event.type) with
  | some c =>
    obtain ⟨call, hcall, his⟩ := struck_eq_some hmatch
    obtain rfl : call = .matchEndpoints := by simpa [SendCall.is] using his
    -- no message was made: any messages of the fan-out will do, none is enqueued
    refine ⟨unsent s.world event eventId, ?_, ?_⟩
    · rw [hcall, Prog.run_call_error (exec_struck hmatch)]
      refine ⟨unsent_ids .., unsent_isFor _ _ _, ?_, count, ?_⟩
      · cases c <;> simp [reach, Progress.after, exec]
      · cases c <;> simpa [Progress.after, exec] using hrec
    · intro r hr
      rw [Prog.run_call_error (exec_struck hmatch)] at hr
      cases hr
  | none =>
    have hahead : Failure.ahead 0 t.failure := by
      rw [hsent] at hmatch
      exact ahead_zero hf hmatch
    let s1 := s.after (t.answers s.calls) (.matchEndpoints event.tenant event.type)
    have hnow : struck t.failure s1.sent .now = none := by simp [struck, SendCall.is]
    rw [Prog.run_call_ok (exec_pass hmatch), Prog.run_call_ok (exec_pass hnow), Prog.run_bind]
    obtain ⟨ms, n, hfan, hids, hfor⟩ := run_fanout hm event eventId
      (exec none (t.answers s1.calls) .now s1.world).1
      (exec none (t.answers s.calls) (.matchEndpoints event.tenant event.type) s.world).1 t
      (s1.after (t.answers s1.calls) .now)
    obtain ⟨hq, hcount, hok⟩ := run_enqueueAndFinalize
      (s := { s1.after (t.answers s1.calls) .now with calls := n }) ms hsent hahead hrec
    refine ⟨ms, ?_⟩
    rw [hfan]
    exact ⟨⟨hids.trans (congrArg _ (wanting_eq s.world event)), hfor, hq, hcount⟩, hok⟩

/-- The key is new and its record is written. -/
theorem run_accept_new (he : Reads genEvent) (hm : Reads genMessage)
    (hnew : (w.store.tenants event.tenant).events.get key = none)
    (hf : t.failure ≠ some ⟨.recordEvent, false⟩) :
    ∃ eventId ms, Accepted event key w eventId ms (reach ms.length t.failure)
        (t.run (acceptWith genEvent (fanoutWith genMessage) event key) w).2 ∧
      ∀ r, (t.run (acceptWith genEvent (fanoutWith genMessage) event key) w).1 = .ok r →
        r.eventId = eventId ∧ reach ms.length t.failure = ms.length := by
  unfold acceptWith Trial.run
  obtain ⟨eventId, n, hid⟩ := run_reads he t { world := w, calls := 0, sent := 0 }
  let s : Progress := { world := w, calls := n, sent := 0 }
  rw [Prog.run_bind, hid]
  simp only [Prog.perform_bind]
  have hrec : ∀ a, ((exec none a (.recordEvent event.tenant eventId key) w).2.store.tenants
      event.tenant).events.get key = some { eventId := eventId, messageCount := 0 } := by
    intro a
    rw [exec_events]
    simp [hnew]
  have hisNew : ∀ a, (exec none a (.recordEvent event.tenant eventId key) w).1.isNew = true := by
    intro a
    simp [exec, MemoryStateStore.recordEvent, hnew]
  cases hstr : struck t.failure s.sent (.recordEvent event.tenant eventId key) with
  | some c =>
    obtain ⟨call, hcall, his⟩ := struck_eq_some hstr
    obtain rfl : call = .recordEvent := by simpa [SendCall.is] using his
    obtain rfl : c = true := by
      cases c
      · exact absurd hcall hf
      · rfl
    rw [Prog.run_call_error (exec_struck hstr)]
    refine ⟨eventId, unsent w event eventId, ?_, fun r hr => ?_⟩
    · refine ⟨unsent_ids .., unsent_isFor _ _ _, ?_, 0, hrec (t.answers n)⟩
      simp [hcall, reach, s, Progress.after, exec]
    · cases hr
  | none =>
    have hno : ∀ c, t.failure ≠ some ⟨.recordEvent, c⟩ := by
      intro c hc
      rw [hc] at hstr
      simp [struck, SendCall.is] at hstr
    rw [Prog.run_call_ok (exec_pass hstr), if_pos (hisNew (t.answers n))]
    obtain ⟨ms, ⟨hids, hfor, hq, hcount⟩, hok⟩ := run_distribute hm eventId
      (s := s.after (t.answers n) (.recordEvent event.tenant eventId key)) rfl
      (hrec (t.answers n)) hno
    have hwant : wanting (exec none (t.answers n) (.recordEvent event.tenant eventId key) w).2
        event = wanting w event := by
      unfold wanting
      rw [exec_endpoints]
    exact ⟨eventId, ms, ⟨hids.trans (congrArg _ hwant), hfor, hq, hcount⟩, hok⟩

/-- A call whose recording fails without effect leaves the world as it was. -/
theorem run_accept_unrecorded (he : Reads genEvent)
    (hf : t.failure = some ⟨.recordEvent, false⟩) :
    t.run (acceptWith genEvent (fanoutWith genMessage) event key) w =
      (.error "port failure", w) := by
  unfold acceptWith Trial.run
  obtain ⟨eventId, n, hid⟩ := run_reads he t { world := w, calls := 0, sent := 0 }
  have hstr : struck t.failure 0 (.recordEvent event.tenant eventId key) = some false := by
    rw [hf]; simp [struck, SendCall.is]
  rw [Prog.run_bind, hid]
  simp only [Prog.perform_bind]
  rw [Prog.run_call_error (exec_struck hstr)]
  rfl

/-- A call that finds the key recorded changes nothing, and returns what was recorded. -/
theorem run_accept_again (genMessage : Eng String) (t : Trial) (he : Reads genEvent)
    {rec : EventRecord}
    (hold : (w.store.tenants event.tenant).events.get key = some rec) :
    (t.run (acceptWith genEvent (fanoutWith genMessage) event key) w).2 = w ∧
      (∀ r, (t.run (acceptWith genEvent (fanoutWith genMessage) event key) w).1 = .ok r →
        r.eventId = rec.eventId) ∧
      (t.failure = none →
        (t.run (acceptWith genEvent (fanoutWith genMessage) event key) w).1 =
          .ok { eventId := rec.eventId, accepted := true, messageCount := rec.messageCount }) := by
  unfold acceptWith Trial.run
  obtain ⟨eventId, n, hid⟩ := run_reads he t { world := w, calls := 0, sent := 0 }
  let s : Progress := { world := w, calls := n, sent := 0 }
  rw [Prog.run_bind, hid]
  simp only [Prog.perform_bind]
  have hans : ∀ a, (exec none a (.recordEvent event.tenant eventId key) w).1 =
      { isNew := false, eventId := rec.eventId, messageCount := rec.messageCount } := by
    intro a
    simp [exec, MemoryStateStore.recordEvent, hold]
  have hsame : ∀ a, (exec none a (.recordEvent event.tenant eventId key) w).2 = w := by
    intro a
    simp [exec, MemoryStateStore.recordEvent, hold]
  cases hstr : struck t.failure s.sent (.recordEvent event.tenant eventId key) with
  | some c =>
    rw [Prog.run_call_error (exec_struck hstr)]
    refine ⟨?_, fun r hr => ?_, fun hf => ?_⟩
    · cases c
      · rfl
      · exact hsame (t.answers n)
    · cases hr
    · rw [hf] at hstr
      cases hstr
  | none =>
    rw [Prog.run_call_ok (exec_pass hstr), hans, if_neg (by simp)]
    refine ⟨hsame (t.answers n), fun r hr => ?_, fun _ => rfl⟩
    cases hr
    rfl

end Accept

theorem spares_iff {f : Option Failure} {k : Nat} (hk : 0 < k)
    (hf : f ≠ some ⟨.recordEvent, false⟩) : Failure.spares k f ↔ reach k f = k := by
  unfold Failure.spares reach
  split
  · simp
  · next c =>
    cases c
    · exact absurd rfl hf
    · simpa using hk.ne
  · simpa using hk.ne
  · simp
  · next i c => cases c <;> simp; omega
  · simp

theorem reach_le (k : Nat) (f : Option Failure) : reach k f ≤ k := by
  unfold reach
  split
  · exact Nat.zero_le _
  · exact Nat.zero_le _
  · exact min_le_right _ _
  · exact min_le_right _ _
  · exact le_rfl
  · exact le_rfl

/-- No two endpoints an event goes to have one id. -/
theorem wanting_nodup (w : World) (event : SendEvent) :
    ((wanting w event).map Endpoint.endpointId).Nodup :=
  (w.store.tenants event.tenant).endpoints.nodup_keys.sublist (List.filter_sublist.map _)

/-- `send` changes no endpoint. -/
theorem trySend_endpoints (lang : Lang) (en : Engine) (event : SendEvent) (t : Trial) (w : World)
    (u : String) : ((trySend lang en event t w).2.store.tenants u).endpoints =
      (w.store.tenants u).endpoints := by
  refine Prog.run_keeps (I := fun s : Progress =>
    (s.world.store.tenants u).endpoints = (w.store.tenants u).endpoints) (fun op s hs => ?_) _ rfl
  unfold Trial.exec
  split
  · exact (exec_endpoints ..).trans hs
  · exact (exec_endpoints ..).trans hs
  · exact hs

section Law
variable {lang : Lang} {en : Engine} {event : SendEvent} {w : World} {first : Trial}

theorem Accepted.enqueued {key eventId : String} {ms : List Message} {n : Nat} {w' : World}
    (h : Accepted event key w eventId ms n w') : enqueued w w' = ms.take n := by
  rw [Delivery.enqueued, h.queue, List.drop_left]

/-- A fan-out that is enqueued whole serves every wanting endpoint. -/
theorem Accepted.serves {key eventId : String} {ms : List Message} {n : Nat} {w' : World}
    (h : Accepted event key w eventId ms n w') (hn : n = ms.length) {e : Endpoint}
    (he : e ∈ wanting w event) :
    ∃ m ∈ Delivery.enqueued w w', m.endpointId = e.endpointId ∧ Message.isFor event eventId m := by
  have hid : e.endpointId ∈ ms.map Message.endpointId := by
    rw [h.ids]
    exact List.mem_map_of_mem he
  obtain ⟨m, hm, hme⟩ := List.mem_map.mp hid
  rw [h.enqueued, hn, List.take_length]
  exact ⟨m, hm, hme, h.isFor m hm⟩

/-- A fan-out cut short leaves some wanting endpoint without a message. -/
theorem Accepted.misses {key eventId : String} {ms : List Message} {n : Nat} {w' : World}
    (h : Accepted event key w eventId ms n w') (hn : n < ms.length) :
    ∃ e ∈ wanting w event, ∀ m ∈ Delivery.enqueued w w', m.endpointId ≠ e.endpointId := by
  have hlen : ms.length = (wanting w event).length := by
    simpa using congrArg List.length h.ids
  have hn' : n < (wanting w event).length := hlen ▸ hn
  refine ⟨(wanting w event)[n], List.getElem_mem hn', fun m hm heq => ?_⟩
  rw [h.enqueued] at hm
  have hmem : (wanting w event)[n].endpointId ∈
      ((wanting w event).map Endpoint.endpointId).take n := by
    rw [← h.ids, ← List.map_take, ← heq]
    exact List.mem_map_of_mem hm
  obtain ⟨i, hi, hget⟩ := List.mem_take_iff_getElem.mp hmem
  have hi' : i < ((wanting w event).map Endpoint.endpointId).length := by omega
  have hn'' : n < ((wanting w event).map Endpoint.endpointId).length := by simpa using hn'
  have hsame : ((wanting w event).map Endpoint.endpointId)[i] =
      ((wanting w event).map Endpoint.endpointId)[n] := by rw [hget, List.getElem_map]
  have hin : i = n := (List.getElem_inj (wanting_nodup w event)).mp hsame
  omega

/-- An event that passes the checks goes to `acceptWith`. -/
theorem trySend_eq (lang : Lang) (hval : sendError en event = none) :
    ∃ genEvent genMessage : Eng String, Reads genEvent ∧ Reads genMessage ∧ ∀ t w,
      trySend lang en event t w =
        t.run (acceptWith genEvent (fanoutWith genMessage) event (lang.keyOf en event)) w := by
  obtain ⟨genEvent, genMessage, he, hm, heq⟩ := send_eq lang en event
  refine ⟨genEvent, genMessage, he, hm, fun t w => ?_⟩
  rw [trySend, heq, hval]

theorem wanting_untouched {key : String} {between : World} {t : Trial}
    (h : Untouched event.tenant key (trySend lang en event t w).2 between) :
    wanting between event = wanting w event := by
  unfold wanting
  rw [h.endpoints, trySend_endpoints]

theorem retrySafe_of_spares (hval : sendError en event = none)
    (hnew : (w.store.tenants event.tenant).events.get (lang.keyOf en event) = none)
    (hs : Failure.spares (wanting w event).length first.failure) :
    RetrySafe lang en event w first := by
  intro between second receipt hun hok _ e hmem hwants
  obtain ⟨genEvent, genMessage, he, hm, htry⟩ := trySend_eq lang hval
  have hwant := wanting_untouched hun
  have hbetween : e ∈ wanting between event := List.mem_filter.mpr ⟨hmem, hwants⟩
  have hrec := hun.record
  by_cases hf : first.failure = some ⟨.recordEvent, false⟩
  · -- nothing was recorded: the second call fans out by itself
    rw [htry, run_accept_unrecorded he hf] at hrec
    have hnew' := hrec.trans hnew
    have hf' : second.failure ≠ some ⟨.recordEvent, false⟩ := by
      intro hf'
      rw [htry, run_accept_unrecorded he hf'] at hok
      cases hok
    obtain ⟨eventId, ms, hacc, hret⟩ := run_accept_new he hm hnew' hf'
    rw [← htry] at hacc hret
    obtain ⟨rfl, hall⟩ := hret receipt hok
    obtain ⟨m, hm, h⟩ := hacc.serves hall hbetween
    exact ⟨m, List.mem_append_right _ hm, h⟩
  · -- the first call enqueued everything, and the second returns its event id
    obtain ⟨eventId, ms, hacc, -⟩ := run_accept_new he hm hnew hf
    rw [← htry] at hacc
    obtain ⟨count, hcount⟩ := hacc.record
    have hagain := run_accept_again genMessage second he (hrec.trans hcount)
    rw [← htry] at hagain
    have hid := hagain.2.1 receipt hok
    have hlen : ms.length = (wanting w event).length := by
      simpa using congrArg List.length hacc.ids
    rw [← hlen] at hs
    have hpos : 0 < ms.length := by
      rw [hlen, ← hwant]
      exact List.length_pos_of_mem hbetween
    obtain ⟨m, hm, h⟩ := hacc.serves ((spares_iff hpos hf).mp hs) (hwant ▸ hbetween)
    exact ⟨m, List.mem_append_left _ hm, by rw [hid]; exact h⟩

/-- The second call right after the first, with no failure, shows what is missing. -/
theorem spared_of_retrySafe (hval : sendError en event = none)
    (hsafe : RetrySafe lang en event w first) : Spared lang en event w first.failure := by
  obtain ⟨genEvent, genMessage, he, hm, htry⟩ := trySend_eq lang hval
  let second : Trial := { first with failure := none }
  -- where the second call finds the key recorded, the first call enqueued everything
  have hfirst : ∀ rec, ((trySend lang en event first w).2.store.tenants event.tenant).events.get
      (lang.keyOf en event) = some rec → ∀ e ∈ wanting w event,
      ∃ m ∈ enqueued w (trySend lang en event first w).2, m.endpointId = e.endpointId := by
    intro rec hrec e hmem
    obtain ⟨hworld, -, hok⟩ := run_accept_again genMessage second he hrec
    rw [← htry] at hworld hok
    have hun : Untouched event.tenant (lang.keyOf en event) (trySend lang en event first w).2
        (trySend lang en event first w).2 := ⟨rfl, rfl⟩
    rw [← wanting_untouched hun] at hmem
    obtain ⟨hmem, hwants⟩ := List.mem_filter.mp hmem
    obtain ⟨m, hm, hid, -⟩ := hsafe _ second _ hun (hok rfl) rfl e hmem hwants
    rw [hworld, enqueued, enqueued, List.drop_length, List.append_nil] at hm
    exact ⟨m, hm, hid⟩
  refine .inr (or_iff_not_imp_left.mpr fun hne => ?_)
  obtain ⟨e, hmem⟩ := List.exists_mem_of_ne_nil _ hne
  cases hold : (w.store.tenants event.tenant).events.get (lang.keyOf en event) with
  | some rec =>
    have hagain := run_accept_again genMessage first he hold
    rw [← htry] at hagain
    rw [hagain.1] at hfirst
    obtain ⟨m, hm, -⟩ := hfirst rec hold e hmem
    simp [enqueued] at hm
  | none =>
    refine ⟨rfl, ?_⟩
    by_cases hf : first.failure = some ⟨.recordEvent, false⟩
    · rw [hf]; rfl
    · obtain ⟨eventId, ms, hacc, -⟩ := run_accept_new he hm hold hf
      rw [← htry] at hacc
      obtain ⟨count, hcount⟩ := hacc.record
      have hlen : ms.length = (wanting w event).length := by
        simpa using congrArg List.length hacc.ids
      rw [← hlen, spares_iff (by rw [hlen]; exact List.length_pos_of_mem hmem) hf]
      by_contra hcut
      obtain ⟨e', hmem', hmiss⟩ := hacc.misses (lt_of_le_of_ne (reach_le ..) hcut)
      obtain ⟨m, hm, hid⟩ := hfirst _ hcount e' hmem'
      exact hmiss m hm hid

/-- **Sending again.** A later `send` that reports acceptance is right about every endpoint
exactly when the event was refused, goes nowhere, or was new and the first call failed
before it recorded the key or after its last message was on the transport. -/
theorem send_retry_safe_iff (lang : Lang) (en : Engine) (event : SendEvent) (w : World)
    (first : Trial) :
    RetrySafe lang en event w first ↔ Spared lang en event w first.failure := by
  cases hval : sendError en event with
  | some e =>
    refine iff_of_true (fun between second receipt _ hok => ?_) (.inl (by simp [hval]))
    obtain ⟨_, _, _, _, heq⟩ := send_eq lang en event
    rw [trySend, heq, hval] at hok
    cases hok
  | none =>
    refine ⟨spared_of_retrySafe hval, ?_⟩
    rintro (h | h | ⟨hnew, hs⟩)
    · exact absurd hval h
    · intro between second receipt hun _ _ e hmem hwants
      have hmem : e ∈ wanting between event := List.mem_filter.mpr ⟨hmem, hwants⟩
      rw [wanting_untouched hun, h] at hmem
      cases hmem
    · exact retrySafe_of_spares hval hnew hs

end Law

/-- A call whose first message cannot be stored, and one that nothing disturbs. -/
def storeFails : Trial where
  answers := fun _ => answering 0 .network
  failure := some ⟨.putMessage 0, false⟩

def undisturbed : Trial where
  answers := fun _ => answering 0 .network
  failure := none

/-- The receipt the second call returns. -/
def emptyReceipt : Receipt where
  eventId := "evt_aaaaaaaaaaaaaaaaaaaa"
  accepted := true
  messageCount := 0

/-- Both engines report the event accepted, with no message for its endpoint. -/
theorem unsent_reported_accepted :
    ¬ RetrySafe .ts (plainEngine 5) orderCreated oneEndpoint storeFails ∧
      ¬ RetrySafe .go (plainEngine 5) orderCreated oneEndpoint storeFails := by
  have hfails : ∀ lang, ¬ RetrySafe lang (plainEngine 5) orderCreated oneEndpoint storeFails := by
    intro lang hsafe
    let w1 := (trySend lang (plainEngine 5) orderCreated storeFails oneEndpoint).2
    have hok : (trySend lang (plainEngine 5) orderCreated undisturbed w1).1 = .ok emptyReceipt := by
      cases lang <;> decide +kernel
    have hmem : anyEvent.endpoint "ep_1" "whsec_1" 0 ∈
        (w1.store.tenants "acme").endpoints.values := by
      cases lang <;> decide +kernel
    have hnone : enqueued oneEndpoint w1 ++
        enqueued w1 (trySend lang (plainEngine 5) orderCreated undisturbed w1).2 = [] := by
      cases lang <;> decide +kernel
    obtain ⟨m, hm, -⟩ := hsafe w1 undisturbed emptyReceipt ⟨rfl, rfl⟩ hok rfl _ hmem
      (by decide +kernel)
    rw [hnone] at hm
    cases hm
  exact ⟨hfails .ts, hfails .go⟩

end Anyhook.Delivery
