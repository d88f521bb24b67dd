import Anyhook.Cloudflare.SameStore
import Anyhook.Delivery.Deployed

/-! The engine over DoStateStore. Every run over the objects in which no two messages have one
id goes as the run over the in-memory store that has its endpoints in the order of their ids,
endpoints that are deleted under way and their messages included. -/
namespace Anyhook.Cloudflare.Store
open Anyhook.Core Anyhook.Testing Anyhook.Delivery Anyhook.Lib.Program Anyhook.Lib.OrderedMap
open Anyhook.Lib.Scan

/-- A call of DoStateStore. -/
def objectsCall : Backing Cloud := fun op c => (DoStateStore.perform op).run cloudExec c

/-- A message with its endpoint. -/
def HomeIs (home : String → String → String) (tenant messageId endpointId : String) : Prop :=
  home tenant messageId = endpointId

/-- The DLQ of every endpoint can be numbered on. -/
def Numbered (s : MemoryStateStore) : Prop :=
  ∀ t endpointId, (dlqOf (s.tenants t) endpointId).length < 2 ^ 53

/-! ## Endpoints in the order of their keys -/

section Arranged
variable {home : String → String → String} {c : Cloud} {s : MemoryStateStore}

theorem endpointKey_lt {t id id' : String} (h : id < id') :
    (Slot.endpoint t id).key < (Slot.endpoint t id').key := by
  show "ep:" ++ id < "ep:" ++ id'
  rw [String.lt_iff_toList_lt, String.toList_append, String.toList_append, append_lt_append_iff,
    ← String.lt_iff_toList_lt]
  exact h

theorem list_endpoints (h : Represents home c s) (hs : s.Arranged) (t : String) :
    (c.list (tenantStub t) Family.endpoint.tag).map Prod.snd =
      (s.tenants t).endpoints.values.map Val.endpoint := by
  refine sort_entries (pairs_nodup c _ _) (f := fun id => (Slot.endpoint t id).key)
    (m := (s.tenants t).endpoints.toOMap) ?_ ?_
  · exact (hs t).imp fun hlt => endpointKey_lt hlt
  · intro k v
    rw [show (k, v) ∈ _ ↔ _ from h.holds.mem_pairs (f := Family.endpoint)]
    constructor
    · rintro ⟨r, hstub, hfamily, rfl, hv⟩
      cases r <;> cases hfamily
      obtain rfl := Stub.tenantIndex.inj hstub
      obtain ⟨e, he, rfl⟩ := Option.map_eq_some_iff.mp hv
      exact ⟨_, e, he, rfl, rfl⟩
    · rintro ⟨id, e, he, rfl, rfl⟩
      exact ⟨.endpoint t id, rfl, rfl, rfl, congrArg (Option.map Val.endpoint) he⟩

theorem listEndpoints_arranged (h : Represents home c s) (hs : s.Arranged) (t : String) :
    Prog.Ends cloudExec (TenantIndexDurableObject.listEndpoints (tenantStub t))
      (fun all c' => all = (s.tenants t).endpoints.values ∧ c' = c) c := by
  have hlist := list_endpoints h hs t
  refine (storageList_ends (h.endpoints t).1).mono ?_
  intro all c' hread
  obtain ⟨rfl, hc'⟩ := hread
  refine ⟨?_, hc'⟩
  unfold Cloud.values
  rw [show (fun p : String × Val => Val.endpoint? p.2) = Val.endpoint? ∘ Prod.snd from rfl,
    ← List.filterMap_map, hlist, List.filterMap_map,
    show Val.endpoint? ∘ Val.endpoint = some from rfl, List.filterMap_some]

theorem matchEndpoints_arranged (h : Represents home c s) (hs : s.Arranged)
    (t eventType : String) :
    Prog.Ends cloudExec (DoStateStore.perform (.matchEndpoints t eventType))
      (fun all c' => all = s.matchEndpoints t eventType ∧ c' = c) c := by
  refine (listEndpoints_arranged h hs t).bind ?_
  intro all c' hread
  obtain ⟨rfl, hc'⟩ := hread
  exact Prog.ends_pure ⟨rfl, hc'⟩

theorem contents_arranged (home : String → String → String) (s : MemoryStateStore) :
    contents home s.arranged = contents home s := by
  funext r
  cases r with
  | endpoint t id => exact congrArg (Option.map Val.endpoint) (KMap.get_sorted _ id)
  | _ => rfl

theorem Represents.arranged (h : Represents home c s) : Represents home c s.arranged where
  holds := by
    rw [contents_arranged]
    exact h.holds
  kept := ⟨h.kept.messages, h.kept.short⟩

end Arranged

/-! ## The objects serve the engine -/

section Served
variable {home : String → String → String} {c : Cloud} {s : MemoryStateStore} {op : StoreOp}

theorem Numbered.of_extends {s' : MemoryStateStore} (h : s.Extends s') (hs : Numbered s') :
    Numbered s := by
  intro t endpointId
  exact ((h.dlq t).sublist.filter _).length_le.trans_lt (hs t endpointId)

theorem numbered_of_noLonger {k : Nat} (h : NoLonger k s) (hk : k < 2 ^ 53) : Numbered s := by
  intro t endpointId
  exact ((List.length_filter_le _ _).trans (h t).1).trans_lt hk

theorem atHome_of_served (hop : Served (HomeIs home) op) : AtHome home op := by
  cases op with
  | putMessage m => exact hop
  | appendAttempt a => exact hop
  | _ => trivial

theorem routed_of_served (hnumbered : Numbered s) (hop : Served (HomeIs home) op) :
    Routed s op := by
  cases op with
  | addToDlq m reason => exact hnumbered m.tenant m.endpointId
  | getMessage t messageId => exact absurd hop id
  | listDeliveries q => exact absurd hop id
  | listDlq t endpointId => exact absurd hop id
  | _ => trivial

theorem objectsCall_answers (h : Represents home c s) (hs : s.Arranged) (hnumbered : Numbered s)
    (hop : Served (HomeIs home) op) : (objectsCall op c).1 = (s.perform op).1 := by
  have hagrees := perform_agrees h (atHome_of_served hop) (routed_of_served hnumbered hop)
  have hsame := hagrees.same
  cases op with
  | listEndpoints t =>
    obtain ⟨all, c', hrun, rfl, -⟩ := listEndpoints_arranged h hs t
    exact congrArg Prod.fst hrun
  | matchEndpoints t eventType =>
    obtain ⟨all, c', hrun, rfl, -⟩ := matchEndpoints_arranged h hs t eventType
    exact congrArg Prod.fst hrun
  | getMessage t messageId => exact absurd hop id
  | listDeliveries q => exact absurd hop id
  | listDlq t endpointId => exact absurd hop id
  | _ => exact (hsame.eq fun _ _ hab => hab).symm

/-- The objects serve the engine as the in-memory store does. -/
theorem objects_serve (home : String → String → String) :
    Serves objectsCall (fun s c => Represents home c s) (HomeIs home) Numbered where
  answers h hs hnumbered hop := objectsCall_answers h hs hnumbered hop
  keeps h _ hnumbered hop := by
    have hhome := atHome_of_served hop
    have hrouted := routed_of_served hnumbered hop
    exact ⟨(perform_agrees h hhome hrouted).holds, h.kept.perform hhome hrouted⟩
  arranged h := h.arranged
  fit_before h := h.of_extends (MemoryStateStore.perform_extends _ _)
  fit_arranged := Iff.rfl

end Served

/-! ## Runs over the objects -/

section Runs
variable {lang : Lang} {en : Engine} {steps : List Step}

/-- The endpoint a message was sent to. -/
def homeOf (sent : List Message) (tenant messageId : String) : String :=
  ((sent.find? fun m => m.key = (tenant, messageId)).map Message.endpointId).getD ""

theorem homeOf_eq {sent : List Message} (hids : (sent.map Message.key).Nodup) {m : Message}
    (hm : m ∈ sent) : homeOf sent m.tenant m.messageId = m.endpointId := by
  unfold homeOf
  cases hfind : sent.find? fun x => x.key = (m.tenant, m.messageId) with
  | none =>
    have hnot := List.find?_eq_none.mp hfind m hm
    exact absurd (decide_eq_true rfl) hnot
  | some x =>
    have hfound := List.find?_some hfind
    have hkey : x.key = m.key := of_decide_eq_true hfound
    have hx := List.mem_of_find?_eq_some hfind
    rw [List.inj_on_of_nodup_map hids hx hm hkey]
    rfl

/-- No objects yet, and nothing sent. -/
def newObjects : Deployed Cloud := .start .empty

theorem run_stands (hsteps : steps.length < 2 ^ 53) {home : String → String → String}
    (hhome : ∀ m ∈ (Run.start.arrangedRun lang en steps).sent,
      home m.tenant m.messageId = m.endpointId) :
    RunStands (fun s c => Represents home c s) (HomeIs home) (Run.start.arrangedRun lang en steps)
      (newObjects.run objectsCall lang en steps) :=
  run_alike (objects_serve home) (start_stands (represents_begin home))
    (numbered_of_noLonger (run_noLonger lang en steps) hsteps) hhome

/-- **The engine cannot tell the objects from memory.** -/
theorem objects_run_as_memory (lang : Lang) (en : Engine) (steps : List Step)
    (hsteps : steps.length < 2 ^ 53)
    (hids : ((Run.start.arrangedRun lang en steps).sent.map Message.key).Nodup) :
    let r := Run.start.arrangedRun lang en steps
    let d := newObjects.run objectsCall lang en steps
    (d.sent = r.sent ∧ d.world.queue = r.world.queue ∧ d.world.pending = r.world.pending ∧
      d.world.posts = r.world.posts ∧
      Represents (homeOf r.sent) d.world.store r.world.store) ∧
    ∀ event env, ((r.step lang en (.send event env)).sent.map Message.key).Nodup →
      (Deployed.accept objectsCall lang en d.world event env).1 =
        (runSeq none (unfailing env) (lang.send en event) r.world).1 := by
  intro r d
  refine ⟨?_, ?_⟩
  · have h : RunStands (fun s c => Represents (homeOf r.sent) c s) (HomeIs (homeOf r.sent)) r d :=
      run_stands hsteps fun m hm => homeOf_eq hids hm
    exact ⟨h.sent, h.world.queue, h.world.pending, h.world.posts, h.world.store⟩
  · intro event env hmore
    have hhome : ∀ m ∈ (r.step lang en (.send event env)).sent,
        homeOf (r.step lang en (.send event env)).sent m.tenant m.messageId = m.endpointId :=
      fun m hm => homeOf_eq hmore hm
    have h := run_stands hsteps fun m hm => hhome m (List.mem_append_left _ hm)
    have hafter : NoLonger steps.length (accepted lang en r.world event env).store :=
      accepted_noLonger lang en (run_noLonger lang en steps) event env
    exact (send_alike (objects_serve _) h.world event env (numbered_of_noLonger hafter hsteps)
      fun m hm => hhome m (List.mem_append_right _ hm)).1

/-- An endpoint, an event, a failed attempt, the wake-up and the delivery, over the objects. -/
theorem oneDelivery_on_objects :
    (Run.start.arrangedRun .ts (plainEngine 5) oneDelivery).world.posts.length = 2 ∧
      ((Run.start.arrangedRun .ts (plainEngine 5) oneDelivery).sent.map Message.key).Nodup ∧
      (newObjects.run objectsCall .ts (plainEngine 5) oneDelivery).world.posts =
        (Run.start.arrangedRun .ts (plainEngine 5) oneDelivery).world.posts := by
  have hids : ((Run.start.arrangedRun .ts (plainEngine 5) oneDelivery).sent.map
      Message.key).Nodup := by decide +kernel
  refine ⟨by decide +kernel, hids, ?_⟩
  exact (objects_run_as_memory .ts (plainEngine 5) oneDelivery (by decide) hids).1.2.2.2.1

end Runs
end Anyhook.Cloudflare.Store
