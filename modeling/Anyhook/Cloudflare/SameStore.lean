import Anyhook.Cloudflare.Agrees

/-! DoStateStore against the in-memory store. A listing over the whole tenant asks the
objects of the endpoints that exist and merges their answers; with it, all nineteen calls
are answered alike, over any run. -/
namespace Anyhook.Cloudflare.Store
open Anyhook.Core Anyhook.Testing Anyhook.Lib Anyhook.Lib.Program Anyhook.Lib.OrderedMap
open Anyhook.Lib.Sorted Anyhook.Lib.Scan Anyhook.Lib.Padded Anyhook.Lib.Run

section Listings
variable {home : String → String → String} {c : Cloud} {s : MemoryStateStore} {op : StoreOp}

/-! ## Listings of one object -/

theorem attachAttempts_ends {o : Stub} {F : Message → List Attempt} {rows : List Message}
    (hlog : ∀ m ∈ rows, Prog.Ends cloudExec (EndpointDurableObject.attempts o m.messageId)
      (fun log c' => log = F m ∧ c' = c) c) :
    Prog.Ends cloudExec (EndpointDurableObject.attachAttempts o rows)
      (fun out c' => out = rows.map (fun m => (m, F m)) ∧ c' = c) c := by
  induction rows with
  | nil => exact Prog.ends_pure ⟨rfl, rfl⟩
  | cons m rows ih =>
    refine (hlog m List.mem_cons_self).bind ?_
    intro log c' ⟨hlog', hc'⟩
    subst hlog' hc'
    refine (ih fun m hm => hlog m (List.mem_cons_of_mem _ hm)).bind ?_
    intro out c'' ⟨hout, hc''⟩
    rw [hout]
    exact Prog.ends_pure ⟨rfl, hc''⟩

/-- The rows one endpoint's object answers a query with. -/
def answered (c : Cloud) (q : DeliveryQuery) (endpointId : String) :
    List Message :=
  q.newest Message.createdAt
    ((c.values Val.message? (endpointStub q.tenant endpointId) .message).filter q.passes)

/-- An object whose messages and attempt logs can be read answers with its newest rows. -/
theorem listDeliveries_answered {q : DeliveryQuery} {endpointId : String}
    {F : Message → List Attempt}
    (hpick : ∀ p ∈ c.list (endpointStub q.tenant endpointId) Family.message.tag,
      ∃ m, Val.message? p.2 = some m)
    (hlog : ∀ m ∈ c.values Val.message? (endpointStub q.tenant endpointId) .message,
      Prog.Ends cloudExec
        (EndpointDurableObject.attempts (endpointStub q.tenant endpointId) m.messageId)
        (fun log c' => log = F m ∧ c' = c) c) :
    Prog.Ends cloudExec
      (EndpointDurableObject.listDeliveries (endpointStub q.tenant endpointId) q)
      (fun out c' => out = (answered c q endpointId).map (fun m => (m, F m)) ∧ c' = c) c := by
  refine (storageList_ends hpick).bind ?_
  intro rows c' ⟨hrows, hc'⟩
  subst hrows hc'
  refine attachAttempts_ends fun m hm => hlog m ?_
  have hmem := List.mem_of_mem_take hm
  rw [List.mem_insertionSort] at hmem
  exact List.mem_of_mem_filter hmem

theorem listDeliveries_ends (h : Represents home c s) (q : DeliveryQuery) (endpointId : String) :
    Prog.Ends cloudExec
      (EndpointDurableObject.listDeliveries (endpointStub q.tenant endpointId) q)
      (fun out c' => out = (answered c q endpointId).map
        (fun m => (m, s.attemptsOf q.tenant m.messageId)) ∧ c' = c) c := by
  obtain ⟨hpick, hperm⟩ := h.messages q.tenant endpointId
  refine listDeliveries_answered hpick ?_
  intro m hm
  obtain ⟨hvalue, hep⟩ := List.mem_filter.mp (hperm.subset hm)
  obtain ⟨p, hp, rfl⟩ := List.mem_map.mp hvalue
  obtain ⟨hkey, hhome⟩ := h.kept.messages q.tenant p hp
  refine attempts_ends h ?_
  rw [hkey, hhome, of_decide_eq_true hep]

theorem fanOut_ends {α : Type} {read : Stub → Cf (List α)} {t : String} {F : String → List α}
    (hread : ∀ endpointId, Prog.Ends cloudExec (read (endpointStub t endpointId))
      (fun rows c' => rows = F endpointId ∧ c' = c) c) (endpoints : List Endpoint) :
    Prog.Ends cloudExec (DoStateStore.fanOut read t endpoints)
      (fun rows c' => rows = (endpoints.flatMap fun e => F e.endpointId) ∧ c' = c) c := by
  induction endpoints with
  | nil => exact Prog.ends_pure ⟨rfl, rfl⟩
  | cons e endpoints ih =>
    refine (hread e.endpointId).bind ?_
    intro rows c' ⟨hrows, hc'⟩
    subst hrows hc'
    refine ih.bind ?_
    intro more c'' ⟨hmore, hc''⟩
    rw [hmore]
    exact Prog.ends_pure ⟨rfl, hc''⟩

theorem known_iff (d : TenantData) {endpoints : List Endpoint}
    (h : endpoints.Perm d.endpoints.values) (endpointId : String) :
    known d endpointId = true ↔ endpointId ∈ endpoints.map Endpoint.endpointId := by
  rw [(h.map _).mem_iff, known, Option.isSome_iff_exists]
  constructor
  · intro ⟨e, he⟩
    have hmem : e ∈ d.endpoints.values := List.mem_map.mpr ⟨_, OMap.mem_of_get he, rfl⟩
    exact List.mem_map.mpr ⟨e, hmem, KMap.key_of_get he⟩
  · intro hid
    obtain ⟨e, he, rfl⟩ := List.mem_map.mp hid
    obtain ⟨p, hp, rfl⟩ := List.mem_map.mp he
    refine ⟨p.2, ?_⟩
    rw [d.endpoints.keyed p hp]
    exact OMap.get_of_mem hp

/-- Of a list cut by endpoints, what belongs to none that exists. -/
theorem perm_visible (d : TenantData) {endpoints : List Endpoint}
    (h : endpoints.Perm d.endpoints.values) {α : Type} (f : α → String) (l : List α) :
    ((endpoints.flatMap fun e => l.filter fun a => f a = e.endpointId) ++
      l.filter fun a => !known d (f a)).Perm l := by
  have hnodup : (endpoints.map Endpoint.endpointId).Nodup :=
    (h.map _).nodup_iff.mpr d.endpoints.nodup_keys
  have hparts := perm_parts f hnodup l
  rw [List.flatMap_map] at hparts
  refine (List.Perm.of_eq ?_).trans hparts
  congr 1
  refine List.filter_congr ?_
  intro a _
  cases hk : known d (f a) with
  | true =>
    have hmem := (known_iff d h (f a)).mp hk
    simp [hmem]
  | false =>
    have hmem : f a ∉ endpoints.map Endpoint.endpointId := by
      intro hmem
      rw [(known_iff d h (f a)).mpr hmem] at hk
      cases hk
    simp [hmem]

theorem kept_eq (q : DeliveryQuery) {n N : Nat} (hn : n ≤ N)
    (hlimit : q.limit.all (fun limit => -1 < limit) = true ∨ q.kept N = 0) :
    min (q.kept n) n = min (q.kept N) n := by
  unfold DeliveryQuery.kept at hlimit ⊢
  cases hq : q.limit with
  | none =>
    dsimp only
    omega
  | some limit =>
    rw [hq] at hlimit
    dsimp only at hlimit ⊢
    generalize hstop : (if 0 ≤ limit then ⌊limit⌋ else ⌈limit⌉) = stop at hlimit ⊢
    by_cases hpos : 0 ≤ stop
    · rw [if_pos hpos, if_pos hpos]
    · rw [if_neg hpos, if_neg hpos]
      rw [if_neg hpos] at hlimit
      obtain hlimit | hzero := hlimit
      · exfalso
        have hgt : -1 < limit := by simpa using hlimit
        apply hpos
        rw [← hstop]
        split
        · rename_i h0
          exact Int.floor_nonneg.mpr h0
        · have : (-1 : ℤ) < ⌈limit⌉ := Int.lt_ceil.mpr (by simpa using hgt)
          omega
      · omega

/-- A listing that is no longer than the one the limit was counted for. -/
theorem newest_eq (q : DeliveryQuery) {α : Type} (createdAt : α → Time) {rows : List α} {N : Nat}
    (hn : rows.length ≤ N)
    (hlimit : q.limit.all (fun limit => -1 < limit) = true ∨ q.kept N = 0) :
    q.newest createdAt rows =
      (rows.insertionSort fun a b => createdAt b ≤ createdAt a).take (q.kept N) := by
  unfold DeliveryQuery.newest
  rw [List.take_eq_take_iff, List.length_insertionSort]
  exact kept_eq q hn hlimit

theorem newest_map (q : DeliveryQuery) {α β : Type} (f : α → β) (createdAt : β → Time)
    (rows : List α) :
    q.newest createdAt (rows.map f) = (q.newest (fun a => createdAt (f a)) rows).map f := by
  unfold DeliveryQuery.newest
  have hsort := List.map_insertionSort (fun a b => createdAt (f b) ≤ createdAt (f a))
    (fun a b => createdAt b ≤ createdAt a) f rows fun _ _ _ _ => Iff.rfl
  rw [← hsort, List.length_map, List.map_take]

/-- Merging what the objects of existing endpoints answer. -/
theorem newest_merged (s : MemoryStateStore) (q : DeliveryQuery)
    (hrouted : Routed s (.listDeliveries q)) (hwide : tenantWide q.endpointId = true)
    {endpoints : List Endpoint} (hall : endpoints.Perm (s.tenants q.tenant).endpoints.values)
    {R : Endpoint → List Message}
    (hR : ∀ e, (R e).Perm ((s.matching q).filter fun m => m.endpointId = e.endpointId)) :
    SameAnswer s (.listDeliveries q) (s.listDeliveries q)
      ((q.newest Message.createdAt (endpoints.flatMap fun e => q.newest Message.createdAt (R e))).map
        fun m => (m, s.attemptsOf q.tenant m.messageId)) := by
  obtain ⟨hlimit, hhidden⟩ := hrouted hwide
  have hcut := perm_visible (s.tenants q.tenant) hall Message.endpointId (s.matching q)
  have hparts : ((endpoints.map R).flatten).Perm (endpoints.flatMap fun e =>
      (s.matching q).filter fun m => m.endpointId = e.endpointId) := by
    rw [← List.flatMap_def]
    exact List.Perm.flatMap_left _ fun e _ => hR e
  have hlen : ∀ e, (R e).length ≤ (s.matching q).length := by
    intro e
    rw [(hR e).length_eq]
    exact List.length_filter_le _ _
  have hpool : (endpoints.flatMap fun e => q.newest Message.createdAt (R e)) =
      (endpoints.map R).flatMap fun l => (l.insertionSort fun a b =>
        b.createdAt ≤ a.createdAt).take (q.kept (s.matching q).length) := by
    rw [List.flatMap_map]
    exact List.flatMap_congr fun e _ => newest_eq q Message.createdAt (hlen e) hlimit
  have hover : ∀ m ∈ (s.matching q).filter fun m => !known (s.tenants q.tenant) m.endpointId,
      q.kept (s.matching q).length ≤ ((endpoints.map R).flatten).countP
        fun m' => decide (m.createdAt ≤ m'.createdAt) := by
    intro m hm
    obtain ⟨hmatch, hgone⟩ := List.mem_filter.mp hm
    refine (hhidden m hmatch (by simpa using hgone)).trans ?_
    rw [hparts.countP_eq, ahead, ← List.countP_eq_length_filter, ← hcut.countP_eq,
      List.countP_append]
    have hnone : ((s.matching q).filter fun m => !known (s.tenants q.tenant) m.endpointId).countP
        (fun m' => known (s.tenants q.tenant) m'.endpointId &&
          decide (m.createdAt ≤ m'.createdAt)) = 0 := by
      rw [List.countP_eq_zero]
      intro m' hm' hk
      have hgone' := (List.mem_filter.mp hm').2
      simp only [Bool.and_eq_true] at hk
      rw [hk.1] at hgone'
      cases hgone'
    rw [hnone, Nat.add_zero]
    refine List.countP_mono_left ?_
    intro m' _ hk
    exact (Bool.and_eq_true _ _ ▸ hk).2
  have hperm : ((endpoints.map R).flatten ++
      (s.matching q).filter fun m => !known (s.tenants q.tenant) m.endpointId).Perm
        (s.matching q) := (hparts.append_right _).trans hcut
  have hcount := hperm.length_eq
  rw [List.length_append] at hcount
  have hpoollen : (endpoints.flatMap fun e => q.newest Message.createdAt (R e)).length ≤
      (s.matching q).length := by
    rw [hpool]
    exact (length_parts_le _ _).trans (by omega)
  rw [newest_eq q Message.createdAt hpoollen hlimit, hpool]
  refine s.sameAnswer_of_top q ?_ ?_
  · rw [length_merge]
    cases hgone : (s.matching q).filter fun m => !known (s.tenants q.tenant) m.endpointId with
    | nil =>
      rw [hgone] at hcount
      simp only [List.length_nil] at hcount
      omega
    | cons m gone =>
      have hm := hover m (by rw [hgone]; exact List.mem_cons_self)
      have hle := hm.trans List.countP_le_length
      omega
  · refine ((top_merge (endpoints.map R) _).append ?_).perm hperm
    intro m hm
    exact (List.length_take_le _ _).trans (hover m hm)

theorem matching_filter (s : MemoryStateStore) (q : DeliveryQuery)
    (hwide : tenantWide q.endpointId = true) (endpointId : String) :
    (s.matching q).filter (fun m => m.endpointId = endpointId) =
      ((s.tenants q.tenant).messages.values.filter fun m => m.endpointId = endpointId).filter
        q.passes := by
  have hall : ∀ m, q.ofEndpoint m = true := by
    intro m
    unfold DeliveryQuery.ofEndpoint
    cases hq : q.endpointId with
    | none => rfl
    | some id =>
      have hid : id = "" := by simpa [tenantWide, hq] using hwide
      simp [hid]
  unfold MemoryStateStore.matching
  rw [List.filter_filter, List.filter_filter]
  refine List.filter_congr ?_
  intro m _
  rw [hall m, Bool.true_and, Bool.and_comm]

theorem listDeliveries_agrees (h : Represents home c s) (q : DeliveryQuery)
    (hrouted : Routed s (.listDeliveries q)) : Agrees home c s (.listDeliveries q) := by
  refine agrees_of_read h rfl ?_
  show Prog.Ends cloudExec (DoStateStore.listDeliveries q) _ c
  unfold DoStateStore.listDeliveries
  by_cases hid : q.endpointId.getD "" = ""
  · have hwide : tenantWide q.endpointId = true := decide_eq_true hid
    rw [if_neg (not_not.mpr hid)]
    refine (listEndpoints_ends h q.tenant).bind ?_
    intro endpoints c' ⟨hall, hc'⟩
    subst hc'
    refine (fanOut_ends (listDeliveries_ends h q) endpoints).bind ?_
    intro rows c'' ⟨hrows, hc''⟩
    refine Prog.ends_pure ⟨?_, hc''⟩
    rw [hrows, ← List.map_flatMap, newest_map]
    refine newest_merged s q hrouted hwide hall ?_
    intro e
    rw [matching_filter s q hwide]
    exact ((h.messages q.tenant e.endpointId).2).filter _
  · rw [if_pos hid]
    obtain ⟨id, hq⟩ : ∃ id, q.endpointId = some id := by
      cases hq : q.endpointId with
      | none =>
        rw [hq] at hid
        exact absurd rfl hid
      | some id => exact ⟨id, rfl⟩
    have hne : id ≠ "" := by simpa [hq] using hid
    rw [hq, Option.getD_some]
    refine (listDeliveries_ends h q id).mono ?_
    intro out c' ⟨hout, hc'⟩
    refine ⟨?_, hc'⟩
    rw [hout]
    refine s.sameAnswer_newest q ?_
    refine ((h.messages q.tenant id).2.filter _).trans (List.Perm.of_eq ?_)
    unfold MemoryStateStore.matching
    rw [List.filter_filter]
    refine List.filter_congr ?_
    intro m _
    simp [DeliveryQuery.ofEndpoint, hq, hne, Bool.and_comm]

theorem listDlq_ends (h : Represents home c s) (t endpointId : String) :
    Prog.Ends cloudExec (EndpointDurableObject.listDlq (endpointStub t endpointId) none)
      (fun rows c' => rows = dlqOf (s.tenants t) endpointId ∧ c' = c) c := by
  obtain ⟨hpick, hrows⟩ := h.dead t endpointId
  refine (storageList_ends hpick).bind ?_
  intro rows c' ⟨hr, hc'⟩
  refine Prog.ends_pure ⟨?_, hc'⟩
  rw [hr, hrows]
  exact List.filter_eq_self.mpr fun _ _ => rfl

theorem listDlq_agrees (h : Represents home c s) (t : String) (endpointId : Option String)
    (hrouted : Routed s (.listDlq t endpointId)) : Agrees home c s (.listDlq t endpointId) := by
  refine agrees_of_read h rfl ?_
  show Prog.Ends cloudExec (DoStateStore.listDlq t endpointId) _ c
  unfold DoStateStore.listDlq
  by_cases hid : endpointId.getD "" = ""
  · have hwide : tenantWide endpointId = true := decide_eq_true hid
    have hstore : s.listDlq t endpointId = (s.tenants t).dlq := by
      unfold MemoryStateStore.listDlq
      cases endpointId with
      | none => rfl
      | some id =>
        dsimp only
        rw [if_pos (show id = "" from hid)]
    rw [if_neg (not_not.mpr hid)]
    refine (listEndpoints_ends h t).bind ?_
    intro endpoints c' ⟨hall, hc'⟩
    subst hc'
    refine (fanOut_ends (listDlq_ends h t) endpoints).mono ?_
    intro rows c'' ⟨hrows, hc''⟩
    refine ⟨?_, hc''⟩
    have hcut := perm_visible (s.tenants t) hall (fun row : DlqRow => row.message.endpointId)
      (s.tenants t).dlq
    have hgone : ((s.tenants t).dlq.filter fun row =>
        !known (s.tenants t) row.message.endpointId) = [] := by
      rw [List.filter_eq_nil_iff]
      intro row hrow
      simp [hrouted hwide row hrow]
    rw [hgone, List.append_nil] at hcut
    show if tenantWide endpointId then (s.listDlq t endpointId).Perm rows else _ = rows
    rw [if_pos hwide, hrows, hstore]
    exact hcut.symm
  · rw [if_pos hid]
    obtain ⟨id, rfl⟩ : ∃ id, endpointId = some id := by
      cases endpointId with
      | none => exact absurd rfl hid
      | some id => exact ⟨id, rfl⟩
    refine (listDlq_ends h t id).mono ?_
    intro rows c' ⟨hrows, hc'⟩
    refine ⟨?_, hc'⟩
    have hnarrow : ¬ tenantWide (some id) = true := fun hwide => hid (of_decide_eq_true hwide)
    show if tenantWide (some id) then (s.listDlq t (some id)).Perm rows else _ = rows
    rw [if_neg hnarrow, hrows]
    unfold MemoryStateStore.listDlq
    dsimp only
    rw [if_neg (show ¬ id = "" from hid)]
    rfl

/-! ## Every call -/

theorem perform_agrees (h : Represents home c s) (hop : AtHome home op) (hrouted : Routed s op) :
    Agrees home c s op := by
  cases op with
  | recordEvent t eventId idemKey => exact recordEvent_agrees h t eventId idemKey
  | finalizeEvent t idemKey eventId n => exact finalizeEvent_agrees h t idemKey eventId n
  | createEndpoint e endpointId secret now => exact createEndpoint_agrees h e endpointId secret now
  | getEndpoint t id => exact getEndpoint_agrees h t id
  | listEndpoints t => exact listEndpoints_agrees h t
  | matchEndpoints t type => exact matchEndpoints_agrees h t type
  | updateEndpoint t id patch => exact updateEndpoint_agrees h t id patch
  | rotateSecret t id secret => exact rotateSecret_agrees h t id secret
  | deleteEndpoint t id => exact deleteEndpoint_agrees h t id
  | putMessage m => exact putMessage_agrees h m hop
  | getMessage t id => exact getMessage_agrees h t id hrouted
  | appendAttempt a => exact appendAttempt_agrees h a hop
  | listDeliveries q => exact listDeliveries_agrees h q hrouted
  | getCircuit t id => exact getCircuit_agrees h t id
  | putCircuit t id rec => exact putCircuit_agrees h t id rec
  | getRateBucket t id => exact getRateBucket_agrees h t id
  | putRateBucket t id bucket => exact putRateBucket_agrees h t id bucket
  | addToDlq m reason => exact addToDlq_agrees h m reason hrouted
  | listDlq t endpointId => exact listDlq_agrees h t endpointId hrouted

end Listings

/-! ## Whole runs -/

theorem represents_begin (home : String → String → String) :
    Represents home Twin.begin.cloud Twin.begin.memory where
  holds := by
    have hnone : contents home .empty = fun _ => none := by
      funext r
      cases r with
      | message t ep id => exact ite_self _
      | attempts t ep id => exact ite_self _
      | dead t ep seq id => cases seq <;> rfl
      | _ => rfl
    show Holds .empty (contents home .empty)
    rw [hnone]
    exact holds_empty
  kept := by
    refine ⟨?_, ?_⟩
    · intro t p hp
      cases hp
    · intro t endpointId
      exact Nat.zero_le _

/-- **The two stores answer every sequence of calls alike**, as long as each call finds what
it is about by way of the existing endpoints. -/
theorem objects_answer_as_memory (home : String → String → String) (calls : List StoreOp)
    (hhome : ∀ op ∈ calls, AtHome home op)
    (hrouted : Along Twin.step (fun w op => Routed w.memory op) Twin.begin calls) :
    Along Twin.step (fun w op => SameReply (SameRows w.memory op) (w.memory.perform op).1
      (w.reply op).1) Twin.begin calls := by
  suffices hfrom : ∀ (calls : List StoreOp) (w : Twin), Represents home w.cloud w.memory →
      (∀ op ∈ calls, AtHome home op) →
      Along Twin.step (fun w op => Routed w.memory op) w calls →
      Along Twin.step (fun w op => SameReply (SameRows w.memory op) (w.memory.perform op).1
        (w.reply op).1) w calls by
    exact hfrom calls Twin.begin (represents_begin home) hhome hrouted
  intro calls
  induction calls with
  | nil => intros; trivial
  | cons op calls ih =>
    intro w h hhome ⟨hop, hrest⟩
    have hat := hhome op List.mem_cons_self
    have hagrees := perform_agrees h hat hop
    exact ⟨hagrees.same, ih (w.step op) ⟨hagrees.holds, h.kept.perform hat hop⟩
      (fun op hop => hhome op (List.mem_cons_of_mem _ hop)) hrest⟩

/-! ## An endpoint deleted before its messages are listed -/

def orphan : Message where
  messageId := "msg_1"
  tenant := "acme"
  endpointId := "ep_1"
  eventId := "evt_1"
  eventType := "order.created"
  payload := "1"
  attemptNo := 0
  status := .dead
  nextAttemptAt := none
  createdAt := 0

def subscriber : MemoryStateStore.CreateInput where
  tenant := "acme"
  url := "https://example.com/hook"
  eventTypes := ["*"]
  description := none
  rateLimit := none

def allDeliveries : DeliveryQuery where
  tenant := "acme"
  endpointId := none
  eventType := none
  status := none
  before := none
  after := none
  limit := none

/-- A dead message of an endpoint. -/
def deadCalls : List StoreOp :=
  [.createEndpoint subscriber "ep_1" "whsec_AA==" 0, .putMessage orphan,
    .addToDlq orphan .exhaustedRetries]

/-- The same, and the endpoint is deleted. -/
def orphanCalls : List StoreOp := deadCalls ++ [.deleteEndpoint "acme" "ep_1"]

/-- The in-memory store still lists the message and its DLQ row, the objects do not. -/
theorem orphans_not_listed :
    (∀ op ∈ orphanCalls ++ [.listDeliveries allDeliveries, .listDlq "acme" none],
      AtHome (fun _ _ => "ep_1") op) ∧
    ¬ Along Twin.step (fun w op => SameReply (SameRows w.memory op) (w.memory.perform op).1
      (w.reply op).1) Twin.begin (orphanCalls ++ [.listDeliveries allDeliveries]) ∧
    ¬ Along Twin.step (fun w op => SameReply (SameRows w.memory op) (w.memory.perform op).1
      (w.reply op).1) Twin.begin (orphanCalls ++ [.listDlq "acme" none]) := by
  refine ⟨?_, ?_, ?_⟩
  · intro op hop
    simp only [orphanCalls, deadCalls, List.cons_append, List.nil_append, List.mem_cons,
      List.not_mem_nil, or_false] at hop
    obtain rfl | rfl | rfl | rfl | rfl | rfl := hop <;> first | rfl | trivial
  · intro h
    have hmemory : (((orphanCalls.foldl Twin.step Twin.begin).memory.perform
        (.listDeliveries allDeliveries)).1).toOption = some [(orphan, [])] := by decide +kernel
    have hcloud : (((orphanCalls.foldl Twin.step Twin.begin).reply
        (.listDeliveries allDeliveries)).1).toOption = some [] := by decide +kernel
    have hsame := SameReply.of_ok h.after hmemory hcloud
    exact absurd hsame.1 (by decide)
  · intro h
    have hmemory : (((orphanCalls.foldl Twin.step Twin.begin).memory.perform
        (.listDlq "acme" none)).1).toOption =
          some [{ message := orphan, reason := .exhaustedRetries }] := by decide +kernel
    have hcloud : (((orphanCalls.foldl Twin.step Twin.begin).reply
        (.listDlq "acme" none)).1).toOption = some [] := by decide +kernel
    have hsame := SameReply.of_ok h.after hmemory hcloud
    exact absurd (List.Perm.length_eq hsame) (by decide)

/-- Listed before the endpoint is deleted, both are there. -/
theorem dead_listed_alike :
    Along Twin.step (fun w op => SameReply (SameRows w.memory op) (w.memory.perform op).1
      (w.reply op).1) Twin.begin
        (deadCalls ++ [.getMessage "acme" "msg_1", .listDeliveries allDeliveries,
          .listDlq "acme" none]) := by
  refine objects_answer_as_memory (fun _ _ => "ep_1") _ ?_ ?_
  · intro op hop
    simp only [deadCalls, List.cons_append, List.nil_append, List.mem_cons, List.not_mem_nil,
      or_false] at hop
    obtain rfl | rfl | rfl | rfl | rfl | rfl := hop <;> first | rfl | trivial
  · refine ⟨trivial, trivial, ?_, ?_, ?_, ?_, trivial⟩
    · show (dlqOf _ _).length < 2 ^ 53
      decide +kernel
    · intro m hget
      have hstored : (((deadCalls.foldl Twin.step Twin.begin).memory.tenants "acme").messages.get
          "msg_1") = some orphan := by decide +kernel
      obtain rfl : orphan = m := Option.some.inj (hstored.symm.trans hget)
      decide
    · intro _
      have hknown : ((deadCalls.foldl Twin.step Twin.begin).memory.matching allDeliveries).all
          (fun m => known ((deadCalls.foldl Twin.step Twin.begin).memory.tenants "acme")
            m.endpointId) = true := by decide +kernel
      refine ⟨Or.inl rfl, ?_⟩
      intro m hm hgone
      have hm' := List.all_eq_true.mp hknown m hm
      exact absurd (hm'.symm.trans hgone) (by decide)
    · intro _ row hrow
      have hknown : ((deadCalls.foldl Twin.step Twin.begin).memory.tenants "acme").dlq.all
          (fun row => known ((deadCalls.foldl Twin.step Twin.begin).memory.tenants "acme")
            row.message.endpointId) = true := by decide +kernel
      exact List.all_eq_true.mp hknown row hrow

end Anyhook.Cloudflare.Store
