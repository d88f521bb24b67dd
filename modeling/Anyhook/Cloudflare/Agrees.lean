import Anyhook.Cloudflare.Represents

/-! The calls that concern one object, or a message and its index entry: the two stores answer
alike and the objects go on representing the data. -/
namespace Anyhook.Cloudflare.Store
open Anyhook.Core Anyhook.Testing Anyhook.Lib.Program Anyhook.Lib.OrderedMap

section Agree
variable {home : String → String → String} {c : Cloud} {s : MemoryStateStore} {op : StoreOp}

/-- The two stores answer a call alike, and the objects go on representing the data. -/
structure Agrees (home : String → String → String) (c : Cloud) (s : MemoryStateStore)
    (op : StoreOp) : Prop where
  same : SameReply (SameRows s op) (s.perform op).1 ((DoStateStore.perform op).run cloudExec c).1
  holds : Holds ((DoStateStore.perform op).run cloudExec c).2 (contents home (s.perform op).2)

/-- Both return. -/
theorem agrees_of_ends {b : StoreRes op} (hb : (s.perform op).1 = .ok b)
    (hends : Prog.Ends cloudExec (DoStateStore.perform op)
      (fun a c' => SameRows s op b a ∧ Holds c' (contents home (s.perform op).2)) c) :
    Agrees home c s op := by
  obtain ⟨a, c', hrun, hsame, hholds⟩ := hends
  refine ⟨?_, ?_⟩
  · rw [hrun, hb]
    exact hsame
  · rw [hrun]
    exact hholds

/-- A read leaves both stores as they are. -/
theorem agrees_of_read (h : Represents home c s) {b : StoreRes op} (hb : s.perform op = (.ok b, s))
    (hread : Prog.Ends cloudExec (DoStateStore.perform op)
      (fun a c' => SameRows s op b a ∧ c' = c) c) : Agrees home c s op := by
  refine agrees_of_ends (by rw [hb]) (hread.mono ?_)
  intro a c' ⟨hsame, hc'⟩
  rw [hc', hb]
  exact ⟨hsame, h.holds⟩

/-- Both throw. -/
theorem agrees_of_error (h : Represents home c s) {e : String}
    (hb : s.perform op = (.error e, s))
    (hrun : (DoStateStore.perform op).run cloudExec c = (.error e, c)) : Agrees home c s op := by
  refine ⟨?_, ?_⟩
  · rw [hrun, hb]
    exact rfl
  · rw [hrun, hb]
    exact h.holds

/-- A single put. -/
theorem agrees_of_put (h : Represents home c s) {r : Slot} {v : Val} {b : StoreRes op}
    (hb : (s.perform op).1 = .ok b) (hsame : SameRows s op b b)
    (hprog : DoStateStore.perform op = (do storage (.put r.stub r.key v); return b))
    (hcontents : contents home (s.perform op).2 =
      Function.update (contents home s) r (some v)) : Agrees home c s op := by
  refine agrees_of_ends hb ?_
  rw [hprog, hcontents]
  refine (storagePut_ends h.holds r v).bind ?_
  intro _ c' hholds
  exact Prog.ends_pure ⟨hsame, hholds⟩

/-! ## The tenant's object -/

theorem recordEvent_agrees (h : Represents home c s) (t eventId idemKey : String) :
    Agrees home c s (.recordEvent t eventId idemKey) := by
  have hread : Prog.Ends cloudExec (storageGet Val.event? (tenantStub t) ("evt:" ++ idemKey))
      (fun existing c' => existing = (s.tenants t).events.get idemKey ∧ c' = c) c :=
    storageGet_stored h.holds (.event t idemKey) rfl (fun _ => rfl)
  cases hev : (s.tenants t).events.get idemKey with
  | none =>
    have hstore : s.recordEvent t eventId idemKey =
        ({ isNew := true, eventId := eventId, messageCount := 0 },
          s.finalizeEvent t idemKey eventId 0) := by
      unfold MemoryStateStore.recordEvent
      rw [hev]
      rfl
    refine agrees_of_ends (b := { isNew := true, eventId := eventId, messageCount := 0 }) ?_ ?_
    · show Except.ok (s.recordEvent t eventId idemKey).1 = _
      rw [hstore]
    · refine hread.bind ?_
      intro existing c' ⟨hex, hc'⟩
      rw [hev] at hex
      subst hex hc'
      refine (storagePut_ends h.holds (.event t idemKey)
        (.event { eventId := eventId, messageCount := 0 })).bind ?_
      intro _ c'' hholds
      refine Prog.ends_pure ⟨rfl, ?_⟩
      show Holds c'' (contents home (s.recordEvent t eventId idemKey).2)
      rw [hstore, contents_finalizeEvent]
      exact hholds
  | some rec =>
    have hstore : s.recordEvent t eventId idemKey =
        ({ isNew := false, eventId := rec.eventId, messageCount := rec.messageCount }, s) := by
      unfold MemoryStateStore.recordEvent
      rw [hev]
    refine agrees_of_read h (b := { isNew := false, eventId := rec.eventId
                                    messageCount := rec.messageCount }) ?_ ?_
    · show (Except.ok (s.recordEvent t eventId idemKey).1, _) = _
      rw [hstore]
    · refine hread.bind ?_
      intro existing c' ⟨hex, hc'⟩
      rw [hev] at hex
      subst hex
      exact Prog.ends_pure ⟨rfl, hc'⟩

theorem finalizeEvent_agrees (h : Represents home c s) (t idemKey eventId : String) (n : Nat) :
    Agrees home c s (.finalizeEvent t idemKey eventId n) :=
  agrees_of_put h (r := .event t idemKey) rfl rfl rfl
    (contents_finalizeEvent s t idemKey eventId n)

theorem createEndpoint_agrees (h : Represents home c s) (e : MemoryStateStore.CreateInput)
    (endpointId secret : String) (now : Time) :
    Agrees home c s (.createEndpoint e endpointId secret now) :=
  agrees_of_put h (r := .endpoint e.tenant endpointId) rfl rfl rfl
    (contents_putEndpoint s e.tenant (e.endpoint endpointId secret now) rfl)

theorem getEndpoint_ends (h : Represents home c s) (t endpointId : String) :
    Prog.Ends cloudExec (TenantIndexDurableObject.getEndpoint (tenantStub t) endpointId)
      (fun found c' => found = (s.tenants t).endpoints.get endpointId ∧ c' = c) c :=
  storageGet_stored h.holds (.endpoint t endpointId) rfl (fun _ => rfl)

theorem getEndpoint_agrees (h : Represents home c s) (t endpointId : String) :
    Agrees home c s (.getEndpoint t endpointId) := by
  refine agrees_of_read h rfl ((getEndpoint_ends h t endpointId).mono ?_)
  intro found c' ⟨hfound, hc'⟩
  exact ⟨hfound.symm, hc'⟩

/-- The methods that read an endpoint and put it back changed. -/
theorem changeEndpoint_agrees (h : Represents home c s) {t endpointId : String}
    (change : Endpoint → Endpoint) (result : Endpoint → StoreRes op)
    (hprog : DoStateStore.perform op = (do
      let existing ← TenantIndexDurableObject.getEndpoint (tenantStub t) endpointId
      match existing with
      | none => .throw ("endpoint not found: " ++ endpointId)
      | some e =>
        storage (.put (tenantStub t) ("ep:" ++ endpointId) (.endpoint (change e)))
        return result e))
    (hsame : ∀ a, SameRows s op a a)
    (hid : ∀ e, (s.tenants t).endpoints.get endpointId = some e →
      (change e).endpointId = endpointId)
    (hnone : (s.tenants t).endpoints.get endpointId = none →
      s.perform op = (.error ("endpoint not found: " ++ endpointId), s))
    (hsome : ∀ e (hget : (s.tenants t).endpoints.get endpointId = some e),
      s.perform op = (.ok (result e), s.modify t fun d =>
        { d with endpoints := d.endpoints.set endpointId (change e) (hid e hget) })) :
    Agrees home c s op := by
  obtain ⟨found, c', hrun, hfound, rfl⟩ := getEndpoint_ends h t endpointId
  cases hget : (s.tenants t).endpoints.get endpointId with
  | none =>
    refine agrees_of_error h (hnone hget) ?_
    rw [hprog, Prog.run_bind, hrun, hfound, hget]
    rfl
  | some e =>
    refine agrees_of_ends (b := result e) (by rw [hsome e hget]) ?_
    rw [hprog, hsome e hget]
    refine Prog.Ends.bind ⟨found, _, hrun, rfl, rfl⟩ (P := fun a d => a = found ∧ d = c') ?_
    intro a d ⟨ha, hd⟩
    rw [ha, hd, hfound, hget]
    refine (storagePut_ends h.holds (.endpoint t endpointId) (.endpoint (change e))).bind ?_
    intro _ c'' hholds
    refine Prog.ends_pure ⟨hsame _, ?_⟩
    rw [contents_putEndpoint]
    exact hholds

theorem updateEndpoint_agrees (h : Represents home c s) (t endpointId : String)
    (patch : MemoryStateStore.EndpointPatch) :
    Agrees home c s (.updateEndpoint t endpointId patch) := by
  refine changeEndpoint_agrees h patch.apply patch.apply rfl (fun _ => rfl)
    (fun e hget => patch.apply_key hget) ?_ ?_
  · intro hget
    show s.updateEndpoint t endpointId patch = _
    unfold MemoryStateStore.updateEndpoint
    split
    · rfl
    · rename_i e he
      rw [hget] at he
      cases he
  · intro e hget
    show s.updateEndpoint t endpointId patch = _
    unfold MemoryStateStore.updateEndpoint
    split
    · rename_i he
      rw [hget] at he
      cases he
    · rename_i e' he
      obtain rfl : e = e' := Option.some.inj (hget.symm.trans he)
      rfl

theorem rotateSecret_agrees (h : Represents home c s) (t endpointId secret : String) :
    Agrees home c s (.rotateSecret t endpointId secret) := by
  refine changeEndpoint_agrees h (MemoryStateStore.rotated · secret) (fun _ => secret) rfl
    (fun _ => rfl) (fun e hget => MemoryStateStore.rotated_key secret hget) ?_ ?_
  · intro hget
    show s.rotateSecret t endpointId secret = _
    unfold MemoryStateStore.rotateSecret
    split
    · rfl
    · rename_i e he
      rw [hget] at he
      cases he
  · intro e hget
    show s.rotateSecret t endpointId secret = _
    unfold MemoryStateStore.rotateSecret
    split
    · rename_i he
      rw [hget] at he
      cases he
    · rename_i e' he
      obtain rfl : e = e' := Option.some.inj (hget.symm.trans he)
      rfl

theorem deleteEndpoint_agrees (h : Represents home c s) (t endpointId : String) :
    Agrees home c s (.deleteEndpoint t endpointId) := by
  refine agrees_of_ends rfl ⟨(), _, rfl, rfl, ?_⟩
  show Holds _ (contents home (s.deleteEndpoint t endpointId))
  rw [contents_deleteEndpoint]
  exact h.holds.delete (.endpoint t endpointId)

theorem listEndpoints_ends (h : Represents home c s) (t : String) :
    Prog.Ends cloudExec (TenantIndexDurableObject.listEndpoints (tenantStub t))
      (fun all c' => all.Perm (s.tenants t).endpoints.values ∧ c' = c) c := by
  obtain ⟨hpick, hperm⟩ := h.endpoints t
  refine (storageList_ends hpick).mono ?_
  intro all c' ⟨hall, hc'⟩
  rw [hall]
  exact ⟨hperm, hc'⟩

theorem listEndpoints_agrees (h : Represents home c s) (t : String) :
    Agrees home c s (.listEndpoints t) := by
  refine agrees_of_read h rfl ((listEndpoints_ends h t).mono ?_)
  intro all c' ⟨hall, hc'⟩
  exact ⟨hall.symm, hc'⟩

theorem matchEndpoints_agrees (h : Represents home c s) (t eventType : String) :
    Agrees home c s (.matchEndpoints t eventType) := by
  refine agrees_of_read h rfl ((listEndpoints_ends h t).bind ?_)
  intro all c' ⟨hall, hc'⟩
  exact Prog.ends_pure ⟨(hall.filter _).symm, hc'⟩

/-! ## An endpoint's object -/

theorem putMessage_agrees (h : Represents home c s) (m : Message)
    (hhome : home m.tenant m.messageId = m.endpointId) : Agrees home c s (.putMessage m) := by
  refine agrees_of_ends rfl ?_
  refine (storagePut_ends h.holds (.message m.tenant m.endpointId m.messageId) (.message m)).bind ?_
  intro _ c' hholds
  refine (storagePut_ends hholds (.index m.tenant m.messageId) (.endpointId m.endpointId)).mono ?_
  intro _ c'' hholds'
  refine ⟨rfl, ?_⟩
  show Holds c'' (contents home (s.putMessage m))
  rw [contents_putMessage s m hhome]
  exact hholds'

theorem getMessage_agrees (h : Represents home c s) (t messageId : String)
    (hrouted : Routed s (.getMessage t messageId)) : Agrees home c s (.getMessage t messageId) := by
  refine agrees_of_read h rfl ?_
  refine (storageGet_stored h.holds (.index t messageId)
    (x := ((s.tenants t).messages.get messageId).map Message.endpointId) (g := Val.endpointId)
    ?_ (fun _ => rfl)).bind ?_
  · rw [Option.map_map]
    rfl
  · intro endpointId c' hread
    obtain ⟨hid, hc'⟩ := hread
    subst hc'
    cases hget : (s.tenants t).messages.get messageId with
    | none =>
      rw [hget] at hid
      subst hid
      exact Prog.ends_pure ⟨hget, rfl⟩
    | some m =>
      rw [hget] at hid
      subst hid
      have hne : m.endpointId ≠ "" := hrouted m hget
      dsimp only [Option.map_some]
      rw [if_neg hne]
      refine (storageGet_stored h.holds (.message t m.endpointId messageId)
        (x := some m) (g := Val.message) ?_ (fun _ => rfl)).mono ?_
      · have hhome := (h.kept.messages t _ (OMap.mem_of_get hget)).2
        simp only [contents, Slot.content, Slot.tenant, hget]
        rw [if_pos hhome]
      · intro found c'' hread
        obtain ⟨hfound, hc''⟩ := hread
        refine ⟨?_, hc''⟩
        rw [hfound]
        exact hget

/-- The attempt log of a message, read at its endpoint. -/
theorem attempts_ends (h : Represents home c s) {t endpointId messageId : String}
    (hhome : home t messageId = endpointId) :
    Prog.Ends cloudExec (EndpointDurableObject.attempts (endpointStub t endpointId) messageId)
      (fun log c' => log = s.attemptsOf t messageId ∧ c' = c) c := by
  refine (storageGet_stored h.holds (.attempts t endpointId messageId)
    (x := (s.tenants t).attempts.get messageId) (g := Val.attempts) ?_ (fun _ => rfl)).bind ?_
  · simp only [contents, Slot.content, Slot.tenant]
    rw [if_pos hhome]
  · intro log c' hread
    obtain ⟨hlog, hc'⟩ := hread
    refine Prog.ends_pure ⟨?_, hc'⟩
    rw [hlog]
    rfl

theorem appendAttempt_agrees (h : Represents home c s) (a : Attempt)
    (hhome : home a.tenant a.messageId = a.endpointId) : Agrees home c s (.appendAttempt a) := by
  refine agrees_of_ends rfl ?_
  refine (attempts_ends h hhome).bind ?_
  intro log c' ⟨hlog, hc'⟩
  subst hlog hc'
  refine (storagePut_ends h.holds (.attempts a.tenant a.endpointId a.messageId)
    (.attempts (s.attemptsOf a.tenant a.messageId ++ [a]))).mono ?_
  intro _ c'' hholds
  refine ⟨rfl, ?_⟩
  show Holds c'' (contents home (s.appendAttempt a))
  rw [contents_appendAttempt s a hhome]
  exact hholds

theorem getCircuit_agrees (h : Represents home c s) (t endpointId : String) :
    Agrees home c s (.getCircuit t endpointId) := by
  refine agrees_of_read h rfl ?_
  refine (storageGet_stored h.holds (.circuit t endpointId) (g := Val.circuit) rfl
    (fun _ => rfl)).bind ?_
  intro rec c' ⟨hrec, hc'⟩
  rw [hrec]
  exact Prog.ends_pure ⟨rfl, hc'⟩

theorem getRateBucket_agrees (h : Represents home c s) (t endpointId : String) :
    Agrees home c s (.getRateBucket t endpointId) := by
  refine agrees_of_read h rfl ?_
  refine (storageGet_stored h.holds (.rate t endpointId) (g := Val.rate) rfl
    (fun _ => rfl)).mono ?_
  intro bucket c' ⟨hbucket, hc'⟩
  exact ⟨hbucket.symm, hc'⟩

theorem putCircuit_agrees (h : Represents home c s) (t endpointId : String)
    (rec : CircuitRecord) : Agrees home c s (.putCircuit t endpointId rec) :=
  agrees_of_put h (r := .circuit t endpointId) rfl rfl rfl (contents_putCircuit s t endpointId rec)

theorem putRateBucket_agrees (h : Represents home c s) (t endpointId : String)
    (bucket : RateBucket) : Agrees home c s (.putRateBucket t endpointId bucket) :=
  agrees_of_put h (r := .rate t endpointId) rfl rfl rfl
    (contents_putRateBucket s t endpointId bucket)

theorem addToDlq_agrees (h : Represents home c s) (m : Message) (reason : DlqReason)
    (hrouted : Routed s (.addToDlq m reason)) : Agrees home c s (.addToDlq m reason) := by
  have hlen : (dlqOf (s.tenants m.tenant) m.endpointId).length < 2 ^ 53 := hrouted
  refine agrees_of_ends rfl ?_
  refine (storageGet_stored h.holds (.deadSeq m.tenant m.endpointId) (g := Val.seq)
    (x := if (dlqOf (s.tenants m.tenant) m.endpointId).length = 0 then none
      else some (dlqOf (s.tenants m.tenant) m.endpointId).length) ?_ (fun _ => rfl)).bind ?_
  · show counted (dlqOf (s.tenants m.tenant) m.endpointId).length = _
    unfold counted
    split <;> rfl
  · intro last c' ⟨hlast, hc'⟩
    subst hc'
    have hseq : increment (last.getD 0) =
        (dlqOf (s.tenants m.tenant) m.endpointId).length + 1 := by
      have hvalue : last.getD 0 = (dlqOf (s.tenants m.tenant) m.endpointId).length := by
        rw [hlast]
        split
        · rename_i hzero
          exact hzero.symm
        · rfl
      rw [hvalue, increment, if_pos hlen]
    rw [hseq]
    refine (storagePut_ends h.holds (.deadSeq m.tenant m.endpointId)
      (.seq ((dlqOf (s.tenants m.tenant) m.endpointId).length + 1))).bind ?_
    intro _ c'' hholds
    refine (storagePut_ends hholds (.dead m.tenant m.endpointId
      ((dlqOf (s.tenants m.tenant) m.endpointId).length + 1) m.messageId)
      (.dead { message := m, reason := reason })).mono ?_
    intro _ c''' hholds'
    refine ⟨rfl, ?_⟩
    show Holds c''' (contents home (s.addToDlq m reason))
    rw [contents_addToDlq]
    exact hholds'

end Agree
end Anyhook.Cloudflare.Store
