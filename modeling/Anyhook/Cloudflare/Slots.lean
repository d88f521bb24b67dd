import Anyhook.Lib.Joined
import Anyhook.Lib.Scan
import Anyhook.Cloudflare.StateDo

/-! Where the objects keep what. A `Slot` names a stored value by what it stands for: no two
of them share an object and a key. `contents` spreads the data of the in-memory store out
over the slots, given which endpoint each message belongs to. -/
namespace Anyhook.Cloudflare.Store
open Anyhook.Core Anyhook.Testing Anyhook.Lib Anyhook.Lib.OrderedMap Anyhook.Lib.Padded
open Anyhook.Lib.Scan Anyhook.Lib.Joined

/-! ## Names -/

theorem toString_no_colon (n : Nat) : ':' ∉ (toString n).toList := by
  intro hc
  rw [Nat.toString_eq_ofList_toDigits, String.toList_ofList] at hc
  exact absurd (Nat.isDigit_of_mem_toDigits (by decide) (by decide) hc) (by decide)

theorem toString_injective {n m : Nat} (h : toString n = toString m) : n = m := by
  have hread := congrArg (fun s : String => Nat.ofDigitChars 10 s.toList 0) h
  simpa using hread

theorem endpointDoName_toList (tenant endpointId : String) :
    (endpointDoName tenant endpointId).toList = (toString (jsLength tenant)).toList ++
      ':' :: (tenant.toList ++ ':' :: endpointId.toList) := by
  simp [endpointDoName, String.toList_append]

/-- The length in front says where the tenant ends, whatever it contains. -/
theorem endpointDoName_injective {tenant tenant' endpointId endpointId' : String}
    (h : endpointDoName tenant endpointId = endpointDoName tenant' endpointId') :
    tenant = tenant' ∧ endpointId = endpointId' := by
  have hl := congrArg String.toList h
  rw [endpointDoName_toList, endpointDoName_toList] at hl
  obtain ⟨hdigits, hrest⟩ := cut_first (toString_no_colon _) (toString_no_colon _) hl
  have hlen : jsLength tenant = jsLength tenant' :=
    toString_injective (String.toList_injective hdigits)
  obtain ⟨htenant, hid⟩ := append_inj_of_sum (fun c => by split <;> omega) hrest hlen
  exact ⟨String.toList_injective htenant, String.toList_injective (List.cons.inj hid).2⟩

/-! ## Slots -/

/-- The families of keys. -/
inductive Family where
  | endpoint | event | index | message | attempts | circuit | rate | dead | deadSeq
  deriving DecidableEq

namespace Family

def tag : Family → String
  | .endpoint => "ep:"
  | .event => "evt:"
  | .index => "msgidx:"
  | .message => "msg:"
  | .attempts => "att:"
  | .circuit => "circuit"
  | .rate => "rate"
  | .dead => "dlq:"
  | .deadSeq => "dlqSeq"

/-- No tag begins another, dlq: and dlqSeq, msg: and msgidx: included. -/
theorem tag_eq_of_prefix (f f' : Family) (h : f.tag.toList <+: f'.tag.toList) :
    f.tag.toList = f'.tag.toList := by
  revert h
  cases f <;> cases f' <;> decide

theorem tag_inj (f f' : Family) (h : f.tag.toList = f'.tag.toList) : f = f' := by
  revert h
  cases f <;> cases f' <;> decide

end Family

inductive Slot where
  | endpoint (tenant endpointId : String)
  | event (tenant idemKey : String)
  | index (tenant messageId : String)
  | message (tenant endpointId messageId : String)
  | attempts (tenant endpointId messageId : String)
  | circuit (tenant endpointId : String)
  | rate (tenant endpointId : String)
  | dead (tenant endpointId : String) (seq : Nat) (messageId : String)
  | deadSeq (tenant endpointId : String)
  deriving DecidableEq

namespace Slot

def tenant : Slot → String
  | .endpoint t _ | .event t _ | .index t _ | .message t _ _ | .attempts t _ _ | .circuit t _
  | .rate t _ | .dead t _ _ _ | .deadSeq t _ => t

def stub : Slot → Stub
  | .endpoint t _ | .event t _ | .index t _ => tenantStub t
  | .message t ep _ | .attempts t ep _ | .circuit t ep | .rate t ep | .dead t ep _ _
  | .deadSeq t ep => endpointStub t ep

def key : Slot → String
  | .endpoint _ id => "ep:" ++ id
  | .event _ idemKey => "evt:" ++ idemKey
  | .index _ id => "msgidx:" ++ id
  | .message _ _ id => "msg:" ++ id
  | .attempts _ _ id => "att:" ++ id
  | .circuit _ _ => "circuit"
  | .rate _ _ => "rate"
  | .dead _ _ seq id => dlqKey seq id
  | .deadSeq _ _ => "dlqSeq"

def family : Slot → Family
  | .endpoint _ _ => .endpoint
  | .event _ _ => .event
  | .index _ _ => .index
  | .message _ _ _ => .message
  | .attempts _ _ _ => .attempts
  | .circuit _ _ => .circuit
  | .rate _ _ => .rate
  | .dead _ _ _ _ => .dead
  | .deadSeq _ _ => .deadSeq

def body : Slot → String
  | .endpoint _ id | .event _ id | .index _ id | .message _ _ id | .attempts _ _ id => id
  | .circuit _ _ | .rate _ _ | .deadSeq _ _ => ""
  | .dead _ _ seq id => padStart 16 seq ++ ":" ++ id

/-- A key is the tag of its family and a body. -/
theorem key_eq (r : Slot) : r.key = r.family.tag ++ r.body := by
  cases r with
  | circuit _ _ => exact String.append_empty.symm
  | rate _ _ => exact String.append_empty.symm
  | deadSeq _ _ => exact String.append_empty.symm
  | dead _ _ seq id => simp only [key, dlqKey, body, family, Family.tag, String.append_assoc]
  | _ => rfl

/-- A listing by a tag finds the keys of its family. -/
theorem tag_prefix_iff (f : Family) (r : Slot) :
    f.tag.toList.isPrefixOf r.key.toList = true ↔ r.family = f := by
  rw [List.isPrefixOf_iff_prefix, key_eq, String.toList_append]
  constructor
  · intro h
    exact (Family.tag_inj _ _ (Scan.tag_eq_of_prefix Family.tag_eq_of_prefix h
      (List.prefix_append r.family.tag.toList r.body.toList))).symm
  · rintro rfl
    exact List.prefix_append _ _

theorem colon_not_mem_padStart (width seq : Nat) : ':' ∉ (padStart width seq).toList := by
  intro hc
  exact absurd (isDigit_of_mem_padStart hc) (by decide)

/-- No two slots share an object and a key. -/
theorem place_injective {r r' : Slot} (hstub : r.stub = r'.stub) (hkey : r.key = r'.key) :
    r = r' := by
  have hfamily : r'.family = r.family := by
    refine (tag_prefix_iff r.family r').mp ?_
    rw [← hkey, key_eq, String.toList_append]
    exact List.isPrefixOf_iff_prefix.mpr (List.prefix_append _ _)
  have hl := congrArg String.toList hkey
  rw [key_eq, key_eq, hfamily, String.toList_append, String.toList_append] at hl
  have hbody := String.toList_injective (List.append_cancel_left hl)
  cases r <;> cases r' <;> cases hfamily
  case endpoint.endpoint | event.event | index.index =>
    obtain rfl := Stub.tenantIndex.inj hstub
    exact congrArg _ hbody
  case message.message | attempts.attempts =>
    obtain ⟨rfl, rfl⟩ := endpointDoName_injective (Stub.endpoint.inj hstub)
    exact congrArg _ hbody
  case dead.dead =>
    obtain ⟨rfl, rfl⟩ := endpointDoName_injective (Stub.endpoint.inj hstub)
    have hdead := congrArg String.toList hbody
    simp only [body, String.toList_append, List.append_assoc] at hdead
    obtain ⟨hseq, hid⟩ :=
      cut_first (colon_not_mem_padStart _ _) (colon_not_mem_padStart _ _) hdead
    rw [String.toList_injective hid, padStart_injective (String.toList_injective hseq)]
  all_goals
    obtain ⟨rfl, rfl⟩ := endpointDoName_injective (Stub.endpoint.inj hstub)
    rfl

end Slot

/-! ## What the objects should hold -/

/-- The rows of one endpoint's DLQ. -/
def dlqOf (d : TenantData) (endpointId : String) : List DlqRow :=
  d.dlq.filter fun row => row.message.endpointId = endpointId

/-- The last sequence number given out, from the first one on. -/
def counted (n : Nat) : Option Val := if n = 0 then none else some (.seq n)

/-- `home` says which endpoint a message belongs to. -/
def Slot.content (home : String → String → String) (d : TenantData) : Slot → Option Val
  | .endpoint _ id => (d.endpoints.get id).map .endpoint
  | .event _ idemKey => (d.events.get idemKey).map .event
  | .index _ id => (d.messages.get id).map fun m => .endpointId m.endpointId
  | .message t ep id => if home t id = ep then (d.messages.get id).map .message else none
  | .attempts t ep id => if home t id = ep then (d.attempts.get id).map .attempts else none
  | .circuit _ ep => (d.circuits.get ep).map .circuit
  | .rate _ ep => (d.rateBuckets.get ep).map .rate
  | .dead _ ep seq id =>
    ((nth (dlqOf d ep) seq).filter fun row => row.message.messageId = id).map .dead
  | .deadSeq _ ep => counted (dlqOf d ep).length

def contents (home : String → String → String) (s : MemoryStateStore) (r : Slot) : Option Val :=
  r.content home (s.tenants r.tenant)

theorem update_of_tenant_ne {C : Slot → Option Val} {r r' : Slot} {v : Option Val}
    (h : r'.tenant ≠ r.tenant) : Function.update C r v r' = C r' :=
  Function.update_of_ne (fun heq => h (congrArg Slot.tenant heq)) _ _

section Methods
variable {home : String → String → String} (s : MemoryStateStore)

/-- A method that changes one tenant's data, and of it these slots. -/
theorem contents_modify {tenant : String} {f : TenantData → TenantData} {C : Slot → Option Val}
    (hother : ∀ r, r.tenant ≠ tenant → C r = contents home s r)
    (hown : ∀ r, r.tenant = tenant → C r = r.content home (f (s.tenants tenant))) :
    contents home (s.modify tenant f) = C := by
  funext r
  by_cases ht : r.tenant = tenant
  · rw [hown r ht, contents, ht, MemoryStateStore.modify_self]
  · rw [hother r ht, contents, contents, MemoryStateStore.modify_other s ht]

/-- The same where the method changes one slot. -/
theorem contents_modify_one {tenant : String} {f : TenantData → TenantData} {r : Slot}
    {v : Option Val} (htenant : r.tenant = tenant)
    (hself : r.content home (f (s.tenants tenant)) = v)
    (hother : ∀ r', r'.tenant = tenant → r' ≠ r →
      r'.content home (f (s.tenants tenant)) = r'.content home (s.tenants tenant)) :
    contents home (s.modify tenant f) = Function.update (contents home s) r v := by
  refine contents_modify s ?_ ?_
  · intro r' ht
    exact update_of_tenant_ne (htenant ▸ ht)
  · intro r' ht
    rw [Function.update_apply]
    split
    · rename_i heq
      rw [heq, hself]
    · rename_i hne
      rw [hother r' ht hne, contents, ht]

theorem contents_finalizeEvent (tenant idemKey eventId : String) (n : Nat) :
    contents home (s.finalizeEvent tenant idemKey eventId n) =
      Function.update (contents home s) (.event tenant idemKey)
        (some (.event { eventId := eventId, messageCount := n })) := by
  refine contents_modify_one s rfl (by simp [Slot.content]) ?_
  intro r' ht hne
  cases r' with
  | event t k =>
    obtain rfl : t = tenant := ht
    have hk : idemKey ≠ k := fun h => hne (by rw [h])
    simp [Slot.content, OMap.get_set_of_ne _ hk]
  | _ => rfl

theorem contents_putEndpoint (tenant : String) (e : Endpoint) {endpointId : String}
    (he : e.endpointId = endpointId) :
    contents home (s.modify tenant fun d =>
      { d with endpoints := d.endpoints.set endpointId e he }) =
        Function.update (contents home s) (.endpoint tenant endpointId) (some (.endpoint e)) := by
  have hget := fun id => OMap.get_set (s.tenants tenant).endpoints.toOMap endpointId id e
  refine contents_modify_one s rfl ?_ ?_
  · show (((s.tenants tenant).endpoints.toOMap.set endpointId e).get endpointId).map _ = _
    rw [hget, if_pos rfl]
    rfl
  · intro r' ht hne
    cases r' with
    | endpoint t id =>
      obtain rfl : t = tenant := ht
      show (((s.tenants t).endpoints.toOMap.set endpointId e).get id).map _ = _
      rw [hget, if_neg fun h => hne (by rw [h])]
      rfl
    | _ => rfl

theorem contents_deleteEndpoint (tenant endpointId : String) :
    contents home (s.deleteEndpoint tenant endpointId) =
      Function.update (contents home s) (.endpoint tenant endpointId) none := by
  have hget := OMap.get_delete (s.tenants tenant).endpoints.toOMap endpointId
  refine contents_modify_one s rfl ?_ ?_
  · show (((s.tenants tenant).endpoints.toOMap.delete endpointId).get endpointId).map _ = _
    rw [hget, if_pos rfl]
    rfl
  · intro r' ht hne
    cases r' with
    | endpoint t id =>
      obtain rfl : t = tenant := ht
      show (((s.tenants t).endpoints.toOMap.delete endpointId).get id).map _ = _
      rw [hget, if_neg fun h => hne (by rw [h])]
      rfl
    | _ => rfl

theorem contents_appendAttempt (a : Attempt) (hhome : home a.tenant a.messageId = a.endpointId) :
    contents home (s.appendAttempt a) =
      Function.update (contents home s) (.attempts a.tenant a.endpointId a.messageId)
        (some (.attempts (s.attemptsOf a.tenant a.messageId ++ [a]))) := by
  refine contents_modify_one s rfl (by simp [Slot.content, hhome, MemoryStateStore.attemptsOf]) ?_
  intro r' ht hne
  cases r' with
  | attempts t ep id =>
    obtain rfl : t = a.tenant := ht
    simp only [Slot.content]
    by_cases hid : a.messageId = id
    · have hep : home a.tenant id ≠ ep := by
        intro hep
        subst hid
        exact hne (by rw [← hep, hhome])
      rw [if_neg hep, if_neg hep]
    · rw [OMap.get_set_of_ne _ hid]
  | _ => rfl

theorem contents_putMessage (m : Message) (hhome : home m.tenant m.messageId = m.endpointId) :
    contents home (s.putMessage m) =
      Function.update (Function.update (contents home s)
        (.message m.tenant m.endpointId m.messageId) (some (.message m)))
          (.index m.tenant m.messageId) (some (.endpointId m.endpointId)) := by
  refine contents_modify s ?_ ?_
  · intro r ht
    rw [update_of_tenant_ne ht, update_of_tenant_ne ht]
  · intro r ht
    simp only [Function.update_apply]
    cases r with
    | message t ep id =>
      obtain rfl : t = m.tenant := ht
      simp only [reduceCtorEq, if_false, Slot.message.injEq, true_and, contents, Slot.content]
      by_cases hid : m.messageId = id
      · subst hid
        rw [hhome, OMap.get_set_self]
        by_cases hep : ep = m.endpointId
        · simp [hep]
        · simp [hep, Ne.symm hep]
      · rw [OMap.get_set_of_ne _ hid, if_neg (fun h => hid h.2.symm)]
        rfl
    | index t id =>
      obtain rfl : t = m.tenant := ht
      simp only [Slot.index.injEq, true_and, reduceCtorEq, if_false, contents, Slot.content]
      by_cases hid : m.messageId = id
      · simp [hid]
      · rw [OMap.get_set_of_ne _ hid, if_neg (Ne.symm hid)]
        rfl
    | _ =>
      simp only [reduceCtorEq, if_false, contents, ht]
      rfl

theorem dlqOf_concat (d : TenantData) (row : DlqRow) (endpointId : String) :
    dlqOf { d with dlq := d.dlq ++ [row] } endpointId =
      dlqOf d endpointId ++ if row.message.endpointId = endpointId then [row] else [] := by
  unfold dlqOf
  rw [List.filter_append]
  by_cases h : row.message.endpointId = endpointId <;> simp [h]

theorem contents_addToDlq (m : Message) (reason : DlqReason) :
    contents home (s.addToDlq m reason) =
      Function.update (Function.update (contents home s) (.deadSeq m.tenant m.endpointId)
        (some (.seq ((dlqOf (s.tenants m.tenant) m.endpointId).length + 1))))
          (.dead m.tenant m.endpointId ((dlqOf (s.tenants m.tenant) m.endpointId).length + 1)
            m.messageId) (some (.dead { message := m, reason := reason })) := by
  refine contents_modify s ?_ ?_
  · intro r ht
    rw [update_of_tenant_ne ht, update_of_tenant_ne ht]
  · intro r ht
    simp only [Function.update_apply]
    cases r with
    | dead t ep seq id =>
      obtain rfl : t = m.tenant := ht
      simp only [Slot.dead.injEq, true_and, reduceCtorEq, if_false, contents, Slot.content,
        dlqOf_concat, Slot.tenant]
      by_cases hep : m.endpointId = ep
      · subst hep
        rw [if_pos rfl, nth_concat]
        by_cases hseq : seq = (dlqOf (s.tenants m.tenant) m.endpointId).length + 1
        · subst hseq
          by_cases hid : m.messageId = id
          · simp [hid]
          · have hnew : nth (dlqOf (s.tenants m.tenant) m.endpointId)
                ((dlqOf (s.tenants m.tenant) m.endpointId).length + 1) = none := by simp [nth]
            simp [hid, Ne.symm hid, hnew]
        · simp [hseq]
      · simp [hep, Ne.symm hep]
    | deadSeq t ep =>
      obtain rfl : t = m.tenant := ht
      simp only [reduceCtorEq, if_false, Slot.deadSeq.injEq, true_and, contents, Slot.content,
        dlqOf_concat, Slot.tenant]
      by_cases hep : m.endpointId = ep
      · simp [hep, counted]
      · simp [hep, Ne.symm hep]
    | _ =>
      simp only [reduceCtorEq, if_false, contents, ht]
      rfl

theorem contents_putCircuit (tenant endpointId : String) (rec : CircuitRecord) :
    contents home (s.putCircuit tenant endpointId rec) =
      Function.update (contents home s) (.circuit tenant endpointId) (some (.circuit rec)) := by
  refine contents_modify_one s rfl (by simp [Slot.content]) ?_
  intro r' ht hne
  cases r' with
  | circuit t id =>
    obtain rfl : t = tenant := ht
    have hid : endpointId ≠ id := fun h => hne (by rw [h])
    simp [Slot.content, OMap.get_set_of_ne _ hid]
  | _ => rfl

theorem contents_putRateBucket (tenant endpointId : String) (bucket : RateBucket) :
    contents home (s.putRateBucket tenant endpointId bucket) =
      Function.update (contents home s) (.rate tenant endpointId) (some (.rate bucket)) := by
  refine contents_modify_one s rfl (by simp [Slot.content]) ?_
  intro r' ht hne
  cases r' with
  | rate t id =>
    obtain rfl : t = tenant := ht
    have hid : endpointId ≠ id := fun h => hne (by rw [h])
    simp [Slot.content, OMap.get_set_of_ne _ hid]
  | _ => rfl

end Methods
end Anyhook.Cloudflare.Store
