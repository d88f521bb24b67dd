import Anyhook.Portal.Router

/-! Whose data a portal request reaches. The tenant is the one the producer's auth
resolved, and the endpoint the one in the path; a handler that keeps to them neither
changes another tenant's data nor shows any of it. The PATCH handler merges the body
over both, so the body can name them. -/
namespace Anyhook.Portal
open Anyhook.Core Anyhook.Testing Anyhook.Lib.Program Anyhook.Lib.OrderedMap

/-! ## The law -/

/-- The tenant an operation is on. -/
def PortalOp.tenant? : PortalOp → Option Json
  | .recordEvent t _ _ | .finalizeEvent t _ _ _ | .getEndpoint t _ | .listEndpoints t
  | .matchEndpoints t _ | .rotateSecret t _ | .deleteEndpoint t _ | .getMessage t _
  | .listDlq t _ => some (.str t)
  | .createEndpoint e => some (.str e.tenant)
  | .updateEndpoint t _ _ => some t
  | .putMessage m | .transportSend m => some (.str m.tenant)
  | .listDeliveries q => some (.str q.tenant)
  | .now | .next => none

/-- The endpoint an operation is on. -/
def PortalOp.endpoint? : PortalOp → Option Json
  | .getEndpoint _ id | .rotateSecret _ id | .deleteEndpoint _ id | .listDlq _ id =>
    some (.str id)
  | .updateEndpoint _ id _ => some id
  | _ => none

/-- Only operations on this tenant, and on this endpoint where the path names one. -/
def authority (A : Type) (tenant : String) (endpointId : Option String) :
    Monitor PortalOp (PortalRes A) Unit where
  allows _ op := (∀ t, op.tenant? = some t → t = .str tenant) ∧
    ∀ id e, endpointId = some id → op.endpoint? = some e → e = .str id
  next _ _ _ := ()

def endpointSegment : List String → Option String
  | "endpoints" :: id :: _ => some id
  | _ => none

/-- The endpoint named in the path. -/
def pathEndpoint (cfg : Config) (req : Request) : Option String :=
  endpointSegment (segments cfg.basePath req.pathname)

variable {A : Type}

/-- The `n`-th operation of a request takes `ambient n` from outside the store. -/
def execAt (p : Platform) (ambient : Nat → Ambient) (op : PortalOp) (s : JsWorld A × Nat) :
    Except PortalError (PortalRes A op) × (JsWorld A × Nat) :=
  (.ok (exec p (ambient s.2) op s.1).1, ((exec p (ambient s.2) op s.1).2, s.2 + 1))

/-- The response to a request, and the world it leaves. -/
def respond (cfg : Config) (req : Request) (ambient : Nat → Ambient) (w : JsWorld A) :
    Except PortalError (Response A) × JsWorld A :=
  let out := (handle cfg req).run (execAt cfg.platform ambient) (w, 0)
  (out.1, out.2.1)

/-- What the request may do in the name of `tenant`. -/
structure TenantAuthority (A : Type) (cfg : Config) (req : Request) (tenant : String) : Prop where
  operations :
    Obeys (authority A tenant (pathEndpoint cfg req)) (fun _ _ => True) () (handle cfg req)
  others : ∀ (ambient : Nat → Ambient) (w : JsWorld A) (u : String), u ≠ tenant →
    (respond cfg req ambient w).2.tenants u = w.tenants u
  queue : ∀ (ambient : Nat → Ambient) (w : JsWorld A),
    (respond cfg req ambient w).2.queue.filter (fun m => m.tenant ≠ tenant) =
      w.queue.filter (fun m => m.tenant ≠ tenant)
  response : ∀ (ambient : Nat → Ambient) (w w' : JsWorld A), w.tenants tenant = w'.tenants tenant →
    (respond cfg req ambient w).1 = (respond cfg req ambient w').1

/-- The request reaches the PATCH handler of the endpoint `endpointId`. -/
def Patches (cfg : Config) (req : Request) (endpointId : String) : Prop :=
  (cfg.basePath ++ "/").toList.isPrefixOf req.pathname.toList = true ∧
    routeOf req.method.toUpper (segments cfg.basePath req.pathname) =
      some (.updateEndpoint endpointId)

/-- A PATCH whose body has a `tenant` or an `endpointId` of its own. -/
def Overrides (cfg : Config) (req : Request) (tenant : String) : Prop :=
  tenant ≠ "" ∧ ∃ endpointId body, Patches cfg req endpointId ∧ req.body = some body ∧
    ((∃ v, body.field "tenant" = some v ∧ v ≠ .str tenant) ∨
      ∃ v, body.field "endpointId" = some v ∧ v ≠ .str endpointId)

/-! ## Operations -/

section Operations
variable {p : Platform} {a : Ambient} {op : PortalOp} {tenant : String}

theorem modify_self (w : JsWorld A) (t : String) (d : JsTenant A t) :
    (w.modify t d).tenants t = d := by simp [JsWorld.modify]

theorem modify_other (w : JsWorld A) {t u : String} (h : u ≠ t) (d : JsTenant A t) :
    (w.modify t d).tenants u = w.tenants u := by simp [JsWorld.modify, h]

/-- An operation on a tenant leaves the others alone. -/
theorem exec_others (hop : ∀ t, op.tenant? = some t → t = .str tenant) {u : String}
    (hu : u ≠ tenant) (w : JsWorld A) : (exec p a op w).2.tenants u = w.tenants u := by
  cases op with
  | updateEndpoint t id patch =>
    obtain rfl := hop t rfl
    exact modify_other w hu _
  | recordEvent t | finalizeEvent t | rotateSecret t | deleteEndpoint t =>
    obtain rfl : t = tenant := by simpa [PortalOp.tenant?] using hop _ rfl
    exact modify_other w hu _
  | createEndpoint e =>
    have ht : e.tenant = tenant := by simpa [PortalOp.tenant?] using hop _ rfl
    exact modify_other w (ht ▸ hu) _
  | putMessage m =>
    have ht : m.tenant = tenant := by simpa [PortalOp.tenant?] using hop _ rfl
    exact modify_other w (ht ▸ hu) _
  | _ => rfl

theorem exec_queue (hop : ∀ t, op.tenant? = some t → t = .str tenant) (w : JsWorld A) :
    (exec p a op w).2.queue.filter (fun m => m.tenant ≠ tenant) =
      w.queue.filter (fun m => m.tenant ≠ tenant) := by
  cases op with
  | transportSend m =>
    have ht : m.tenant = tenant := by simpa [PortalOp.tenant?] using hop _ rfl
    simp [exec, ht]
  | updateEndpoint t id patch =>
    obtain rfl := hop t rfl
    rfl
  | _ => rfl

/-- An operation on a tenant answers from that tenant's data, and changes it the same way. -/
theorem exec_own (hop : ∀ t, op.tenant? = some t → t = .str tenant) {w w' : JsWorld A}
    (h : w.tenants tenant = w'.tenants tenant) :
    (exec p a op w).1 = (exec p a op w').1 ∧
      (exec p a op w).2.tenants tenant = (exec p a op w').2.tenants tenant := by
  cases op with
  | updateEndpoint t id patch =>
    obtain rfl := hop t rfl
    simp only [exec, modify_self, h, and_self]
  | recordEvent t | finalizeEvent t | rotateSecret t | deleteEndpoint t =>
    obtain rfl : t = tenant := by simpa [PortalOp.tenant?] using hop _ rfl
    simp only [exec, modify_self, h, and_self]
  | getEndpoint t | listEndpoints t | matchEndpoints t | getMessage t | listDlq t =>
    obtain rfl : t = tenant := by simpa [PortalOp.tenant?] using hop _ rfl
    simp only [exec, h, and_self]
  | createEndpoint e =>
    obtain rfl : e.tenant = tenant := by simpa [PortalOp.tenant?] using hop _ rfl
    simp only [exec, modify_self, h, and_self]
  | putMessage m =>
    obtain rfl : m.tenant = tenant := by simpa [PortalOp.tenant?] using hop _ rfl
    simp only [exec, modify_self, h, and_self]
  | listDeliveries q =>
    obtain rfl : q.tenant = tenant := by simpa [PortalOp.tenant?] using hop _ rfl
    simp only [exec, h, and_self]
  | transportSend m => exact ⟨rfl, h⟩
  | now => exact ⟨rfl, h⟩
  | next => exact ⟨rfl, h⟩

end Operations

/-! ## Handlers -/

section Handlers
variable {α β : Type} {tenant : String} {endpointId : Option String}

/-- The handler keeps to the tenant and the endpoint. -/
def Keeps (tenant : String) (endpointId : Option String) (h : Handler A α) : Prop :=
  Obeys (authority A tenant endpointId) (fun _ _ => True) () h

theorem keeps_pure (a : α) : Keeps tenant endpointId (pure a : Handler A α) := trivial

theorem keeps_throw (e : PortalError) : Keeps tenant endpointId (.throw e : Handler A α) := trivial

theorem Keeps.bind {h : Handler A α} {f : α → Handler A β} (hh : Keeps tenant endpointId h)
    (hf : ∀ a, Keeps tenant endpointId (f a)) : Keeps tenant endpointId (h >>= f) := by
  unfold Keeps
  rw [obeys_bind]
  refine hh.mono ?_
  intro g a _
  exact hf a

theorem keeps_settle (r : Except String α) : Keeps tenant endpointId (settle r : Handler A α) := by
  cases r <;> trivial

theorem keeps_port {op : PortalOp} (ht : ∀ t, op.tenant? = some t → t = .str tenant)
    (he : ∀ id e, endpointId = some id → op.endpoint? = some e → e = .str id) :
    Keeps tenant endpointId (port op : Handler A (PortalAns A op)) :=
  obeys_perform_bind.mpr ⟨⟨ht, he⟩, fun r => keeps_settle r⟩

/-- An operation that names no endpoint, on the tenant. -/
theorem keeps_tenant {op : PortalOp} (ht : op.tenant? = some (.str tenant) ∨ op.tenant? = none)
    (he : op.endpoint? = none) :
    Keeps tenant endpointId (port op : Handler A (PortalAns A op)) := by
  refine keeps_port (fun t h => ?_) fun id e _ h => ?_
  · rcases ht with ht | ht
    · rw [ht] at h
      exact (Option.some.inj h).symm
    · rw [ht] at h
      cases h
  · rw [he] at h
    cases h

theorem keeps_draws (n : Nat) : Keeps tenant endpointId (draws n : Handler A _) := by
  induction n with
  | zero => exact keeps_pure _
  | succ n ih =>
    exact (keeps_tenant (.inr rfl) rfl).bind fun _ => ih.bind fun _ => keeps_pure _

theorem keeps_newId (pre : String) : Keeps tenant endpointId (newId pre : Handler A _) :=
  (keeps_draws 20).bind fun _ => keeps_pure _

theorem keeps_enqueueAll {ms : List JsMessage} (hms : ∀ m ∈ ms, m.tenant = tenant) :
    Keeps tenant endpointId (enqueueAll ms : Handler A _) := by
  induction ms with
  | nil => exact keeps_pure _
  | cons m rest ih =>
    have hm : m.tenant = tenant := hms m List.mem_cons_self
    refine (keeps_tenant (.inl (by rw [← hm]; rfl)) rfl).bind fun _ => ?_
    refine (keeps_tenant (.inl (by rw [← hm]; rfl)) rfl).bind fun _ => ?_
    exact ih fun x hx => hms x (List.mem_cons_of_mem _ hx)

/-- Fan-out makes messages of the event's tenant. -/
theorem messagesFor_obeys (event : JsEvent) (payload : Json) (eventId : String) (now : Time)
    (es : List JsEndpoint) :
    Obeys (authority A tenant endpointId) (fun _ ms => ∀ m ∈ ms, m.tenant = event.tenant) ()
      (messagesFor event payload eventId now es) := by
  induction es with
  | nil => exact nofun
  | cons e rest ih =>
    unfold messagesFor
    rw [obeys_bind]
    refine (keeps_newId "msg").mono ?_
    intro _ id _
    rw [obeys_bind]
    refine ih.mono ?_
    intro _ ms hms m hm
    rcases List.mem_cons.mp hm with rfl | hm
    · rfl
    · exact hms m hm

theorem keeps_accept (p : Platform) (event : JsEvent) (payload : Json) :
    Keeps event.tenant endpointId (accept p event payload : Handler A _) := by
  refine (keeps_settle _).bind fun idemKey => (keeps_newId "evt").bind fun eventId => ?_
  refine (keeps_tenant (.inl rfl) rfl).bind fun rec => ?_
  split
  · refine (keeps_tenant (.inl rfl) rfl).bind fun es => ?_
    refine (keeps_tenant (.inr rfl) rfl).bind fun now => ?_
    unfold fanout Keeps
    rw [obeys_bind, obeys_bind]
    refine (keeps_settle _).mono ?_
    intro _ wanting _
    refine (messagesFor_obeys event payload eventId now wanting).mono ?_
    intro _ ms hms
    refine (keeps_enqueueAll hms).bind fun _ => ?_
    exact (keeps_tenant (.inl rfl) rfl).bind fun _ => keeps_pure _
  · exact keeps_pure _

theorem keeps_send (p : Platform) (maxPayloadBytes : Nat) {event : JsEvent}
    (ht : event.tenant = tenant) :
    Keeps tenant endpointId (send p maxPayloadBytes event : Handler A _) := by
  subst ht
  unfold send
  split
  · exact keeps_throw _
  · split
    · exact keeps_throw _
    · cases event.payload with
      | none => exact keeps_throw _
      | some payload =>
        dsimp only
        split
        · exact keeps_throw _
        · exact keeps_accept p event payload

theorem keeps_reenqueue {m : JsMessage} (hm : m.tenant = tenant) :
    Keeps tenant endpointId (reenqueue m : Handler A _) := by
  refine (keeps_tenant (.inr rfl) rfl).bind fun now => ?_
  refine (keeps_tenant (.inl (by rw [← hm]; rfl)) rfl).bind fun _ => ?_
  exact keeps_tenant (.inl (by rw [← hm]; rfl)) rfl

theorem keeps_reenqueueAll (ms : List (TenantMessage tenant)) :
    Keeps tenant endpointId (reenqueueAll ms : Handler A _) := by
  induction ms with
  | nil => exact keeps_pure _
  | cons m rest ih => exact (keeps_reenqueue m.2).bind fun _ => ih

end Handlers

/-! ## Routes -/

/-- The endpoint a route is about. -/
def Route.endpointId? : Route → Option String
  | .getEndpoint id | .updateEndpoint id | .deleteEndpoint id | .rotateSecret id
  | .replayEndpoint id => some id
  | _ => none

theorem routeOf_path {method : String} {segs : List String} {route : Route}
    (h : routeOf method segs = some route) : endpointSegment segs = route.endpointId? := by
  unfold routeOf at h
  split at h <;> cases h <;> rfl

/-- A body that leaves the tenant and the endpoint of the path alone. -/
def Plain (tenant endpointId : String) (body : Json) : Prop :=
  (∀ v, body.field "tenant" = some v → v = .str tenant) ∧
    ∀ v, body.field "endpointId" = some v → v = .str endpointId

theorem getD_eq {o : Option Json} {d : Json} : o.getD d = d ↔ ∀ v, o = some v → v = d := by
  cases o <;> simp

theorem merged_plain {tenant endpointId : String} {body : Json} :
    Plain tenant endpointId body ↔ (merged tenant endpointId body).tenant = .str tenant ∧
      (merged tenant endpointId body).endpointId = .str endpointId := by
  simp only [Plain, merged, getD_eq]

section Serve
variable {cfg : Config} {tenant : String} {req : Request}

theorem keeps_readJson {endpointId : Option String} :
    Keeps tenant endpointId (readJson req : Handler A _) := by
  unfold readJson
  cases req.body <;> trivial

theorem keeps_ingest {endpointId : Option String} :
    Keeps tenant endpointId (ingest cfg tenant req : Handler A _) := by
  refine keeps_readJson.bind fun body => ?_
  cases body.field "type" with
  | none => exact keeps_throw _
  | some type =>
    dsimp only
    split
    · exact keeps_throw _
    · refine Keeps.bind ?_ fun _ => keeps_pure _
      exact keeps_send _ _ rfl

theorem keeps_postEndpoint {endpointId : Option String} :
    Keeps tenant endpointId (postEndpoint tenant req : Handler A _) := by
  refine keeps_readJson.bind fun body => ?_
  split
  · split
    · exact keeps_throw _
    · refine Keeps.bind ?_ fun _ => keeps_pure _
      exact (keeps_tenant (.inl rfl) rfl).bind fun _ => keeps_pure _
  · exact keeps_throw _

theorem keeps_patchEndpoint {endpointId : String}
    (hplain : ∀ body, req.body = some body → Plain tenant endpointId body) :
    Keeps tenant (some endpointId) (patchEndpoint tenant req endpointId : Handler A _) := by
  unfold patchEndpoint readJson
  cases hbody : req.body with
  | none => exact keeps_throw _
  | some body =>
    obtain ⟨ht, he⟩ := merged_plain.mp (hplain body hbody)
    show Keeps tenant (some endpointId) (update (merged tenant endpointId body) >>= _)
    refine Keeps.bind ?_ fun _ => keeps_pure _
    refine Keeps.bind (keeps_port ?_ ?_) fun _ => keeps_pure _
    · intro t h
      rw [← ht]
      exact (Option.some.inj h).symm
    · intro id e hid h
      rw [← Option.some.inj hid, ← he]
      exact (Option.some.inj h).symm

theorem keeps_endpointPort {endpointId : String} {op : PortalOp}
    (ht : op.tenant? = some (.str tenant)) (he : op.endpoint? = some (.str endpointId)) :
    Keeps tenant (some endpointId) (port op : Handler A _) := by
  refine keeps_port ?_ ?_
  · intro t h
    rw [ht] at h
    exact (Option.some.inj h).symm
  · intro id e hid h
    rw [he] at h
    rw [← Option.some.inj hid]
    exact (Option.some.inj h).symm

theorem keeps_serve {route : Route} (hplain : ∀ id body, route = .updateEndpoint id →
      req.body = some body → Plain tenant id body) :
    Keeps tenant route.endpointId? (serve cfg tenant req route : Handler A _) := by
  cases route with
  | ingest => exact keeps_ingest
  | createEndpoint => exact keeps_postEndpoint
  | listEndpoints =>
    refine Keeps.bind ?_ fun _ => keeps_pure _
    exact (keeps_tenant (.inl rfl) rfl).bind fun _ => keeps_pure _
  | getEndpoint id =>
    refine Keeps.bind ((keeps_endpointPort rfl rfl).bind fun _ => keeps_pure _) fun e => ?_
    cases e
    · exact keeps_throw _
    · exact keeps_pure _
  | updateEndpoint id => exact keeps_patchEndpoint fun body hb => hplain id body rfl hb
  | deleteEndpoint id => exact (keeps_endpointPort rfl rfl).bind fun _ => keeps_pure _
  | rotateSecret id => exact (keeps_endpointPort rfl rfl).bind fun _ => keeps_pure _
  | replayEndpoint id =>
    refine Keeps.bind ?_ fun _ => keeps_pure _
    refine (keeps_endpointPort rfl rfl).bind fun dead => ?_
    exact (keeps_reenqueueAll _).bind fun _ => keeps_pure _
  | listDeliveries =>
    refine Keeps.bind ?_ fun _ => keeps_pure _
    exact (keeps_tenant (.inl rfl) rfl).bind fun _ => keeps_pure _
  | getDelivery id =>
    refine Keeps.bind (Keeps.bind ((keeps_tenant (.inl rfl) rfl).bind fun _ => keeps_pure _)
      fun _ => keeps_pure _) fun row => ?_
    cases row
    · exact keeps_throw _
    · exact keeps_pure _
  | replayDelivery id =>
    refine Keeps.bind ((keeps_tenant (.inl rfl) rfl).bind fun m => ?_) fun _ => keeps_pure _
    cases m with
    | none => exact keeps_pure _
    | some m => exact (keeps_reenqueue m.2).bind fun _ => keeps_pure _

/-- A request that does not override its path keeps to it. -/
theorem keeps_handle (hten : cfg.resolveTenant req = some tenant)
    (hno : ¬ Overrides cfg req tenant) :
    Keeps tenant (pathEndpoint cfg req) (handle cfg req : Handler A _) := by
  unfold handle
  split
  · exact keeps_pure _
  · next hbase =>
    rw [hten]
    dsimp only
    split
    · exact keeps_pure _
    · next hne =>
      cases hroute : routeOf req.method.toUpper (segments cfg.basePath req.pathname) with
      | none => exact keeps_pure _
      | some route =>
        dsimp only
        rw [show pathEndpoint cfg req = route.endpointId? from routeOf_path hroute]
        refine obeys_tryCatch (keeps_serve ?_) fun _ _ => trivial
        intro id body hr hbody
        subst hr
        have hpatch : Patches cfg req id := ⟨by simpa using hbase, hroute⟩
        refine ⟨fun v hv => ?_, fun v hv => ?_⟩
        · by_contra hvne
          exact hno ⟨hne, id, body, hpatch, hbody, .inl ⟨v, hv, hvne⟩⟩
        · by_contra hvne
          exact hno ⟨hne, id, body, hpatch, hbody, .inr ⟨v, hv, hvne⟩⟩

/-- A PATCH that overrides its path performs its operation where the body says. -/
theorem overrides_escapes (hten : cfg.resolveTenant req = some tenant)
    (h : Overrides cfg req tenant) :
    ¬ Keeps tenant (pathEndpoint cfg req) (handle cfg req : Handler A _) := by
  obtain ⟨hne, id, body, ⟨hbase, hroute⟩, hbody, hover⟩ := h
  intro hkeeps
  unfold handle at hkeeps
  rw [hbase, hten] at hkeeps
  simp only [hroute, if_neg hne] at hkeeps
  rw [show pathEndpoint cfg req = some id from routeOf_path hroute, if_neg (by simp)] at hkeeps
  have hcall : ∃ patch k, ((serve cfg tenant req (.updateEndpoint id)).tryCatch
      fun e => .pure (respondTo e) : Handler A _) =
        .call (.updateEndpoint (merged tenant id body).tenant
          (merged tenant id body).endpointId patch) k := by
    simp only [serve, patchEndpoint, readJson, hbody]
    exact ⟨_, _, rfl⟩
  obtain ⟨patch, k, hcall⟩ := hcall
  rw [hcall] at hkeeps
  obtain ⟨⟨ht, he⟩, -⟩ := hkeeps
  have hplain := merged_plain.mpr ⟨ht _ rfl, he id _ rfl rfl⟩
  rcases hover with ⟨v, hv, hvne⟩ | ⟨v, hv, hvne⟩
  · exact hvne (hplain.1 v hv)
  · exact hvne (hplain.2 v hv)

/-! ## Runs -/

variable {endpointId : Option String}

/-- What every operation on the tenant keeps, the request keeps. -/
theorem Keeps.respond {I : JsWorld A → Prop}
    (hk : Keeps tenant endpointId (handle cfg req : Handler A _))
    (hI : ∀ op a w, (∀ t, op.tenant? = some t → t = .str tenant) → I w →
      I (exec cfg.platform a op w).2) (ambient : Nat → Ambient) {w : JsWorld A} (h : I w) :
    I (respond cfg req ambient w).2 := by
  have hrun := hk.run_inv (execAt cfg.platform ambient) (I := fun _ s => I s.1)
    (E := fun s => I s.1) (s := (w, 0))
    (fun g op s r s' hs hal hx => by
      cases hx
      exact hI op _ s.1 hal.1 hs)
    (fun g op s x s' _ _ hx => by cases hx) (fun _ _ hs => hs) h
  unfold Portal.respond
  cases hout : (handle cfg req : Handler A _).run (execAt cfg.platform ambient) (w, 0) with
  | mk out s =>
    rw [hout] at hrun
    cases out with
    | ok r =>
      obtain ⟨_, -, hi⟩ := hrun
      exact hi
    | error e => exact hrun

/-- Two worlds that agree on the tenant's data give one response. -/
theorem Keeps.same_response (hk : Keeps tenant endpointId (handle cfg req : Handler A _))
    (ambient : Nat → Ambient) {w w' : JsWorld A} (h : w.tenants tenant = w'.tenants tenant) :
    (Portal.respond cfg req ambient w).1 = (Portal.respond cfg req ambient w').1 := by
  refine (hk.run_rel (execAt cfg.platform ambient)
    (R := fun s t => s.1.tenants tenant = t.1.tenants tenant ∧ s.2 = t.2) (s := (w, 0))
    (t := (w', 0)) ?_ ⟨h, rfl⟩).1
  intro g op s t hst hal
  obtain ⟨w, n⟩ := s
  obtain ⟨w', n'⟩ := t
  obtain ⟨hw, rfl⟩ := hst
  obtain ⟨hans, hnext⟩ := exec_own hal.1 hw
  exact ⟨congrArg Except.ok hans, hnext, rfl⟩

/-- **Tenant authority.** A request acts for its tenant and on the endpoint in its path
only, changes nothing of another tenant and shows nothing of one, exactly when it is not
a PATCH whose body names another tenant or another endpoint. -/
theorem tenant_authority_iff (hten : cfg.resolveTenant req = some tenant) :
    TenantAuthority A cfg req tenant ↔ ¬ Overrides cfg req tenant := by
  constructor
  · intro h hover
    exact overrides_escapes hten hover h.operations
  · intro hno
    have hk : Keeps tenant (pathEndpoint cfg req) (handle cfg req : Handler A _) :=
      keeps_handle hten hno
    refine ⟨hk, ?_, ?_, fun ambient w w' h => hk.same_response ambient h⟩
    · intro ambient w u hu
      exact hk.respond (I := fun x => x.tenants u = w.tenants u)
        (fun op a x hop hx => (exec_others hop hu x).trans hx) ambient rfl
    · intro ambient w
      exact hk.respond (I := fun x => x.queue.filter (fun m => m.tenant ≠ tenant) =
          w.queue.filter (fun m => m.tenant ≠ tenant))
        (fun op a x hop hx => (exec_queue hop x).trans hx) ambient rfl

end Serve

/-! ## Two requests -/

def plainPlatform : Platform where
  stringify := fun _ => "null"
  toText
    | .str s => .ok s
    | _ => .ok ""
  typeError := fun method _ => method ++ " is not a function"
  byteLengthError := "The \"string\" argument must be of type string"
  sha256Hex := id

def defaultConfig : Config where
  basePath := "/v1"
  resolveTenant := tenantHeader
  platform := plainPlatform
  maxPayloadBytes := 262144

/-- A PATCH by the tenant acme. -/
def patchRequest (body : Json) : Request where
  method := "PATCH"
  pathname := "/v1/endpoints/ep_1"
  query := []
  headers := [("x-anyhook-tenant", "acme")]
  body := some body

theorem plain_patch_acts_for_acme :
    tenantHeader (patchRequest (.obj [("disabled", .bool true)])) = some "acme" ∧
      TenantAuthority Unit defaultConfig
        (patchRequest (.obj [("disabled", .bool true)])) "acme" := by
  have hten : defaultConfig.resolveTenant (patchRequest (.obj [("disabled", .bool true)])) =
      some "acme" := by decide
  refine ⟨hten, (tenant_authority_iff hten).mpr ?_⟩
  intro ⟨_, _, body, _, hbody, hover⟩
  cases hbody
  rcases hover with ⟨v, hv, -⟩ | ⟨v, hv, -⟩ <;> cases hv

/-- The body of a PATCH that names the endpoint of another tenant. -/
def hijack : Json :=
  .obj [("tenant", .str "globex"), ("endpointId", .str "ep_g"), ("url", .str "https://evil/h")]

def globexEndpoint : JsEndpoint where
  endpointId := "ep_g"
  tenant := "globex"
  url := .str "https://globex/h"
  eventTypes := [.str "*"]
  description := none
  disabled := .bool false
  rateLimit := none
  createdAt := 0
  secrets := ["whsec_g"]

def noData (t : String) : JsTenant Unit t where
  events := []
  endpoints := .empty
  messages := .empty
  attempts := .empty
  circuits := .empty
  rateBuckets := .empty
  dlq := []

def globexWorld : JsWorld Unit where
  tenants := Function.update noData "globex"
    { noData "globex" with endpoints := OMap.empty.set "ep_g" globexEndpoint }
  queue := []

def quiet (_ : Nat) : Ambient where
  now := 0
  createdAt := 0
  draw := 0
  secret := "whsec_1"
  endpointCounter := 1

/-- Where an endpoint is delivered to. -/
def urlText (e : JsEndpoint) : String :=
  match e.url with
  | .str s => s
  | _ => ""

/-- A request of acme redirects the deliveries of globex. -/
theorem acme_redirects_globex :
    tenantHeader (patchRequest hijack) = some "acme" ∧
      ¬ TenantAuthority Unit defaultConfig (patchRequest hijack) "acme" := by
  refine ⟨by decide, fun h => ?_⟩
  have hsame := h.others quiet globexWorld "globex" (by decide)
  have hurl := congrArg (fun d => (d.endpoints.get "ep_g").map urlText) hsame
  revert hurl
  decide +kernel

end Anyhook.Portal
