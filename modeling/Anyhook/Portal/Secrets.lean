import Anyhook.Portal.Authority

/-! Signing secrets do not come out of the portal. Two stores that differ in the secrets of
their endpoints only get the same responses to every sequence of requests that mints no
secret; a response to one that does carries it on purpose. -/
namespace Anyhook.Portal
open Anyhook.Core Anyhook.Testing Anyhook.Lib.Program Anyhook.Lib.OrderedMap

variable {A : Type}

/-! ## Stores that differ in secrets -/

structure SameButSecrets {tenant : String} (d d' : JsTenant A tenant) : Prop where
  events : d.events = d'.events
  endpoints : d.endpoints.map redact = d'.endpoints.map redact
  messages : d.messages = d'.messages
  attempts : d.attempts = d'.attempts
  circuits : d.circuits = d'.circuits
  rateBuckets : d.rateBuckets = d'.rateBuckets
  dlq : d.dlq = d'.dlq

structure Twins (w w' : JsWorld A) : Prop where
  tenants : ∀ t, SameButSecrets (w.tenants t) (w'.tenants t)
  queue : w.queue = w'.queue

/-- Answers that differ in secrets only. -/
def SameShown : (op : PortalOp) → PortalRes A op → PortalRes A op → Prop
  | .getEndpoint .., r, r' => r.map (Option.map redact) = r'.map (Option.map redact)
  | .listEndpoints _, r, r' => r.map (List.map redact) = r'.map (List.map redact)
  | .matchEndpoints .., r, r' => r.map (List.map redact) = r'.map (List.map redact)
  | .updateEndpoint .., r, r' => r.map redact = r'.map redact
  | _, r, r' => r = r'

/-- The operation does not make a secret. -/
def mintsNone : PortalOp → Bool
  | .createEndpoint _ | .rotateSecret .. => false
  | _ => true

/-- Its answer does not carry one either. -/
def showsNone : PortalOp → Bool
  | .createEndpoint _ | .rotateSecret .. | .getEndpoint .. | .listEndpoints _ | .matchEndpoints ..
  | .updateEndpoint .. => false
  | _ => true

theorem sameShown_eq {op : PortalOp} (h : showsNone op = true) {r r' : PortalRes A op}
    (hr : SameShown op r r') : r = r' := by
  cases op <;> first | exact hr | cases h

theorem mintsNone_of_showsNone {op : PortalOp} (h : showsNone op = true) :
    mintsNone op = true := by
  cases op <;> first | rfl | cases h

section Store
variable {p : Platform} {a : Ambient} {tenant : String} {d d' : JsTenant A tenant}

/-- Endpoints with one public part. -/
theorem eq_of_redact {e e' : JsEndpoint} (h : redact e = redact e') :
    e' = { e with secrets := e'.secrets } := by
  obtain ⟨id, t, url, types, desc, dis, rate, at', sec⟩ := e
  obtain ⟨id', t', url', types', desc', dis', rate', at'', sec'⟩ := e'
  simp only [redact, PublicEndpoint.mk.injEq] at h
  obtain ⟨rfl, rfl, rfl, rfl, rfl, rfl, rfl, rfl⟩ := h
  rfl

theorem subscribes_redact {e e' : JsEndpoint} (h : redact e = redact e') (eventType : Json) :
    subscribes p e eventType = subscribes p e' eventType := by
  rw [eq_of_redact h]
  rfl

theorem apply_redact {e e' : JsEndpoint} (h : redact e = redact e') (patch : JsPatch) :
    (patch.apply p e).map redact = (patch.apply p e').map redact := by
  rw [eq_of_redact h]
  unfold JsPatch.apply
  cases patch.eventTypes with
  | none => rfl
  | some v =>
    dsimp only
    cases spread p v <;> rfl

/-- A filter that looks at public parts keeps endpoints with the same ones. -/
theorem filterM_redact {f : JsEndpoint → Except String Bool}
    (hf : ∀ e e', redact e = redact e' → f e = f e') {es es' : List JsEndpoint}
    (h : es.map redact = es'.map redact) :
    (filterM f es).map (List.map redact) = (filterM f es').map (List.map redact) := by
  induction es generalizing es' with
  | nil =>
    cases es' with
    | nil => rfl
    | cons e' es' => cases h
  | cons e es ih =>
    cases es' with
    | nil => cases h
    | cons e' es' =>
      obtain ⟨he, hes⟩ := List.cons.inj h
      have hrest := ih hes
      unfold filterM
      rw [hf e e' he]
      cases f e' with
      | error x => rfl
      | ok keep =>
        cases hk : filterM f es with
        | error x =>
          rw [hk] at hrest
          cases hk' : filterM f es' with
          | error x' =>
            rw [hk'] at hrest
            cases hrest
            cases keep <;> rfl
          | ok kept' =>
            rw [hk'] at hrest
            cases hrest
        | ok kept =>
          rw [hk] at hrest
          cases hk' : filterM f es' with
          | error x' =>
            rw [hk'] at hrest
            cases hrest
          | ok kept' =>
            rw [hk'] at hrest
            have hkept : kept.map redact = kept'.map redact := Except.ok.inj hrest
            cases keep
            · exact congrArg Except.ok hkept
            · exact congrArg Except.ok (by rw [List.map_cons, List.map_cons, he, hkept])

theorem SameButSecrets.values (h : SameButSecrets d d') :
    d.endpoints.values.map redact = d'.endpoints.values.map redact := by
  rw [← OMap.values_map, h.endpoints, OMap.values_map]

theorem SameButSecrets.get (h : SameButSecrets d d') (id : String) :
    (d.endpoints.get id).map redact = (d'.endpoints.get id).map redact := by
  rw [← OMap.get_map, h.endpoints, OMap.get_map]

theorem Twins.modify {w w' : JsWorld A} (h : Twins w w') {t : String} {d d' : JsTenant A t}
    (hd : SameButSecrets d d') : Twins (w.modify t d) (w'.modify t d') where
  tenants := by
    intro u
    by_cases hu : u = t
    · subst hu
      rw [modify_self, modify_self]
      exact hd
    · rw [modify_other w hu, modify_other w' hu]
      exact h.tenants u
  queue := h.queue

theorem recordEvent_same (h : SameButSecrets d d') (eventId : String) (idemKey : Json) :
    (recordEvent d eventId idemKey).1 = (recordEvent d' eventId idemKey).1 ∧
      SameButSecrets (recordEvent d eventId idemKey).2 (recordEvent d' eventId idemKey).2 := by
  unfold recordEvent
  rw [h.events]
  split
  · exact ⟨rfl, h⟩
  · exact ⟨rfl, { h with events := rfl }⟩

theorem updateEndpoint_same (h : SameButSecrets d d') (endpointId : Json) (patch : JsPatch) :
    (updateEndpoint p d endpointId patch).1.map redact =
        (updateEndpoint p d' endpointId patch).1.map redact ∧
      SameButSecrets (updateEndpoint p d endpointId patch).2
        (updateEndpoint p d' endpointId patch).2 := by
  cases endpointId with
  | str id =>
    have hget := h.get id
    unfold updateEndpoint
    dsimp only
    cases he : d.endpoints.get id with
    | none =>
      rw [he] at hget
      have hnone : d'.endpoints.get id = none := Option.map_eq_none_iff.mp hget.symm
      rw [hnone]
      exact ⟨rfl, h⟩
    | some e =>
      rw [he] at hget
      obtain ⟨e', he', hred⟩ := Option.map_eq_some_iff.mp hget.symm
      rw [he']
      have happly := apply_redact (p := p) hred.symm patch
      dsimp only
      cases hp : patch.apply p e with
      | error x =>
        rw [hp] at happly
        cases hp' : patch.apply p e' with
        | error x' =>
          rw [hp'] at happly
          cases happly
          exact ⟨rfl, h⟩
        | ok u' =>
          rw [hp'] at happly
          cases happly
      | ok u =>
        rw [hp] at happly
        cases hp' : patch.apply p e' with
        | error x' =>
          rw [hp'] at happly
          cases happly
        | ok u' =>
          rw [hp'] at happly
          refine ⟨happly, { h with endpoints := ?_ }⟩
          dsimp only
          rw [OMap.map_set, OMap.map_set, h.endpoints, show redact u = redact u' from
            Except.ok.inj happly]
  | _ => exact ⟨rfl, h⟩

/-- One operation that makes no secret. -/
theorem exec_twins {w w' : JsWorld A} (h : Twins w w') {op : PortalOp} (hop : mintsNone op = true) :
    SameShown op (exec p a op w).1 (exec p a op w').1 ∧
      Twins (exec p a op w).2 (exec p a op w').2 := by
  cases op with
  | recordEvent t eventId idemKey =>
    obtain ⟨hans, hd⟩ := recordEvent_same (h.tenants t) eventId idemKey
    exact ⟨congrArg Except.ok hans, h.modify hd⟩
  | finalizeEvent t idemKey eventId n =>
    refine ⟨rfl, h.modify { h.tenants t with events := ?_ }⟩
    rw [(h.tenants t).events]
  | createEndpoint input => cases hop
  | getEndpoint t id => exact ⟨congrArg Except.ok ((h.tenants t).get id), h⟩
  | listEndpoints t => exact ⟨congrArg Except.ok (h.tenants t).values, h⟩
  | matchEndpoints t eventType =>
    exact ⟨filterM_redact (fun e e' he => subscribes_redact he eventType) (h.tenants t).values, h⟩
  | updateEndpoint t id patch =>
    cases t with
    | str t =>
      obtain ⟨hans, hd⟩ := updateEndpoint_same (p := p) (h.tenants t) id patch
      exact ⟨hans, h.modify hd⟩
    | _ => exact ⟨rfl, h⟩
  | rotateSecret t _ => cases hop
  | deleteEndpoint t id =>
    refine ⟨rfl, h.modify { h.tenants t with endpoints := ?_ }⟩
    rw [OMap.map_delete, OMap.map_delete, (h.tenants t).endpoints]
  | putMessage m =>
    refine ⟨rfl, h.modify { h.tenants m.tenant with messages := ?_ }⟩
    rw [(h.tenants m.tenant).messages]
  | getMessage t id =>
    exact ⟨congrArg Except.ok (by rw [(h.tenants t).messages]), h⟩
  | listDeliveries q =>
    refine ⟨congrArg Except.ok ?_, h⟩
    unfold listDeliveries
    rw [(h.tenants q.tenant).messages, (h.tenants q.tenant).attempts]
  | listDlq t id =>
    refine ⟨congrArg Except.ok ?_, h⟩
    unfold listDlq
    rw [(h.tenants t).dlq]
  | transportSend m => exact ⟨rfl, ⟨h.tenants, by simp only [exec, h.queue]⟩⟩
  | now => exact ⟨rfl, h⟩
  | next => exact ⟨rfl, h⟩

end Store
/-! ## Handlers -/

/-- The handler makes no secret, and goes on alike whatever the secrets it is given. -/
abbrev Quiet {α : Type} (h : Handler A α) : Prop :=
  Blind (fun op => mintsNone op = true) SameShown h

section Handlers
variable {α β : Type}

theorem quiet_settle (r : Except String α) : Quiet (settle r : Handler A α) := by
  cases r <;> trivial

/-- A computation goes on from what two answers have in common. -/
theorem settle_bind_eq {γ : Type} {g : α → γ} {r r' : Except String α} (h : r.map g = r'.map g)
    {f : α → Handler A β} (hf : ∀ a a', g a = g a' → f a = f a') :
    (settle r >>= f) = (settle r' >>= f) := by
  cases r with
  | error e =>
    cases r' with
    | error e' =>
      obtain rfl : e = e' := Except.error.inj h
      rfl
    | ok a' => cases h
  | ok a =>
    cases r' with
    | error e' => cases h
    | ok a' => exact hf a a' (Except.ok.inj h)

/-- An operation and what is made of its answer. -/
theorem quiet_port_bind {op : PortalOp} (hop : mintsNone op = true)
    {f : PortalAns A op → Handler A β}
    (hsame : ∀ r r', SameShown op r r' → (settle r >>= f) = (settle r' >>= f))
    (hf : ∀ a, Quiet (f a)) : Quiet (port op >>= f) := by
  refine ⟨hop, ?_⟩
  intro r r' hr
  exact ⟨hsame r r' hr, (quiet_settle r).bind hf⟩

/-- An operation whose answer has no secrets. -/
theorem quiet_port {op : PortalOp} (hop : showsNone op = true) :
    Quiet (port op : Handler A (PortalAns A op)) := by
  refine ⟨mintsNone_of_showsNone hop, ?_⟩
  intro r r' hr
  exact ⟨congrArg settle (sameShown_eq hop hr), quiet_settle r⟩

theorem quiet_draws (n : Nat) : Quiet (draws n : Handler A _) := by
  induction n with
  | zero => trivial
  | succ n ih =>
    exact (quiet_port rfl).bind fun _ => ih.bind fun _ => trivial

theorem quiet_newId (pre : String) : Quiet (newId pre : Handler A _) :=
  (quiet_draws 20).bind fun _ => trivial

theorem quiet_messagesFor (event : JsEvent) (payload : Json) (eventId : String) (now : Time)
    (es : List JsEndpoint) : Quiet (messagesFor event payload eventId now es : Handler A _) := by
  induction es with
  | nil => trivial
  | cons e es ih => exact (quiet_newId "msg").bind fun _ => ih.bind fun _ => trivial

/-- Fan-out looks at the public parts of endpoints. -/
theorem messagesFor_redact (event : JsEvent) (payload : Json) (eventId : String) (now : Time)
    {es es' : List JsEndpoint} (h : es.map redact = es'.map redact) :
    (messagesFor event payload eventId now es : Handler A _) =
      messagesFor event payload eventId now es' := by
  induction es generalizing es' with
  | nil =>
    cases es' with
    | nil => rfl
    | cons e' es' => cases h
  | cons e es ih =>
    cases es' with
    | nil => cases h
    | cons e' es' =>
      obtain ⟨he, hes⟩ := List.cons.inj h
      unfold messagesFor
      rw [ih hes, eq_of_redact he]
      rfl

theorem fanout_redact (p : Platform) (event : JsEvent) (payload : Json) (eventId : String)
    (now : Time) {es es' : List JsEndpoint} (h : es.map redact = es'.map redact) :
    (fanout p event payload eventId now es : Handler A _) =
      fanout p event payload eventId now es' := by
  unfold fanout
  refine settle_bind_eq (filterM_redact ?_ h) ?_
  · intro e e' he
    rw [subscribes_redact he, eq_of_redact he]
  · intro wanting wanting' hw
    exact messagesFor_redact event payload eventId now hw

theorem quiet_enqueueAll (ms : List JsMessage) : Quiet (enqueueAll ms : Handler A _) := by
  induction ms with
  | nil => trivial
  | cons m ms ih =>
    refine (quiet_port rfl).bind fun _ => ?_
    exact (quiet_port rfl).bind fun _ => ih

theorem quiet_accept (p : Platform) (event : JsEvent) (payload : Json) :
    Quiet (accept p event payload : Handler A _) := by
  refine (quiet_settle _).bind fun idemKey => (quiet_newId "evt").bind fun eventId => ?_
  refine (quiet_port rfl).bind fun rec => ?_
  split
  · refine quiet_port_bind rfl ?_ ?_
    · intro r r' hr
      refine settle_bind_eq hr ?_
      intro es es' hes
      simp only [fanout_redact p event payload eventId _ hes]
    · intro es
      refine (quiet_port rfl).bind fun now => ?_
      refine Blind.bind ?_ fun ms => (quiet_enqueueAll ms).bind fun _ => ?_
      · exact (quiet_settle _).bind fun wanting => quiet_messagesFor _ _ _ _ wanting
      · exact (quiet_port rfl).bind fun _ => trivial
  · trivial

theorem quiet_send (p : Platform) (maxPayloadBytes : Nat) (event : JsEvent) :
    Quiet (send p maxPayloadBytes event : Handler A _) := by
  unfold send
  split
  · trivial
  · split
    · trivial
    · cases event.payload with
      | none => trivial
      | some payload =>
        dsimp only
        split
        · trivial
        · exact quiet_accept p event payload

theorem quiet_reenqueue (m : JsMessage) : Quiet (reenqueue m : Handler A _) := by
  refine (quiet_port rfl).bind fun now => ?_
  refine (quiet_port rfl).bind fun _ => ?_
  exact quiet_port rfl

theorem quiet_reenqueueAll {tenant : String} (ms : List (TenantMessage tenant)) :
    Quiet (reenqueueAll ms : Handler A _) := by
  induction ms with
  | nil => trivial
  | cons m ms ih => exact (quiet_reenqueue m.1).bind fun _ => ih

end Handlers

/-! ## Routes -/

def Route.mints : Route → Bool
  | .createEndpoint | .rotateSecret _ => true
  | _ => false

/-- A request that creates an endpoint or rotates a secret. -/
def mints (cfg : Config) (req : Request) : Bool :=
  (routeOf req.method.toUpper (segments cfg.basePath req.pathname)).any Route.mints

section Serve
variable {cfg : Config} {tenant : String} {req : Request}

theorem quiet_readJson : Quiet (readJson req : Handler A _) := by
  unfold readJson
  cases req.body <;> trivial

theorem quiet_ingest : Quiet (ingest cfg tenant req : Handler A _) := by
  refine quiet_readJson.bind fun body => ?_
  cases body.field "type" with
  | none => trivial
  | some type =>
    dsimp only
    split
    · trivial
    · exact (quiet_send _ _ _).bind fun _ => trivial

theorem quiet_patchEndpoint (endpointId : String) :
    Quiet (patchEndpoint tenant req endpointId : Handler A _) := by
  refine quiet_readJson.bind fun body => ?_
  refine Blind.bind (quiet_port_bind rfl ?_ fun _ => trivial) fun _ => trivial
  intro r r' hr
  refine settle_bind_eq hr ?_
  intro e e' he
  rw [he]

theorem quiet_getEndpoint (endpointId : String) :
    Quiet (getEndpoint tenant endpointId : Handler A _) := by
  refine quiet_port_bind rfl ?_ fun _ => trivial
  intro r r' hr
  refine settle_bind_eq hr ?_
  intro e e' he
  rw [he]

theorem quiet_listEndpoints : Quiet (listEndpoints tenant : Handler A _) := by
  refine quiet_port_bind rfl ?_ fun _ => trivial
  intro r r' hr
  refine settle_bind_eq hr ?_
  intro es es' hes
  rw [hes]

theorem quiet_serve {route : Route} (hno : route.mints = false) :
    Quiet (serve cfg tenant req route : Handler A _) := by
  cases route with
  | ingest => exact quiet_ingest
  | createEndpoint => cases hno
  | listEndpoints => exact quiet_listEndpoints.bind fun _ => trivial
  | getEndpoint id =>
    refine (quiet_getEndpoint id).bind fun e => ?_
    cases e <;> trivial
  | updateEndpoint id => exact quiet_patchEndpoint id
  | deleteEndpoint id => exact (quiet_port rfl).bind fun _ => trivial
  | rotateSecret id => cases hno
  | replayEndpoint id =>
    refine Blind.bind ?_ fun _ => trivial
    refine (quiet_port rfl).bind fun dead => ?_
    exact (quiet_reenqueueAll _).bind fun _ => trivial
  | listDeliveries =>
    refine Blind.bind ?_ fun _ => trivial
    exact (quiet_port rfl).bind fun _ => trivial
  | getDelivery id =>
    refine Blind.bind (Blind.bind ((quiet_port rfl).bind fun _ => trivial)
      fun _ => trivial) fun row => ?_
    cases row <;> trivial
  | replayDelivery id =>
    refine Blind.bind ((quiet_port rfl).bind fun m => ?_) fun _ => trivial
    cases m with
    | none => trivial
    | some m => exact (quiet_reenqueue m.1).bind fun _ => trivial

theorem quiet_handle (hno : mints cfg req = false) : Quiet (handle cfg req : Handler A _) := by
  unfold handle
  split
  · trivial
  · cases cfg.resolveTenant req with
    | none => trivial
    | some tenant =>
      dsimp only
      split
      · trivial
      · cases hroute : routeOf req.method.toUpper (segments cfg.basePath req.pathname) with
        | none => trivial
        | some route =>
          refine (quiet_serve ?_).tryCatch fun _ => trivial
          unfold mints at hno
          rw [hroute] at hno
          exact hno

/-- One request to two stores. -/
theorem respond_twins (hno : mints cfg req = false) (ambient : Nat → Ambient) {w w' : JsWorld A}
    (h : Twins w w') : (respond cfg req ambient w).1 = (respond cfg req ambient w').1 ∧
      Twins (respond cfg req ambient w).2 (respond cfg req ambient w').2 := by
  have hrun := (quiet_handle hno).run (execAt cfg.platform ambient)
    (R := fun s t => Twins s.1 t.1 ∧ s.2 = t.2) (s := (w, 0)) (t := (w', 0)) ?_ ⟨h, rfl⟩
  · exact ⟨hrun.1, hrun.2.1⟩
  · intro op s t hop hst
    obtain ⟨w, n⟩ := s
    obtain ⟨w', n'⟩ := t
    obtain ⟨hw, hn⟩ := hst
    obtain rfl : n = n' := hn
    obtain ⟨hans, hnext⟩ := exec_twins hw hop
    exact ⟨_, _, _, _, rfl, rfl, hans, hnext, rfl⟩

end Serve

/-! ## Sequences of requests -/

/-- The responses to requests handled one after the other, each with what it takes from
outside the store. -/
def responses (cfg : Config) :
    JsWorld A → List (Request × (Nat → Ambient)) → List (Except PortalError (Response A))
  | _, [] => []
  | w, (req, ambient) :: rest =>
    (respond cfg req ambient w).1 :: responses cfg (respond cfg req ambient w).2 rest

/-- **Secrets do not leak**: two stores that differ in secrets only give the same responses,
errors included, to any requests that mint no secret. -/
theorem secrets_not_shown (cfg : Config) (requests : List (Request × (Nat → Ambient)))
    (hno : ∀ r ∈ requests, mints cfg r.1 = false) (w w' : JsWorld A) (h : Twins w w') :
    responses cfg w requests = responses cfg w' requests := by
  induction requests generalizing w w' with
  | nil => rfl
  | cons r rest ih =>
    obtain ⟨req, ambient⟩ := r
    obtain ⟨hans, hnext⟩ := respond_twins (hno _ List.mem_cons_self) ambient h
    unfold responses
    rw [hans, ih (fun r hr => hno r (List.mem_cons_of_mem _ hr)) _ _ hnext]

/-! ## Two stores -/

/-- The world of globex with other secrets. -/
def rotatedWorld : JsWorld Unit where
  tenants := Function.update noData "globex"
    { noData "globex" with
      endpoints := OMap.empty.set "ep_g" { globexEndpoint with secrets := ["whsec_h"] } }
  queue := []

/-- A request of globex without a body. -/
def globexRequest (method pathname : String) : Request where
  method := method
  pathname := pathname
  query := []
  headers := [("x-anyhook-tenant", "globex")]
  body := none

def globexRequests : List (Request × (Nat → Ambient)) :=
  [(globexRequest "GET" "/v1/endpoints", quiet), (globexRequest "GET" "/v1/endpoints/ep_g", quiet),
    (globexRequest "PATCH" "/v1/endpoints/ep_g", quiet),
    (globexRequest "DELETE" "/v1/endpoints/ep_g", quiet)]

theorem globex_secrets_not_shown :
    responses defaultConfig globexWorld globexRequests =
      responses defaultConfig rotatedWorld globexRequests := by
  refine secrets_not_shown defaultConfig globexRequests ?_ _ _ ?_
  · decide +kernel
  · refine ⟨?_, rfl⟩
    intro t
    by_cases ht : t = "globex"
    · subst ht
      exact ⟨rfl, rfl, rfl, rfl, rfl, rfl, rfl⟩
    · have hw : globexWorld.tenants t = noData t := Function.update_of_ne ht _ _
      have hw' : rotatedWorld.tenants t = noData t := Function.update_of_ne ht _ _
      rw [hw, hw']
      exact ⟨rfl, rfl, rfl, rfl, rfl, rfl, rfl⟩

end Anyhook.Portal
