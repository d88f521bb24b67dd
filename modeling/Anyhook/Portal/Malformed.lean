import Anyhook.Portal.Sends
import Anyhook.Lib.Run

/-! What one malformed endpoint does to its tenant. The portal takes `eventTypes` as any
array, or in a PATCH as anything that iterates, and matching goes over every endpoint of
the tenant in one pass. A pattern that is no string throws there, unless a `*` before it
ends the search, and then the event reaches no endpoint at all. -/
namespace Anyhook.Portal
open Anyhook.Core Anyhook.Testing Anyhook.Lib.Program Anyhook.Lib.OrderedMap Anyhook.Lib.Run

variable {A : Type}

/-! ## Sends and requests, one after the other -/

/-- A call into the process: a request to the portal, or the producer's own `send`. -/
inductive Call where
  | request (req : Request)
  | send (event : JsEvent)

structure Turn where
  call : Call
  ambient : Nat → Ambient

section Turns
variable (cfg : Config)

/-- The outcome of `engine.send`, and the world it leaves. -/
def sendIn (event : JsEvent) (ambient : Nat → Ambient) (w : JsWorld A) :
    Except PortalError Receipt × JsWorld A :=
  let out := (send cfg.platform cfg.maxPayloadBytes event).run
    (execAt cfg.platform ambient) (w, 0)
  (out.1, out.2.1)

def takeTurn (w : JsWorld A) (turn : Turn) : JsWorld A :=
  match turn.call with
  | .request req => (respond cfg req turn.ambient w).2
  | .send event => (sendIn cfg event turn.ambient w).2

/-- An event that the producer may send: its type and tenant are not empty, and its payload
is within the cap. -/
structure ValidEvent (event : JsEvent) : Prop where
  type : ∃ s, event.type = .str s ∧ s ≠ ""
  tenant : event.tenant ≠ ""
  payload : ∃ v, event.payload = some v ∧
    (cfg.platform.stringify v).utf8ByteSize ≤ cfg.maxPayloadBytes
  idempotencyKey : ∀ key, event.idempotencyKey = some key → ∃ s, key = .str s

/-- A POST to the endpoints, or a PATCH of one of them. -/
def WritesEndpoint (req : Request) : Prop :=
  routeOf req.method.toUpper (segments cfg.basePath req.pathname) = some .createEndpoint ∨
    ∃ id, routeOf req.method.toUpper (segments cfg.basePath req.pathname) =
      some (.updateEndpoint id)

def Response.success (r : Response A) : Bool := 200 ≤ r.status && r.status < 300

def succeeded : Except PortalError (Response A) → Bool
  | .ok r => r.success
  | .error _ => false

/-- The calls in question: requests that write endpoints, each answered with a success, and
sends of valid events. -/
def Admitted (w : JsWorld A) (turn : Turn) : Prop :=
  match turn.call with
  | .request req => WritesEndpoint cfg req ∧ succeeded (respond cfg req turn.ambient w).1 = true
  | .send event => ValidEvent cfg event

/-- The message an endpoint gets for an event. -/
structure MessageTo (event : JsEvent) (eventId : String) (e : JsEndpoint) (m : JsMessage) :
    Prop where
  tenant : m.tenant = event.tenant
  endpointId : m.endpointId = e.endpointId
  eventId : m.eventId = eventId
  eventType : m.eventType = event.type
  payload : some m.payload = event.payload

/-- The event is accepted, and if its key is new then every enabled endpoint that subscribes
to it gets a message. -/
def SentTo (event : JsEvent) (w : JsWorld A) (out : Except PortalError Receipt × JsWorld A) :
    Prop :=
  ∃ receipt messages, out.1 = .ok receipt ∧ receipt.accepted = true ∧
    out.2.queue = w.queue ++ messages ∧
    ∀ payload key, event.payload = some payload → keyOf cfg.platform event payload = .ok key →
      findEvent key (w.tenants event.tenant).events = none →
      ∀ e ∈ (w.tenants event.tenant).endpoints.values, e.disabled.truthy = false →
        subscribes cfg.platform e event.type = .ok true →
        ∃ m ∈ messages, MessageTo event receipt.eventId e m

/-- Every valid event goes through. -/
def Flows (w : JsWorld A) : Prop :=
  ∀ event ambient, ValidEvent cfg event → SentTo cfg event w (sendIn cfg event ambient w)

end Turns

def newTenant (tenant : String) : JsTenant A tenant where
  events := []
  endpoints := .empty
  messages := .empty
  attempts := .empty
  circuits := .empty
  rateBuckets := .empty
  dlq := []

def newStore : JsWorld A where
  tenants := newTenant
  queue := []

/-! ## What the calls write -/

/-- The patterns a body asks to store. A string gives one pattern for each character. -/
def written (req : Request) : Option (List Json) :=
  match req.body.bind fun body => body.field "eventTypes" with
  | some (.arr items) => some items
  | some (.str s) => some (s.toList.map fun c => .str (String.singleton c))
  | _ => none

/-- The call writes no pattern that matching throws on. -/
def Turn.Readable (turn : Turn) : Prop :=
  match turn.call with
  | .request req => ∀ body items, req.body = some body →
      body.field "eventTypes" = some (.arr items) → readable items = true
  | .send _ => True

/-! ## Stores whose patterns are all readable -/

/-- Every endpoint of every tenant can be matched. -/
def Legible (w : JsWorld A) : Prop :=
  ∀ t, ∀ e ∈ (w.tenants t).endpoints.values, readable e.eventTypes = true

/-- Endpoints belong to a tenant with a name. -/
def Named (w : JsWorld A) : Prop := (w.tenants "").endpoints.values = []

/-- `${s}` is the string itself. -/
def TextOfString (p : Platform) : Prop := ∀ s, p.toText (.str s) = .ok s

/-- Some payload is within the cap. -/
def HasRoom (cfg : Config) : Prop :=
  ∃ payload, (cfg.platform.stringify payload).utf8ByteSize ≤ cfg.maxPayloadBytes

section Stores
variable {cfg : Config} {event : JsEvent} {ambient : Nat → Ambient} {w : JsWorld A}

theorem ValidEvent.key (hv : ValidEvent cfg event) (htext : TextOfString cfg.platform)
    (payload : Json) : ∃ key, keyOf cfg.platform event payload = .ok key := by
  obtain ⟨ty, hty, -⟩ := hv.type
  unfold keyOf
  cases hkey : event.idempotencyKey with
  | none =>
    simp only [deriveIdempotencyKey, hty, htext ty]
    exact ⟨_, rfl⟩
  | some key =>
    obtain ⟨k, rfl⟩ := hv.idempotencyKey key hkey
    exact ⟨.str k, rfl⟩

/-- A valid event passes the checks of `send`. -/
theorem ValidEvent.send_eq (hv : ValidEvent cfg event) {payload : Json}
    (hp : event.payload = some payload) :
    (send cfg.platform cfg.maxPayloadBytes event : Handler A _) =
      accept cfg.platform event payload := by
  obtain ⟨ty, hty, hne⟩ := hv.type
  obtain ⟨v, hv', hsize⟩ := hv.payload
  obtain rfl : v = payload := Option.some.inj (hv'.symm.trans hp)
  have htruthy : event.type.truthy = true := by simpa [hty, Json.truthy] using hne
  unfold send
  simp only [htruthy, hv.tenant, hp, Bool.not_true, Bool.false_eq_true, if_false,
    if_neg (Nat.not_lt.mpr hsize)]

theorem Legible.send (hw : Legible w) (htext : TextOfString cfg.platform)
    (hv : ValidEvent cfg event) (ambient : Nat → Ambient) :
    SentTo cfg event w (sendIn cfg event ambient w) ∧
      SameEndpoints w (sendIn cfg event ambient w).2 := by
  obtain ⟨payload, hp, -⟩ := hv.payload
  obtain ⟨key, hkey⟩ := hv.key htext payload
  obtain ⟨ty, hty, -⟩ := hv.type
  have hall : ∀ e ∈ (w.tenants event.tenant).endpoints.values,
      ∃ b, subscribes cfg.platform e event.type = .ok b := by
    intro e he
    rw [hty]
    exact anyMatches_readable (hw event.tenant e he) ty
  obtain ⟨receipt, s', hrun, haccepted, hkept, messages, hqueue, hmessages⟩ :=
    accept_ends (p := cfg.platform) (s := (w, 0)) ambient hkey hall
  have hout : sendIn cfg event ambient w = (.ok receipt, s'.1) := by
    unfold sendIn
    rw [hv.send_eq hp, hrun]
  rw [hout]
  refine ⟨⟨receipt, messages, rfl, haccepted, hqueue, ?_⟩, hkept⟩
  intro payload' key' hp' hkey' hnew e he hon hsub
  obtain rfl : payload = payload' := Option.some.inj (hp.symm.trans hp')
  obtain rfl : key = key' := Except.ok.inj (hkey.symm.trans hkey')
  obtain ⟨id, now, hm⟩ := hmessages hnew e he hon hsub
  exact ⟨_, hm, ⟨rfl, rfl, rfl, rfl, hp.symm⟩⟩

theorem findEvent_longer {n : Nat} {events : List (Json × EventRecord)}
    (h : ∀ s rec, (Json.str s, rec) ∈ events → s.toList.length < n) :
    findEvent (.str (letters n)) events = none := by
  induction events with
  | nil => rfl
  | cons entry rest ih =>
    obtain ⟨k, rec⟩ := entry
    unfold findEvent
    have hne : ¬ k.same (.str (letters n)) = true := by
      intro hk
      cases k with
      | str s =>
        have hs : s = letters n := by simpa [Json.same] using hk
        have hlen := h s rec List.mem_cons_self
        rw [hs, letters, String.toList_ofList, List.length_replicate] at hlen
        omega
      | _ => cases hk
    rw [if_neg hne]
    exact ih fun s rec hs => h s rec (List.mem_cons_of_mem _ hs)

/-- Every string in a list of patterns, and every string among the keys of the events. -/
def strings (l : List Json) : List String :=
  l.filterMap fun
    | .str s => some s
    | _ => none

theorem mem_strings {l : List Json} {s : String} (h : Json.str s ∈ l) : s ∈ strings l :=
  List.mem_filterMap.mpr ⟨.str s, h, rfl⟩

/-- A valid event of letters, under a key of letters. -/
def lettersEvent (n : Nat) (tenant : String) (payload : Json) : JsEvent where
  type := .str (letters n)
  tenant := tenant
  payload := some payload
  idempotencyKey := some (.str (letters n))

theorem lettersEvent_valid {n : Nat} (hn : 0 < n) {t : String} (ht : t ≠ "") {payload : Json}
    (hsize : (cfg.platform.stringify payload).utf8ByteSize ≤ cfg.maxPayloadBytes) :
    ValidEvent cfg (lettersEvent n t payload) where
  type := by
    refine ⟨_, rfl, ?_⟩
    intro h
    have hlen := congrArg (fun s => s.toList.length) h
    simp only [letters, String.toList_ofList, List.length_replicate] at hlen
    exact absurd hlen (Nat.pos_iff_ne_zero.mp hn)
  tenant := ht
  payload := ⟨payload, rfl, hsize⟩
  idempotencyKey := fun key hkey => ⟨_, (Option.some.inj hkey).symm⟩

/-- An endpoint that cannot be matched stops some valid event of its tenant. -/
theorem Flows.legible (hf : Flows cfg w) (hn : Named w) (hroom : HasRoom cfg) : Legible w := by
  intro t e he
  by_contra hbad
  obtain ⟨payload, hsize⟩ := hroom
  have ht : t ≠ "" := by
    intro hempty
    rw [hempty, hn] at he
    cases he
  -- a type and a key longer than every string that could match
  obtain ⟨n, hpos, hlong⟩ := exists_longer
    (strings (e.eventTypes ++ (w.tenants t).events.map Prod.fst))
  obtain ⟨x, hx⟩ := anyMatches_unreadable (p := cfg.platform) hbad
    fun s hs => hlong s (mem_strings (List.mem_append_left _ hs))
  have hnew : findEvent (.str (letters n)) (w.tenants t).events = none := by
    refine findEvent_longer fun s rec hs => hlong s (mem_strings (List.mem_append_right _ ?_))
    exact List.mem_map_of_mem (f := Prod.fst) hs
  have hvalid : ValidEvent cfg (lettersEvent n t payload) := lettersEvent_valid hpos ht hsize
  obtain ⟨receipt, messages, hok, -⟩ := hf (lettersEvent n t payload) quiet hvalid
  have hkey : keyOf cfg.platform (lettersEvent n t payload) payload = .ok (.str (letters n)) := rfl
  obtain ⟨y, hy⟩ := accept_throws (p := cfg.platform) (s := (w, 0)) quiet hkey hnew he hx
  have hpayload : (lettersEvent n t payload).payload = some payload := rfl
  rw [← hvalid.send_eq hpayload] at hy
  rw [show (sendIn cfg (lettersEvent n t payload) quiet w).1 = .error y from hy] at hok
  cases hok

end Stores

/-! ## What a request that was answered with a success wrote -/

/-- The store with one endpoint set. -/
def putEndpoint (w : JsWorld A) (t id : String) (e : JsEndpoint) : JsWorld A :=
  w.modify t { w.tenants t with endpoints := (w.tenants t).endpoints.set id e }

/-- The request set one endpoint: to the patterns of its body, or, in a PATCH without any, to
those the endpoint had. -/
def Wrote (req : Request) (w w' : JsWorld A) : Prop :=
  ∃ t id e, w' = putEndpoint w t id e ∧
    ((written req = some e.eventTypes ∧ t ≠ "") ∨
      ∃ old, (w.tenants t).endpoints.get id = some old ∧
        e.eventTypes = (written req).getD old.eventTypes)

section Requests
variable {cfg : Config} {req : Request} {ambient : Nat → Ambient} {w : JsWorld A}

theorem refused {r : Response A} (h : 300 ≤ r.status) : ¬ r.success = true := by
  simp only [Response.success, Bool.and_eq_true, decide_eq_true_eq, not_and, Nat.not_lt]
  exact fun _ => h

/-- A success comes from the route's handler. -/
theorem handle_serves {route : Route} {r : Response A}
    (hroute : routeOf req.method.toUpper (segments cfg.basePath req.pathname) = some route)
    (hr : (respond cfg req ambient w).1 = .ok r) (hs : r.success = true) :
    ∃ tenant, tenant ≠ "" ∧ (handle cfg req : Handler A _) =
      (serve cfg tenant req route).tryCatch fun e => .pure (respondTo e) := by
  unfold respond handle at hr
  unfold handle
  split at hr
  · obtain rfl := Except.ok.inj hr
    exact absurd hs (refused (show 300 ≤ 404 by omega))
  · next hbase =>
    cases hten : cfg.resolveTenant req with
    | none =>
      rw [hten] at hr
      obtain rfl := Except.ok.inj hr
      exact absurd hs (refused (show 300 ≤ 401 by omega))
    | some tenant =>
      rw [hten] at hr
      dsimp only at hr
      split at hr
      · obtain rfl := Except.ok.inj hr
        exact absurd hs (refused (show 300 ≤ 401 by omega))
      · next hne =>
        refine ⟨tenant, hne, ?_⟩
        rw [if_neg hbase]
        simp only [hne, hroute, if_false]

theorem readJson_some {body : Json} (hbody : req.body = some body)
    (f : Json → Handler A (Response A)) : (readJson req >>= f) = f body := by
  unfold readJson
  rw [hbody]
  rfl

theorem readJson_none (hbody : req.body = none) (f : Json → Handler A (Response A)) :
    (readJson req >>= f) = .throw .syntaxError := by
  unfold readJson
  rw [hbody]
  rfl

/-- A POST is refused, or it creates an endpoint with the patterns of its body. -/
theorem post_cases (tenant : String) (req : Request) :
    (∃ e, (postEndpoint tenant req : Handler A _) = .throw e ∧
        300 ≤ (respondTo e : Response A).status) ∨
      ∃ i : JsCreate, i.tenant = tenant ∧ written req = some i.eventTypes ∧
        (postEndpoint tenant req : Handler A _) = (do
          let created ← createEndpoint i
          return { status := 201, reply := .created created.1 created.2 }) := by
  unfold postEndpoint
  cases hbody : req.body with
  | none => exact .inl ⟨.syntaxError, readJson_none hbody _, show 300 ≤ 400 by omega⟩
  | some body =>
    rw [readJson_some hbody]
    split
    · next url eventTypes hurl htypes =>
      by_cases htruthy : url.truthy = true
      · refine .inr ⟨⟨tenant, url, eventTypes, body.field "description", body.field "rateLimit"⟩,
          rfl, ?_, ?_⟩
        · unfold written
          rw [hbody, Option.bind_some, htypes]
        · rw [htruthy]
          rfl
      · rw [Bool.not_eq_true] at htruthy
        rw [htruthy]
        exact .inl ⟨_, rfl, show 300 ≤ 400 by omega⟩
    · exact .inl ⟨_, rfl, show 300 ≤ 400 by omega⟩

/-- A PATCH is refused, or it updates the endpoint its body and path name. -/
theorem patch_cases (tenant id : String) (req : Request) :
    (∃ e, (patchEndpoint tenant req id : Handler A _) = .throw e ∧
        300 ≤ (respondTo e : Response A).status) ∨
      ∃ body, req.body = some body ∧ (patchEndpoint tenant req id : Handler A _) = (do
        let endpoint ← update (merged tenant id body)
        return { status := 200, reply := .endpoint endpoint }) := by
  unfold patchEndpoint
  cases hbody : req.body with
  | none => exact .inl ⟨.syntaxError, readJson_none hbody _, show 300 ≤ 400 by omega⟩
  | some body => exact .inr ⟨body, rfl, readJson_some hbody _⟩

theorem respondTo_error (msg : String) : 300 ≤ (respondTo (.error msg) : Response A).status := by
  by_cases h : mentionsNotFound msg = true
  · simp [respondTo, h]
  · simp [respondTo, h]

/-- An update that succeeds sets the endpoint it found. -/
theorem updateEndpoint_ok {p : Platform} {tenant : String} {d d' : JsTenant A tenant}
    {endpointId : Json} {patch : JsPatch} {e : JsEndpoint}
    (h : updateEndpoint p d endpointId patch = (.ok e, d')) :
    ∃ id old, endpointId = .str id ∧ d.endpoints.get id = some old ∧
      patch.apply p old = .ok e ∧ d' = { d with endpoints := d.endpoints.set id e } := by
  unfold updateEndpoint at h
  split at h
  · next id =>
    split at h
    · cases h
    · next old hold =>
      split at h
      · cases h
      · next updated happly =>
        cases h
        exact ⟨id, old, rfl, hold, happly, rfl⟩
  · cases h

/-- The patterns after a patch: those of the body, or those the endpoint had. -/
theorem apply_eventTypes {p : Platform} {body : Json} (hbody : req.body = some body)
    {patch : JsPatch} (hpatch : patch.eventTypes = body.field "eventTypes") {old e : JsEndpoint}
    (h : patch.apply p old = .ok e) : e.eventTypes = (written req).getD old.eventTypes := by
  unfold written
  rw [hbody, Option.bind_some, ← hpatch]
  unfold JsPatch.apply at h
  cases htypes : patch.eventTypes with
  | none =>
    rw [htypes] at h
    cases h
    rfl
  | some v =>
    rw [htypes] at h
    cases v <;> cases h <;> rfl

theorem post_wrote {tenant : String} (hne : tenant ≠ "") {r : Response A}
    (hhandle : (handle cfg req : Handler A _) =
      (postEndpoint tenant req).tryCatch fun e => .pure (respondTo e))
    (hr : (respond cfg req ambient w).1 = .ok r) (hs : r.success = true) :
    Wrote req w (respond cfg req ambient w).2 := by
  unfold respond at hr ⊢
  rw [hhandle] at hr ⊢
  rcases post_cases tenant req with ⟨e, hthrow, hstatus⟩ | ⟨i, rfl, hwritten, heq⟩
  · rw [hthrow] at hr
    obtain rfl := Except.ok.inj hr
    exact absurd hs (refused hstatus)
  · rw [heq]
    exact ⟨i.tenant, (createdEndpoint (ambient 0) i).endpointId, createdEndpoint (ambient 0) i,
      rfl, .inl ⟨hwritten, hne⟩⟩

theorem exec_update_ok {p : Platform} {a : Ambient} {tenant endpointId : Json} {patch : JsPatch}
    {e : JsEndpoint} {w' : JsWorld A}
    (h : exec p a (.updateEndpoint tenant endpointId patch) w = (.ok e, w')) :
    ∃ t id old, (w.tenants t).endpoints.get id = some old ∧ patch.apply p old = .ok e ∧
      w' = putEndpoint w t id e := by
  cases tenant with
  | str t =>
    simp only [exec, Prod.mk.injEq] at h
    obtain ⟨id, old, -, hold, happly, hd⟩ := updateEndpoint_ok (Prod.ext h.1 rfl)
    exact ⟨t, id, old, hold, happly, h.2.symm.trans (congrArg (w.modify t) hd)⟩
  | _ => cases h

/-- The response to a PATCH, from what the store answered. -/
def patched : Except String JsEndpoint → Response A
  | .ok e => { status := 200, reply := .endpoint (redact e) }
  | .error msg => respondTo (.error msg)

/-- The update of a PATCH, as the response shows it. -/
theorem update_run {p : Platform} {i : UpdateInput} {ans : Except String JsEndpoint}
    {w' : JsWorld A}
    (hx : exec p (ambient 0) (.updateEndpoint i.tenant i.endpointId
      ⟨i.url, i.eventTypes, i.disabled⟩) w = (ans, w')) :
    (Prog.tryCatch (do
        let endpoint ← update i
        return { status := 200, reply := .endpoint endpoint } : Handler A (Response A))
      fun e => .pure (respondTo e)).run (execAt p ambient) (w, 0) =
      (.ok (patched ans), (w', 1)) := by
  unfold update port
  rw [bind_assoc, bind_assoc, Prog.perform_bind]
  have hexec : execAt p ambient (.updateEndpoint i.tenant i.endpointId
      ⟨i.url, i.eventTypes, i.disabled⟩) (w, 0) = (.ok ans, (w', 1)) := by
    unfold execAt
    rw [hx]
  refine (Prog.run_call_ok hexec).trans ?_
  cases ans <;> rfl

theorem patch_wrote {tenant id : String} {r : Response A}
    (hhandle : (handle cfg req : Handler A _) =
      (patchEndpoint tenant req id).tryCatch fun e => .pure (respondTo e))
    (hr : (respond cfg req ambient w).1 = .ok r) (hs : r.success = true) :
    Wrote req w (respond cfg req ambient w).2 := by
  unfold respond at hr ⊢
  rw [hhandle] at hr ⊢
  rcases patch_cases tenant id req with ⟨e, hthrow, hstatus⟩ | ⟨body, hbody, heq⟩
  · rw [hthrow] at hr
    obtain rfl := Except.ok.inj hr
    exact absurd hs (refused hstatus)
  · cases hx : exec cfg.platform (ambient 0) (.updateEndpoint (merged tenant id body).tenant
      (merged tenant id body).endpointId ⟨(merged tenant id body).url,
        (merged tenant id body).eventTypes, (merged tenant id body).disabled⟩) w with
    | mk ans w' =>
      rw [heq, update_run hx] at hr ⊢
      cases ans with
      | error msg =>
        obtain rfl := Except.ok.inj hr
        exact absurd hs (refused (respondTo_error msg))
      | ok e =>
        obtain ⟨t, key, old, hold, happly, hw'⟩ := exec_update_ok hx
        exact ⟨t, key, e, hw', .inr ⟨old, hold, apply_eventTypes hbody rfl happly⟩⟩

theorem answered_wrote (hroute : WritesEndpoint cfg req)
    (hs : succeeded (respond cfg req ambient w).1 = true) :
    Wrote req w (respond cfg req ambient w).2 := by
  obtain ⟨r, hr⟩ : ∃ r, (respond cfg req ambient w).1 = .ok r := by
    cases hr : (respond cfg req ambient w).1 with
    | ok r => exact ⟨r, rfl⟩
    | error e =>
      rw [hr] at hs
      cases hs
  rw [hr] at hs
  rcases hroute with hroute | ⟨id, hroute⟩
  · obtain ⟨tenant, hne, hhandle⟩ := handle_serves hroute hr hs
    exact post_wrote hne hhandle hr hs
  · obtain ⟨tenant, -, hhandle⟩ := handle_serves hroute hr hs
    exact patch_wrote hhandle hr hs

end Requests

/-! ## Runs -/

theorem readable_strings {α : Type} (f : α → String) (l : List α) :
    readable (l.map fun a => .str (f a)) = true := by
  induction l with
  | nil => rfl
  | cons a rest ih =>
    rw [List.map_cons, readable, ih, Bool.or_true]

/-- What a request writes is readable when the array in its body is. -/
theorem written_readable {req : Request} :
    (∀ l, written req = some l → readable l = true) ↔
      ∀ body items, req.body = some body → body.field "eventTypes" = some (.arr items) →
        readable items = true := by
  constructor
  · intro h body items hbody htypes
    refine h items ?_
    unfold written
    rw [hbody, Option.bind_some, htypes]
  · intro h l hl
    unfold written at hl
    split at hl
    · next items htypes =>
      obtain ⟨body, hbody, hfield⟩ := Option.bind_eq_some_iff.mp htypes
      rw [← Option.some.inj hl]
      exact h body items hbody hfield
    · rw [← Option.some.inj hl]
      exact readable_strings _ _
    · cases hl

section Runs
variable {cfg : Config} {w : JsWorld A} {turn : Turn}

theorem putEndpoint_get (w : JsWorld A) (t id : String) (e : JsEndpoint) (u k : String) :
    ((putEndpoint w t id e).tenants u).endpoints.get k =
      if u = t ∧ id = k then some e else (w.tenants u).endpoints.get k := by
  unfold putEndpoint
  by_cases hu : u = t
  · subst hu
    rw [modify_self]
    by_cases hk : id = k
    · simp [hk]
    · simp [hk, OMap.get_set_of_ne]
  · rw [modify_other w hu]
    simp [hu]

/-- A write keeps the store readable exactly when its patterns are. -/
theorem Wrote.legible_iff {req : Request} {w' : JsWorld A} (h : Wrote req w w')
    (hw : Legible w) : Legible w' ↔ ∀ l, written req = some l → readable l = true := by
  obtain ⟨t, id, e, rfl, hfrom⟩ := h
  have hkept : Legible (putEndpoint w t id e) ↔ readable e.eventTypes = true := by
    constructor
    · intro hl
      refine hl t e (OMap.mem_values.mpr ⟨id, ?_⟩)
      rw [putEndpoint_get, if_pos ⟨rfl, rfl⟩]
    · intro he u x hx
      obtain ⟨k, hk⟩ := OMap.mem_values.mp hx
      rw [putEndpoint_get] at hk
      split at hk
      · rw [← Option.some.inj hk]
        exact he
      · exact hw u x (OMap.mem_values.mpr ⟨k, hk⟩)
  rw [hkept]
  rcases hfrom with ⟨hwritten, -⟩ | ⟨old, hold, htypes⟩
  · simp [hwritten]
  · have hread : readable old.eventTypes = true := hw t old (OMap.mem_values.mpr ⟨id, hold⟩)
    rw [htypes]
    cases written req with
    | none => simpa using hread
    | some l => simp

theorem named_iff : Named w ↔ ∀ id, (w.tenants "").endpoints.get id = none := by
  constructor
  · intro h id
    cases hget : (w.tenants "").endpoints.get id with
    | none => rfl
    | some e =>
      have hmem : e ∈ (w.tenants "").endpoints.values := OMap.mem_values.mpr ⟨id, hget⟩
      rw [h] at hmem
      cases hmem
  · intro h
    refine List.eq_nil_iff_forall_not_mem.mpr ?_
    intro e he
    obtain ⟨id, hid⟩ := OMap.mem_values.mp he
    rw [h id] at hid
    cases hid

theorem Wrote.named {req : Request} {w' : JsWorld A} (h : Wrote req w w') (hw : Named w) :
    Named w' := by
  obtain ⟨t, id, e, rfl, hfrom⟩ := h
  rw [named_iff] at hw ⊢
  have ht : t ≠ "" := by
    rcases hfrom with ⟨-, hne⟩ | ⟨old, hold, -⟩
    · exact hne
    · intro hempty
      rw [hempty, hw id] at hold
      cases hold
  intro k
  rw [putEndpoint_get, if_neg fun h => ht h.1.symm]
  exact hw k

theorem SameEndpoints.legible {w' : JsWorld A} (h : SameEndpoints w w') (hw : Legible w) :
    Legible w' := by
  intro t e he
  rw [h t] at he
  exact hw t e he

theorem SameEndpoints.named {w' : JsWorld A} (h : SameEndpoints w w') (hw : Named w) :
    Named w' := by
  unfold Named
  rw [h ""]
  exact hw

/-- One call: the store stays readable exactly when what the call writes is. -/
theorem takeTurn_step (htext : TextOfString cfg.platform) (hn : Named w) (hl : Legible w)
    (h : Admitted cfg w turn) :
    Named (takeTurn cfg w turn) ∧ (Legible (takeTurn cfg w turn) ↔ turn.Readable) := by
  obtain ⟨call, ambient⟩ := turn
  cases call with
  | request req =>
    have hwrote : Wrote req w (respond cfg req ambient w).2 := answered_wrote h.1 h.2
    exact ⟨hwrote.named hn, (hwrote.legible_iff hl).trans written_readable⟩
  | send event =>
    obtain ⟨-, hsame⟩ := hl.send htext h ambient
    exact ⟨hsame.named hn, ⟨fun _ => trivial, fun _ => hsame.legible hl⟩⟩

theorem run_flows_iff (htext : TextOfString cfg.platform) (hroom : HasRoom cfg) {turns : List Turn}
    (hn : Named w) (hl : Legible w) (h : Along (takeTurn cfg) (Admitted cfg) w turns) :
    (∀ pre, pre <+: turns → Flows cfg (pre.foldl (takeTurn cfg) w)) ↔
      ∀ turn ∈ turns, turn.Readable := by
  induction turns generalizing w with
  | nil =>
    simp only [List.prefix_nil, List.not_mem_nil, false_imp_iff, implies_true, iff_true]
    intro pre hpre event ambient hv
    subst hpre
    exact (hl.send htext hv ambient).1
  | cons turn rest ih =>
    obtain ⟨hnamed, hstep⟩ := takeTurn_step htext hn hl h.1
    constructor
    · intro hflows x hx
      have hlegible : Legible (takeTurn cfg w turn) :=
        (hflows [turn] ⟨rest, rfl⟩).legible hnamed hroom
      rcases List.mem_cons.mp hx with rfl | hx
      · exact hstep.mp hlegible
      · refine (ih hnamed hlegible h.2).mp ?_ x hx
        intro pre hpre
        exact hflows (turn :: pre) (List.cons_prefix_cons.mpr ⟨rfl, hpre⟩)
    · intro hread pre hpre
      cases pre with
      | nil => exact fun event ambient hv => (hl.send htext hv ambient).1
      | cons first pre =>
        obtain ⟨rfl, hrest⟩ := List.cons_prefix_cons.mp hpre
        have hlegible := hstep.mpr (hread first List.mem_cons_self)
        refine (ih hnamed hlegible h.2).mpr ?_ pre hrest
        exact fun x hx => hread x (List.mem_cons_of_mem _ hx)

/-- **Events flow.** From an empty store, through any sequence of successful POST and PATCH
requests and sends, every valid event of every tenant goes through at every point, exactly
when no request wrote an array with a pattern that is no string and has no `*` before it. (A
cap that no payload meets leaves no event to stop.) -/
theorem events_flow_iff (htext : TextOfString cfg.platform) {turns : List Turn}
    (h : Along (takeTurn cfg) (Admitted cfg) (newStore : JsWorld A) turns) :
    (∀ pre, pre <+: turns → Flows cfg (pre.foldl (takeTurn cfg) (newStore : JsWorld A))) ↔
      (HasRoom cfg → ∀ turn ∈ turns, turn.Readable) := by
  by_cases hroom : HasRoom cfg
  · simp only [hroom, true_imp_iff]
    refine run_flows_iff htext hroom rfl ?_ h
    intro t e he
    cases he
  · simp only [hroom, false_imp_iff, iff_true]
    intro pre _ event ambient hv
    obtain ⟨payload, -, hsize⟩ := hv.payload
    exact absurd ⟨payload, hsize⟩ hroom

end Runs

/-! ## A readable endpoint and a malformed one -/

/-- A POST by the tenant acme, the `n`-th endpoint of the process. -/
def postTurn (n : Nat) (eventTypes : List Json) : Turn where
  call := .request {
    method := "POST"
    pathname := "/v1/endpoints"
    query := []
    headers := [("x-anyhook-tenant", "acme")]
    body := some (.obj [("url", .str "https://acme/h"), ("eventTypes", .arr eventTypes)]) }
  ambient := fun k => { quiet k with endpointCounter := n }

def paidEvent : JsEvent where
  type := .str "invoice.paid"
  tenant := "acme"
  payload := some .null
  idempotencyKey := some (.str "inv_1")

theorem paidEvent_valid : ValidEvent defaultConfig paidEvent where
  type := ⟨_, rfl, by decide⟩
  tenant := by decide
  payload := ⟨_, rfl, by decide⟩
  idempotencyKey := fun _ hkey => ⟨_, (Option.some.inj hkey).symm⟩

/-- A number behind a `*` does no harm. -/
theorem starred_number_flows :
    TextOfString plainPlatform ∧
      Along (takeTurn defaultConfig) (Admitted defaultConfig) (newStore : JsWorld Unit)
        [postTurn 1 [.str "*", .num 1], ⟨.send paidEvent, quiet⟩] ∧
      ∀ pre, pre <+: [postTurn 1 [.str "*", .num 1], ⟨.send paidEvent, quiet⟩] →
        Flows defaultConfig (pre.foldl (takeTurn defaultConfig) (newStore : JsWorld Unit)) := by
  have htext : TextOfString defaultConfig.platform := fun _ => rfl
  have hturns : Along (takeTurn defaultConfig) (Admitted defaultConfig) (newStore : JsWorld Unit)
      [postTurn 1 [.str "*", .num 1], ⟨.send paidEvent, quiet⟩] :=
    ⟨⟨.inl (by decide +kernel), by decide +kernel⟩, paidEvent_valid, trivial⟩
  refine ⟨htext, hturns, (events_flow_iff htext hturns).mpr ?_⟩
  intro _ turn hturn
  rcases List.mem_cons.mp hturn with rfl | hturn
  · exact written_readable.mp fun l hl => by cases hl; decide
  · rw [List.mem_singleton.mp hturn]
    trivial

/-- What a send threw. -/
def thrown : Except PortalError Receipt → Option String
  | .error (.error msg) => some msg
  | _ => none

/-- A number in the patterns of one endpoint is stored with a success, and from then on the
tenant's events throw. -/
theorem number_stops_events :
    Along (takeTurn defaultConfig) (Admitted defaultConfig) (newStore : JsWorld Unit)
        [postTurn 1 [.str "*"], postTurn 2 [.num 1]] ∧ ValidEvent defaultConfig paidEvent ∧
      thrown (sendIn defaultConfig paidEvent quiet
          ([postTurn 1 [.str "*"], postTurn 2 [.num 1]].foldl (takeTurn defaultConfig)
            (newStore : JsWorld Unit))).1 = some "endsWith is not a function" := by
  refine ⟨⟨⟨.inl ?_, ?_⟩, ⟨.inl ?_, ?_⟩, trivial⟩, paidEvent_valid, ?_⟩
  all_goals decide +kernel

end Anyhook.Portal
