import Anyhook.Delivery.FanoutOnce

/-! What goes over the wire. Calls of `send` and of `processMessage` run at the same time, the
transport hands a message out again when its handler threw and may duplicate it, any port may
fail, and endpoints are created, changed and deleted between any two port calls. Every POST
that is ever made carries the payload of an event that was sent, to the URL of an endpoint of
that event's tenant, signed with that endpoint's secrets, after the URL policy let it pass. -/
namespace Anyhook.Delivery
open Anyhook.Core Anyhook.Testing Anyhook.Lib.Program Anyhook.Lib.OrderedMap

/-! ## The way to the wire -/

/-- How far a delivery has come. -/
inductive Wire where
  | looking
  | found (ep : Endpoint)
  /-- The policy let the URL of the endpoint pass. -/
  | cleared (ep : Endpoint)

/-- A later copy of the message. -/
structure Copy (m x : Message) : Prop where
  tenant : x.tenant = m.tenant
  messageId : x.messageId = m.messageId
  endpointId : x.endpointId = m.endpointId
  eventType : x.eventType = m.eventType
  payload : x.payload = m.payload

theorem Copy.key {m x : Message} (h : Copy m x) : x.key = m.key :=
  Prod.ext h.tenant h.messageId

theorem Copy.trans {m x y : Message} (h : Copy m x) (h' : Copy x y) : Copy m y where
  tenant := h'.tenant.trans h.tenant
  messageId := h'.messageId.trans h.messageId
  endpointId := h'.endpointId.trans h.endpointId
  eventType := h'.eventType.trans h.eventType
  payload := h'.payload.trans h.payload

/-- The headers of a POST of `m` to `ep`. -/
def Signed (en : Engine) (m : Message) (ep : Endpoint) (headers : List (String × String)) : Prop :=
  ∃ signedAt, headers = ("content-type", "application/json") ::
    en.sign ep.secrets m.messageId m.payload signedAt

namespace Wire

def allows (en : Engine) (m : Message) (w : Wire) : Op → Prop
  | .getEndpoint t e => (t, e) = m.target
  | .check url => ∃ ep, w = .found ep ∧ ep.disabled = false ∧ url = ep.url
  | .post url body headers timeoutMs => ∃ ep, w = .cleared ep ∧ url = ep.url ∧
      body = m.payload ∧ Signed en m ep headers ∧ timeoutMs = en.timeoutMs
  | .putMessage x | .scheduleRetry x _ => Copy m x
  | .recordEvent .. | .finalizeEvent .. | .matchEndpoints .. | .transportSend _ => False
  | _ => True

/-- The policy's verdict on the URL of the endpoint. -/
def judged (v : Verdict) : Wire → Wire
  | .found ep => if v.allowed then .cleared ep else .found ep
  | w => w

def next (w : Wire) : (op : Op) → Res op → Wire
  | .getEndpoint .., some ep => .found ep
  | .check _, v => w.judged v
  | _, _ => w

end Wire

def wireMonitor (en : Engine) (m : Message) : Monitor Op Res Wire where
  allows w op := w.allows en m op
  next w op r := w.next op r

/-- An operation that is far from the wire. -/
def Quiet (m : Message) : Op → Prop
  | .putMessage x | .scheduleRetry x _ => Copy m x
  | .getEndpoint .. | .check _ | .post .. | .recordEvent .. | .finalizeEvent ..
  | .matchEndpoints .. | .transportSend _ => False
  | _ => True

section Programs
variable {d : Dialect} {en : Engine} {m : Message}

theorem quiet_obeys {α : Type} {done : Wire → α → Prop} {w : Wire} {p : Eng α}
    (hp : Prog.Only (Quiet m) p) (hd : ∀ a, done w a) : Obeys (wireMonitor en m) done w p := by
  induction p with
  | pure a => exact hd a
  | throw e => trivial
  | call op k ih =>
    obtain ⟨hop, hk⟩ := hp
    have hallowed : (wireMonitor en m).allows w op := by
      cases op <;> first | exact hop | exact absurd hop id
    refine ⟨hallowed, fun r => ?_⟩
    have hsame : (wireMonitor en m).next w op r = w := by
      cases op <;> first | rfl | exact absurd hop id
    rw [hsame]
    exact ih r (hk r)

theorem record_quiet (a : Attempt) : Prog.Only (Quiet m) (record a) :=
  ⟨trivial, fun _ => ⟨trivial, fun _ => trivial⟩⟩

theorem dlq_quiet (a : Attempt) (reason : DlqReason) : Prog.Only (Quiet m) (dlq m a reason) :=
  Prog.only_call ⟨rfl, rfl, rfl, rfl, rfl⟩ fun _ =>
    Prog.only_bind (record_quiet _) fun _ => ⟨trivial, fun _ => trivial⟩

theorem rateLimitGate_quiet (ep : Endpoint) : Prog.Only (Quiet m) (rateLimitGate d m ep) := by
  unfold rateLimitGate
  cases ep.rateLimit with
  | none => trivial
  | some rate =>
    dsimp only
    split
    · refine Prog.only_call trivial fun now => Prog.only_call trivial fun stored =>
        Prog.only_call trivial fun _ => ?_
      split
      · trivial
      · exact Prog.only_call ⟨rfl, rfl, rfl, rfl, rfl⟩ fun _ =>
          Prog.only_call ⟨rfl, rfl, rfl, rfl, rfl⟩ fun _ => trivial
    · trivial

theorem circuitGate_quiet : Prog.Only (Quiet m) (circuitGate d en m) := by
  refine Prog.only_call trivial fun stored => Prog.only_call trivial fun now => ?_
  dsimp only
  split
  · split
    · exact ⟨trivial, fun _ => trivial⟩
    · trivial
  · refine Prog.only_bind ?_ fun _ => trivial
    exact Prog.only_call ⟨rfl, rfl, rfl, rfl, rfl⟩ fun _ =>
      Prog.only_bind ((d.wakeAt_reads _).only trivial trivial) fun _ =>
        ⟨⟨rfl, rfl, rfl, rfl, rfl⟩, fun _ => trivial⟩

/-- What follows the answer of a delivery. -/
theorem outcome_quiet (circuit : CircuitRecord) (attempt : Attempt) (result : DeliveryResult) :
    Prog.Only (Quiet m) (match result.outcome with
      | .delivered => onDelivered m circuit attempt
      | .permanent => onPermanent en m circuit attempt result
      | .retryable => onRetryable d en m circuit attempt result) := by
  cases result.outcome with
  | delivered =>
    exact Prog.only_call trivial fun _ => Prog.only_call ⟨rfl, rfl, rfl, rfl, rfl⟩ fun _ =>
      record_quiet _
  | permanent => exact Prog.only_call trivial fun _ => Prog.only_call trivial fun _ => dlq_quiet _ _
  | retryable =>
    refine Prog.only_call trivial fun now => Prog.only_call trivial fun _ =>
      Prog.only_bind ((d.nextDelayMs_reads _ _ _).only trivial trivial) fun delay => ?_
    cases delay with
    | none => exact dlq_quiet _ _
    | some delay =>
      refine Prog.only_bind (record_quiet _) fun _ => Prog.only_call trivial fun _ => ?_
      exact Prog.only_call ⟨rfl, rfl, rfl, rfl, rfl⟩ fun _ =>
        ⟨⟨rfl, rfl, rfl, rfl, rfl⟩, fun _ => trivial⟩

theorem deliverWith_wire {ep : Endpoint} (hep : ep.disabled = false) :
    Obeys (wireMonitor en m) (fun _ _ => True) (.found ep) (deliverWith d en m ep) := by
  refine obeys_perform_bind.mpr ⟨⟨ep, rfl, hep, rfl⟩, fun v => ?_⟩
  cases hv : v.allowed with
  | false =>
    simp only [Bool.false_eq_true, if_false]
    trivial
  | true =>
    have hnext : (wireMonitor en m).next (.found ep) (.check ep.url) v = .cleared ep := if_pos hv
    rw [hnext]
    refine obeys_perform_bind.mpr ⟨trivial, fun signedAt => ?_⟩
    refine obeys_perform_bind.mpr ⟨trivial, fun start => ?_⟩
    refine obeys_perform_bind.mpr ⟨⟨ep, rfl, rfl, rfl, ⟨signedAt, rfl⟩, rfl⟩, fun res => ?_⟩
    exact obeys_perform_bind.mpr ⟨trivial, fun stop => trivial⟩

/-- **Every path of either engine comes to the wire this way.** -/
theorem process_wire :
    Obeys (wireMonitor en m) (fun _ _ => True) .looking (processWith d en m) := by
  have hgone : ∀ w, Obeys (wireMonitor en m) (fun _ _ => True) w (endpointGone m) := by
    intro w
    exact quiet_obeys (Prog.only_call trivial fun _ => dlq_quiet _ _) fun _ => trivial
  refine obeys_perform_bind.mpr ⟨rfl, fun endpoint => ?_⟩
  cases endpoint with
  | none => exact hgone _
  | some ep =>
    dsimp only
    split
    · exact hgone _
    · rename_i hdisabled
      rw [obeys_bind]
      refine quiet_obeys (rateLimitGate_quiet ep) fun throttled => ?_
      split
      · trivial
      · rw [obeys_bind]
        refine quiet_obeys circuitGate_quiet fun circuit => ?_
        cases circuit with
        | none => trivial
        | some circuit =>
          refine obeys_perform_bind.mpr ⟨⟨rfl, rfl, rfl, rfl, rfl⟩, fun _ => ?_⟩
          rw [obeys_bind]
          refine (deliverWith_wire (Bool.eq_false_iff.mpr hdisabled)).mono ?_
          intro w result _
          exact obeys_perform_bind.mpr ⟨trivial, fun ts =>
            quiet_obeys (outcome_quiet circuit _ result) fun _ => trivial⟩

end Programs

/-! ## The service -/

/-- The state of a call, with what it is about. -/
inductive CallView where
  | sending (event : SendEvent) (key : String) (stage : Stage)
  | delivering (m : Message) (wire : Wire)

def callMonitor (en : Engine) : Monitor Op Res CallView where
  allows
    | .sending event key s, op => s.allows event key op
    | .delivering m w, op => w.allows en m op
  next
    | .sending event key s, op, r => .sending event key (s.next op r)
    | .delivering m w, op, r => .delivering m (w.next op r)

/-- `cleared` holds the URLs that the policy let pass in this call. -/
structure Call where
  task : Task
  rest : Eng (Option Receipt)
  view : CallView
  cleared : List String

/-- What has happened so far: the events that were sent, every record that an endpoint ever
had, and the POSTs, each with the URLs that the policy had let pass in its own call. -/
structure Trail where
  sent : List SendEvent
  stored : List Endpoint
  posted : List (Post × List String)

/-- A call that had `cleared` made the POSTs that are new in `w'`. -/
def Trail.posting (t : Trail) (cleared : List String) (w w' : World) : Trail :=
  { t with posted := t.posted ++ (w'.posts.drop w.posts.length).map fun post => (post, cleared) }

/-- Calls at work over one runtime. -/
structure Service (ι : Type) where
  world : World
  running : ι → Option Call
  trail : Trail

def Service.start (ι : Type) : Service ι where
  world := .empty
  running _ := none
  trail := { sent := [], stored := [], posted := [] }

inductive Occurrence (ι : Type) where
  | send (i : ι) (lang : Lang) (event : SendEvent)
  /-- The `k`-th queued message is handed to call `i`. -/
  | take (i : ι) (k : Nat) (lang : Lang)
  /-- Call `i` makes its next port call, which may fail. -/
  | call (i : ι) (inp : Input)
  /-- Call `i` has ended. A message whose handler threw is queued again. -/
  | finish (i : ι)
  | duplicate (k : Nat)
  | change (c : Change)

/-- The endpoint a change is about. -/
def editedBy : Change → Option (String × String)
  | .createEndpoint e endpointId _ _ => some (e.tenant, endpointId)
  | .updateEndpoint t id _ => some (t, id)
  | .rotateSecret t id _ => some (t, id)
  | .deleteEndpoint t id => some (t, id)
  | .advance _ => none
  | .dequeue => none

/-- The URL a port call had cleared. -/
def clearedBy : (op : Op) → Res op → List String
  | .check url, v => if v.allowed then [url] else []
  | _, _ => []

namespace Service
variable {ι : Type} [DecidableEq ι] (en : Engine) (s : Service ι)

def put (i : ι) (call : Option Call) : Service ι :=
  { s with running := Function.update s.running i call }

def send (i : ι) (lang : Lang) (event : SendEvent) : Service ι :=
  match s.running i with
  | none => { s with
      running := Function.update s.running i (some {
        task := .send lang en event
        rest := (Task.send lang en event).program
        view := .sending event (lang.keyOf en event) .begun
        cleared := [] })
      trail := { s.trail with sent := event :: s.trail.sent } }
  | some _ => s

def take (i : ι) (k : Nat) (lang : Lang) : Service ι :=
  match s.running i, s.world.queue[k]? with
  | none, some m => { s with
      world := { s.world with queue := s.world.queue.eraseIdx k }
      running := Function.update s.running i (some {
        task := .process en { lang := lang, message := m }
        rest := (Task.process en { lang := lang, message := m }).program
        view := .delivering m .looking
        cleared := [] }) }
  | _, _ => s

def call (i : ι) (inp : Input) : Service ι :=
  match s.running i with
  | some { task := task, rest := .call op k, view := view, cleared := cleared } =>
    match execFault task.self inp.1 inp.2 op s.world with
    | (.ok r, w) => {
        world := w
        running := Function.update s.running i (some {
          task := task, rest := k r, view := (callMonitor en).next view op r
          cleared := clearedBy op r ++ cleared })
        trail := s.trail.posting cleared s.world w }
    | (.error x, w) => {
        world := w
        running := Function.update s.running i (some {
          task := task, rest := .throw x, view := view, cleared := cleared })
        trail := s.trail.posting cleared s.world w }
  | _ => s

def finish (i : ι) : Service ι :=
  match s.running i with
  | some { task := _, rest := .pure _, view := _, cleared := _ } => s.put i none
  | some { task := task, rest := .throw _, view := _, cleared := _ } => { s.put i none with
      world := { s.world with queue := s.world.queue ++ task.self.toList } }
  | _ => s

def duplicate (k : Nat) : Service ι :=
  { s with world := { s.world with queue := s.world.queue ++ s.world.queue[k]?.toList } }

def change (c : Change) : Service ι :=
  { s with
    world := c.apply s.world
    trail := { s.trail with stored := ((editedBy c).bind fun target =>
      (c.apply s.world).store.getEndpoint target.1 target.2).toList ++ s.trail.stored } }

def step : Occurrence ι → Service ι
  | .send i lang event => s.send en i lang event
  | .take i k lang => s.take en i k lang
  | .call i inp => s.call en i inp
  | .finish i => s.finish i
  | .duplicate k => s.duplicate k
  | .change c => s.change c

def run (hs : List (Occurrence ι)) : Service ι := hs.foldl (Service.step en) s

end Service

/-! ## What warrants a POST -/

/-- Made for an event that was sent, and for an endpoint of its tenant that wanted it. -/
def Trail.Made (t : Trail) (m : Message) : Prop :=
  ∃ event ∈ t.sent, ∃ ep ∈ t.stored, ep.tenant = event.tenant ∧ wants event.type ep = true ∧
    m.tenant = event.tenant ∧ m.endpointId = ep.endpointId ∧ m.eventType = event.type ∧
    m.payload = event.payload

/-- A record that the endpoint of the message had. -/
def Trail.Of (t : Trail) (m : Message) (ep : Endpoint) : Prop :=
  ep ∈ t.stored ∧ ep.tenant = m.tenant ∧ ep.endpointId = m.endpointId

/-- The POST is one of a message that was made for it, to its endpoint, by a call in which the
policy had let `cleared` pass. -/
def Warranted (en : Engine) (t : Trail) (cleared : List String) (post : Post) : Prop :=
  ∃ m ep, post.message = some m ∧ t.Made m ∧ t.Of m ep ∧ ep.disabled = false ∧
    post.url = ep.url ∧ ep.url ∈ cleared ∧ post.body = m.payload ∧
    Signed en m ep post.headers ∧ post.timeoutMs = en.timeoutMs

/-- What a call relies on. -/
def CallView.Backed (t : Trail) (cleared : List String) : CallView → Prop
  | .sending event _ stage => event ∈ t.sent ∧
      ∀ eventId eps sent, stage = .matched eventId eps sent →
        ∀ ep ∈ eps, ep ∈ t.stored ∧ ep.tenant = event.tenant
  | .delivering m wire => t.Made m ∧
      (∀ ep, wire = .found ep → t.Of m ep) ∧
      ∀ ep, wire = .cleared ep → t.Of m ep ∧ ep.disabled = false ∧ ep.url ∈ cleared

/-- Whom the port calls of a call are made for. -/
def CallView.self : CallView → Option Message
  | .sending .. => none
  | .delivering m _ => some m

structure CallOk (en : Engine) (t : Trail) (call : Call) : Prop where
  obeys : Obeys (callMonitor en) (fun _ _ => True) call.view call.rest
  backed : call.view.Backed t call.cleared
  self : call.task.self = call.view.self

/-! ## A trail grows -/

structure Trail.Grows (t t' : Trail) : Prop where
  sent : t.sent ⊆ t'.sent
  stored : t.stored ⊆ t'.stored

theorem Trail.Grows.refl (t : Trail) : t.Grows t := ⟨fun _ h => h, fun _ h => h⟩

theorem Trail.posting_grows (t : Trail) (cleared : List String) (w w' : World) :
    t.Grows (t.posting cleared w w') := ⟨fun _ h => h, fun _ h => h⟩

section Grows
variable {en : Engine} {t t' : Trail} {cleared : List String}

theorem Trail.Made.grows {m : Message} (h : t.Made m) (hg : t.Grows t') : t'.Made m := by
  obtain ⟨event, hevent, ep, hep, hrest⟩ := h
  exact ⟨event, hg.sent hevent, ep, hg.stored hep, hrest⟩

theorem Trail.Made.copy {m x : Message} (h : t.Made m) (hx : Copy m x) : t.Made x := by
  obtain ⟨event, hevent, ep, hep, htenant, hwants, hm, hid, htype, hpayload⟩ := h
  exact ⟨event, hevent, ep, hep, htenant, hwants, hx.tenant.trans hm, hx.endpointId.trans hid,
    hx.eventType.trans htype, hx.payload.trans hpayload⟩

theorem Trail.Of.grows {m : Message} {ep : Endpoint} (h : t.Of m ep) (hg : t.Grows t') :
    t'.Of m ep := ⟨hg.stored h.1, h.2⟩

theorem Warranted.grows {post : Post} (h : Warranted en t cleared post) (hg : t.Grows t') :
    Warranted en t' cleared post := by
  obtain ⟨m, ep, hmessage, hmade, hof, hrest⟩ := h
  exact ⟨m, ep, hmessage, hmade.grows hg, hof.grows hg, hrest⟩

theorem CallView.Backed.grows {view : CallView} (h : view.Backed t cleared) (hg : t.Grows t') :
    view.Backed t' cleared := by
  cases view with
  | sending event key stage =>
    refine ⟨hg.sent h.1, ?_⟩
    intro eventId eps sent hstage ep hep
    obtain ⟨hstored, htenant⟩ := h.2 eventId eps sent hstage ep hep
    exact ⟨hg.stored hstored, htenant⟩
  | delivering m wire =>
    refine ⟨h.1.grows hg, fun ep hep => (h.2.1 ep hep).grows hg, ?_⟩
    intro ep hep
    obtain ⟨hof, hrest⟩ := h.2.2 ep hep
    exact ⟨hof.grows hg, hrest⟩

theorem CallOk.grows {call : Call} (h : CallOk en t call) (hg : t.Grows t') : CallOk en t' call :=
  ⟨h.obeys, h.backed.grows hg, h.self⟩

end Grows

/-! ## One port call -/

/-- The runtime holds nothing that the trail does not warrant. -/
structure Clean (t : Trail) (w : World) : Prop where
  endpoints : ∀ tenant e ep, w.store.getEndpoint tenant e = some ep →
    ep ∈ t.stored ∧ ep.tenant = tenant
  queue : ∀ m ∈ w.queue, t.Made m
  pending : ∀ p ∈ w.pending, t.Made p.2

section PortCall
variable {en : Engine} {t : Trail} {view : CallView} {op : Op} {w : World} {cleared : List String}

theorem made_of_next {event : SendEvent} {eventId : String} {eps : List Endpoint}
    {sent : List Message} {m : Message} (hevent : event ∈ t.sent)
    (heps : ∀ ep ∈ eps, ep ∈ t.stored ∧ ep.tenant = event.tenant)
    (hnext : IsNext event eventId eps sent m) : t.Made m := by
  obtain ⟨ep, hget, now, messageId, rfl⟩ := hnext
  obtain ⟨hmem, hwants⟩ := List.mem_filter.mp (List.mem_of_getElem? hget)
  obtain ⟨hstored, htenant⟩ := heps ep hmem
  exact ⟨event, hevent, ep, hstored, htenant, hwants, rfl, rfl, rfl, rfl⟩

/-- What an allowed port call leaves is warranted, whether it is answered or not. -/
theorem Clean.exec (h : Clean t w) (hbacked : view.Backed t cleared)
    (hop : (callMonitor en).allows view op) (a : Answer) :
    Clean t (exec view.self a op w).2 where
  endpoints tenant e ep hep := by
    rw [exec_getEndpoint] at hep
    exact h.endpoints tenant e ep hep
  queue m hm := by
    rw [exec_queue] at hm
    cases op with
    | transportSend x =>
      cases view with
      | delivering y wire => exact absurd hop id
      | sending event key stage =>
        rcases List.mem_append.mp hm with hold | hnew
        · exact h.queue m hold
        · obtain ⟨eventId, eps, sent, hstage, hnext⟩ := hop
          obtain rfl := List.mem_singleton.mp hnew
          exact made_of_next hbacked.1 (hbacked.2 eventId eps sent hstage) hnext
    | _ => exact h.queue m hm
  pending p hp := by
    rw [exec_pending] at hp
    cases op with
    | scheduleRetry x atMs =>
      cases view with
      | sending event key stage => exact absurd hop id
      | delivering y wire =>
        rcases List.mem_append.mp hp with hold | hnew
        · exact h.pending p hold
        · obtain rfl := List.mem_singleton.mp hnew
          exact hbacked.1.copy hop
    | _ => exact h.pending p hp

/-- The POST of an allowed port call is warranted by what its own call had cleared. -/
theorem posts_warranted (hbacked : view.Backed t cleared)
    (hop : (callMonitor en).allows view op) (a : Answer) :
    ∃ posts, (exec view.self a op w).2.posts = w.posts ++ posts ∧
      ∀ post ∈ posts, Warranted en t cleared post := by
  rw [exec_posts]
  cases op with
  | post url body headers timeoutMs =>
    cases view with
    | sending event key stage => exact absurd hop id
    | delivering y wire =>
      obtain ⟨ep, hwire, hurl, hbody, hsigned, htimeout⟩ := hop
      obtain ⟨hof, hdisabled, hcleared⟩ := hbacked.2.2 ep hwire
      refine ⟨_, rfl, fun post hpost => ?_⟩
      obtain rfl := List.mem_singleton.mp hpost
      exact ⟨y, ep, rfl, hbacked.1, hof, hdisabled, hurl, hcleared, hbody, hsigned, htimeout⟩
  | _ => exact ⟨[], (List.append_nil _).symm, fun post hpost => by cases hpost⟩

variable (en) in
theorem self_next (view : CallView) (op : Op) (r : Res op) :
    ((callMonitor en).next view op r).self = view.self := by
  cases view <;> rfl

theorem Clean.grows {t' : Trail} (h : Clean t w) (hg : t.Grows t') : Clean t' w where
  endpoints tenant e ep hep := by
    obtain ⟨hstored, htenant⟩ := h.endpoints tenant e ep hep
    exact ⟨hg.stored hstored, htenant⟩
  queue m hm := (h.queue m hm).grows hg
  pending p hp := (h.pending p hp).grows hg

/-- What a call has cleared it keeps. -/
theorem CallView.Backed.clears (h : view.Backed t cleared) (urls : List String) :
    view.Backed t (urls ++ cleared) := by
  cases view with
  | sending event key stage => exact h
  | delivering m wire =>
    refine ⟨h.1, h.2.1, fun ep hep => ?_⟩
    obtain ⟨hof, hdisabled, hcleared⟩ := h.2.2 ep hep
    exact ⟨hof, hdisabled, List.mem_append_right _ hcleared⟩

/-- A call goes on with what the runtime told it. -/
theorem CallView.Backed.next (h : Clean t w) (hbacked : view.Backed t cleared)
    (hop : (callMonitor en).allows view op) (a : Answer) :
    ((callMonitor en).next view op (Testing.exec view.self a op w).1).Backed t
      (clearedBy op (Testing.exec view.self a op w).1 ++ cleared) := by
  have hgrown := hbacked.clears (clearedBy op (Testing.exec view.self a op w).1)
  cases view with
  | sending event key stage =>
    refine ⟨hgrown.1, ?_⟩
    intro eventId eps sent hstage
    cases op with
    | matchEndpoints tenant type =>
      obtain ⟨⟨id, rfl⟩, rfl, rfl⟩ := hop
      cases hstage
      intro ep hep
      obtain ⟨e, hget⟩ := OMap.mem_values.mp (List.mem_filter.mp hep).1
      exact h.endpoints event.tenant e ep hget
    | recordEvent tenant eventId' key' =>
      dsimp only [callMonitor, Stage.next] at hstage
      split at hstage <;> cases hstage
    | transportSend m =>
      cases stage with
      | matched id eps' sent' =>
        cases hstage
        exact hbacked.2 eventId eps sent' rfl
      | _ => cases hstage
    | finalizeEvent tenant key' id n =>
      cases stage with
      | matched id eps' sent' => cases hstage
      | _ => cases hstage
    | _ => exact hbacked.2 eventId eps sent hstage
  | delivering m wire =>
    cases op with
    | getEndpoint tenant e =>
      cases hep : w.store.getEndpoint tenant e with
      | none =>
        have hanswer : (Testing.exec (CallView.delivering m wire).self a (.getEndpoint tenant e)
          w).1 = none := hep
        rw [hanswer] at hgrown ⊢
        exact hgrown
      | some ep =>
        have hanswer : (Testing.exec (CallView.delivering m wire).self a (.getEndpoint tenant e)
          w).1 = some ep := hep
        have hof : t.Of m ep := by
          obtain ⟨hstored, htenant⟩ := h.endpoints tenant e ep hep
          obtain ⟨rfl, rfl⟩ := Prod.mk.inj hop
          exact ⟨hstored, htenant, KMap.key_of_get hep⟩
        rw [hanswer] at hgrown ⊢
        refine ⟨hgrown.1, ?_, ?_⟩
        · intro ep' heq
          cases heq
          exact hof
        · intro ep' heq
          cases heq
    | check url =>
      obtain ⟨ep, rfl, hdisabled, rfl⟩ := hop
      refine ⟨hgrown.1, ?_, ?_⟩
      · intro ep' heq
        dsimp only [Wire.next, Wire.judged] at heq
        split at heq
        · cases heq
        · cases heq
          exact hbacked.2.1 ep rfl
      · intro ep' heq
        dsimp only [Wire.next, Wire.judged] at heq
        split at heq
        · rename_i hallowed
          cases heq
          have hurl : clearedBy (.check ep.url) (Testing.exec (some m) a (.check ep.url) w).1 =
            [ep.url] := if_pos hallowed
          refine ⟨hbacked.2.1 ep rfl, hdisabled, List.mem_append_left _ ?_⟩
          exact hurl.symm ▸ List.mem_singleton.mpr rfl
        · cases heq
    | _ => exact hgrown

end PortCall

/-! ## Whole runs -/

structure Traced (en : Engine) {ι : Type} (s : Service ι) : Prop where
  clean : Clean s.trail s.world
  posts : s.trail.posted.map Prod.fst = s.world.posts
  posted : ∀ p ∈ s.trail.posted, Warranted en s.trail p.2 p.1
  running : ∀ i call, s.running i = some call → CallOk en s.trail call

section Runs
variable {ι : Type} [DecidableEq ι] {en : Engine} {s : Service ι}

omit [DecidableEq ι] in
theorem traced_start (en : Engine) : Traced en (Service.start ι) where
  clean := {
    endpoints := fun tenant e ep h => by cases h
    queue := fun m hm => by cases hm
    pending := fun p hp => by cases hp }
  posts := rfl
  posted p hp := by cases hp
  running i call h := by cases h

/-- The trail has grown, and one slot holds another call. -/
theorem Traced.slot (h : Traced en s) {w : World} {t : Trail} {i : ι} {call : Option Call}
    {cleared : List String} {posts : List Post} (hclean : Clean t w) (hgrows : s.trail.Grows t)
    (hposts : w.posts = s.world.posts ++ posts)
    (hposted : t.posted = s.trail.posted ++ posts.map fun post => (post, cleared))
    (hwarranted : ∀ post ∈ posts, Warranted en t cleared post)
    (hcall : ∀ c, call = some c → CallOk en t c) :
    Traced en { s with world := w, running := Function.update s.running i call, trail := t } where
  clean := hclean
  posts := by
    dsimp only
    rw [hposted, hposts, List.map_append, h.posts, List.map_map]
    exact congrArg _ (List.map_id _)
  posted p hp := by
    dsimp only at hp
    rw [hposted] at hp
    rcases List.mem_append.mp hp with hold | hnew
    · exact (h.posted p hold).grows hgrows
    · obtain ⟨post, hpost, rfl⟩ := List.mem_map.mp hnew
      exact hwarranted post hpost
  running j c hc := by
    by_cases hj : j = i
    · subst hj
      exact hcall c ((Function.update_self j call s.running).symm.trans hc)
    · have hother : s.running j = some c := (Function.update_of_ne hj call s.running).symm.trans hc
      exact (h.running j c hother).grows hgrows

/-- The same for a step that makes no POST. -/
theorem Traced.still (h : Traced en s) {w : World} {t : Trail} {i : ι} {call : Option Call}
    (hclean : Clean t w) (hgrows : s.trail.Grows t) (hposts : w.posts = s.world.posts)
    (hposted : t.posted = s.trail.posted) (hcall : ∀ c, call = some c → CallOk en t c) :
    Traced en { s with world := w, running := Function.update s.running i call, trail := t } := by
  have hposts' : w.posts = s.world.posts ++ [] := hposts.trans (List.append_nil _).symm
  have hposted' : t.posted = s.trail.posted ++ ([] : List Post).map fun post => (post, []) :=
    hposted.trans (List.append_nil _).symm
  exact h.slot hclean hgrows hposts' hposted' (fun _ hpost => by cases hpost) hcall

omit [DecidableEq ι] in
theorem Clean.queued {t : Trail} {w : World} (h : Clean t w) {queue : List Message}
    (hqueue : ∀ m ∈ queue, t.Made m) : Clean t { w with queue := queue } :=
  ⟨h.endpoints, hqueue, h.pending⟩

omit [DecidableEq ι] in
theorem obeys_sending {event : SendEvent} {key : String} {stage : Stage} {p : Eng Receipt}
    {done : Stage → Receipt → Prop} (h : Obeys (claimMonitor event key) done stage p) :
    Obeys (callMonitor en) (fun _ _ => True) (.sending event key stage) (some <$> p) := by
  induction p generalizing stage with
  | pure receipt => trivial
  | throw e => trivial
  | call op k ih => exact ⟨h.1, fun r => ih r (h.2 r)⟩

omit [DecidableEq ι] in
theorem obeys_delivering {m : Message} {wire : Wire} {p : Eng Unit} {done : Wire → Unit → Prop}
    (h : Obeys (wireMonitor en m) done wire p) :
    Obeys (callMonitor en) (fun _ _ => True) (.delivering m wire)
      ((fun _ => (none : Option Receipt)) <$> p) := by
  induction p generalizing wire with
  | pure u => trivial
  | throw e => trivial
  | call op k ih => exact ⟨h.1, fun r => ih r (h.2 r)⟩

theorem Traced.send (h : Traced en s) (i : ι) (lang : Lang) (event : SendEvent) :
    Traced en (s.send en i lang event) := by
  unfold Service.send
  split
  · have hgrows : s.trail.Grows { s.trail with sent := event :: s.trail.sent } :=
      ⟨fun _ hx => List.mem_cons_of_mem event hx, fun _ hx => hx⟩
    refine h.still (h.clean.grows hgrows) hgrows rfl rfl ?_
    intro c hc
    cases hc
    exact ⟨obeys_sending (send_claim lang en event),
      ⟨List.mem_cons_self, fun _ _ _ hstage => by cases hstage⟩, rfl⟩
  · exact h

theorem Traced.take (h : Traced en s) (i : ι) (k : Nat) (lang : Lang) :
    Traced en (s.take en i k lang) := by
  unfold Service.take
  split
  · rename_i m _ hget
    have hmade : s.trail.Made m := h.clean.queue m (List.mem_of_getElem? hget)
    refine h.still (h.clean.queued fun x hx => ?_) (.refl s.trail) rfl rfl ?_
    · exact h.clean.queue x (List.mem_of_mem_eraseIdx hx)
    · intro c hc
      cases hc
      refine ⟨?_, ⟨hmade, ?_, ?_⟩, rfl⟩
      · dsimp only [Task.program]
        rw [Job.process_eq]
        exact obeys_delivering process_wire
      · intro ep heq
        cases heq
      · intro ep heq
        cases heq
  · exact h

/-- The trail after a port call that took effect notes its POST, if it made one. -/
theorem posting_eq {t : Trail} {cleared : List String} {w w' : World} {posts : List Post}
    (h : w'.posts = w.posts ++ posts) :
    (t.posting cleared w w').posted = t.posted ++ posts.map fun post => (post, cleared) := by
  unfold Trail.posting
  dsimp only
  rw [h, List.drop_left]

theorem Traced.call (h : Traced en s) (i : ι) (inp : Input) : Traced en (s.call en i inp) := by
  unfold Service.call
  split
  · rename_i task op k view cleared hrunning
    obtain ⟨hobeys, hbacked, hself⟩ := h.running i _ hrunning
    obtain ⟨hop, hrest⟩ := hobeys
    have hexec := h.clean.exec hbacked hop inp.1
    obtain ⟨posts, hposts, hwarranted⟩ := posts_warranted (w := s.world) hbacked hop inp.1
    have hthrow : ∀ t : Trail, s.trail.Grows t → ∀ x, CallOk en t {
        task := task, rest := .throw x, view := view, cleared := cleared } :=
      fun t hg x => ⟨trivial, hbacked.grows hg, hself⟩
    have hself' : task.self = view.self := hself
    unfold execFault
    cases inp.2 with
    | none =>
      rw [hself']
      have hgrows := s.trail.posting_grows cleared s.world (exec view.self inp.1 op s.world).2
      refine h.slot (hexec.grows hgrows) hgrows hposts (posting_eq hposts)
        (fun post hpost => (hwarranted post hpost).grows hgrows) ?_
      intro c hc
      cases hc
      have hsame := self_next en view op (exec view.self inp.1 op s.world).1
      exact ⟨hrest _, (hbacked.next h.clean hop inp.1).grows hgrows, hself'.trans hsame.symm⟩
    | before =>
      have hnone : s.world.posts = s.world.posts ++ [] := (List.append_nil _).symm
      have hgrows := s.trail.posting_grows cleared s.world s.world
      refine h.still (h.clean.grows hgrows) hgrows rfl
        ((posting_eq hnone).trans (List.append_nil _)) ?_
      intro c hc
      cases hc
      exact hthrow _ hgrows _
    | after =>
      rw [hself']
      have hgrows := s.trail.posting_grows cleared s.world (exec view.self inp.1 op s.world).2
      refine h.slot (hexec.grows hgrows) hgrows hposts (posting_eq hposts)
        (fun post hpost => (hwarranted post hpost).grows hgrows) ?_
      intro c hc
      cases hc
      exact hthrow _ hgrows _
  · exact h

theorem Traced.finish (h : Traced en s) (i : ι) : Traced en (s.finish i) := by
  unfold Service.finish
  split
  · exact h.still h.clean (.refl s.trail) rfl rfl fun c hc => by cases hc
  · rename_i task _ view cleared hrunning
    obtain ⟨-, hbacked, hself⟩ := h.running i _ hrunning
    refine h.still (h.clean.queued fun m hm => ?_) (.refl s.trail) rfl rfl fun c hc => by cases hc
    rcases List.mem_append.mp hm with hold | hnew
    · exact h.clean.queue m hold
    · have hself' : task.self = view.self := hself
      rw [hself', Option.mem_toList] at hnew
      cases view with
      | sending event key stage => cases hnew
      | delivering y wire =>
        cases hnew
        exact hbacked.1
  · exact h

omit [DecidableEq ι] in
theorem Traced.duplicate (h : Traced en s) (k : Nat) : Traced en (s.duplicate k) where
  clean := by
    refine h.clean.queued fun m hm => ?_
    rcases List.mem_append.mp hm with hold | hnew
    · exact h.clean.queue m hold
    · exact h.clean.queue m (List.mem_of_getElem? (Option.mem_toList.mp hnew))
  posts := h.posts
  posted := h.posted
  running := h.running

omit [DecidableEq ι] in
/-- What a write of one endpoint leaves. -/
theorem getEndpoint_set {store : MemoryStateStore} {u id t e : String} {v ep : Endpoint}
    (hv : v.endpointId = id)
    (h : (store.modify u fun d => { d with
      endpoints := d.endpoints.set id v hv }).getEndpoint t e = some ep) :
    store.getEndpoint t e = some ep ∨ u = t ∧ id = e ∧ v = ep := by
  unfold MemoryStateStore.getEndpoint at h
  rw [modify_tenants] at h
  split at h
  · rename_i hu
    have hget := (OMap.get_set (store.tenants t).endpoints.toOMap id e v).symm.trans h
    split at hget
    · rename_i hid
      exact .inr ⟨Option.some.inj hu, hid, Option.some.inj hget⟩
    · exact .inl hget
  · exact .inl h

omit [DecidableEq ι] in
/-- What is stored after a change was there before, or is the changed record. -/
theorem change_getEndpoint {w : World} {c : Change} {t e : String} {ep : Endpoint}
    (h : (c.apply w).store.getEndpoint t e = some ep) :
    w.store.getEndpoint t e = some ep ∨ editedBy c = some (t, e) ∧
      (ep.tenant = t ∨ ∃ old, w.store.getEndpoint t e = some old ∧ ep.tenant = old.tenant) := by
  cases c with
  | createEndpoint input id secret now =>
    rcases getEndpoint_set (v := input.endpoint id secret now) rfl h with hold | ⟨rfl, rfl, rfl⟩
    · exact .inl hold
    · exact .inr ⟨rfl, .inl rfl⟩
  | updateEndpoint u id patch =>
    simp only [Change.apply, MemoryStateStore.updateEndpoint] at h
    split at h
    · exact .inl h
    · rename_i existing hexisting
      rcases getEndpoint_set (patch.apply_key hexisting) h with hold | ⟨rfl, rfl, rfl⟩
      · exact .inl hold
      · exact .inr ⟨rfl, .inr ⟨existing, hexisting, rfl⟩⟩
  | rotateSecret u id secret =>
    simp only [Change.apply, MemoryStateStore.rotateSecret] at h
    split at h
    · exact .inl h
    · rename_i existing hexisting
      rcases getEndpoint_set (MemoryStateStore.rotated_key secret hexisting) h with
        hold | ⟨rfl, rfl, rfl⟩
      · exact .inl hold
      · exact .inr ⟨rfl, .inr ⟨existing, hexisting, rfl⟩⟩
  | deleteEndpoint u id =>
    left
    unfold MemoryStateStore.getEndpoint Change.apply MemoryStateStore.deleteEndpoint at h
    rw [modify_tenants] at h
    split at h
    · have hget := (OMap.get_delete (w.store.tenants t).endpoints.toOMap id e).symm.trans h
      split at hget
      · cases hget
      · exact hget
    · exact h
  | advance now => exact .inl h
  | dequeue => exact .inl h

omit [DecidableEq ι] in
theorem change_queue (w : World) (c : Change) {m : Message} (h : m ∈ (c.apply w).queue) :
    m ∈ w.queue ∨ ∃ p ∈ w.pending, p.2 = m := by
  cases c with
  | advance now =>
    rcases List.mem_append.mp h with hold | hdue
    · exact .inl hold
    · obtain ⟨p, hp, rfl⟩ := List.mem_map.mp hdue
      exact .inr ⟨p, List.mem_of_mem_filter hp, rfl⟩
  | dequeue => exact .inl (List.mem_of_mem_tail h)
  | _ => exact .inl h

omit [DecidableEq ι] in
theorem Traced.change (h : Traced en s) (c : Change) : Traced en (s.change c) := by
  have hgrows : s.trail.Grows (s.change c).trail :=
    ⟨fun _ hx => hx, fun _ hx => List.mem_append_right _ hx⟩
  have hposts : (c.apply s.world).posts = s.world.posts := by
    cases c <;> rfl
  refine ⟨⟨?_, ?_, ?_⟩, h.posts.trans hposts.symm, fun p hp => (h.posted p hp).grows hgrows,
    fun i call hcall => (h.running i call hcall).grows hgrows⟩
  · intro t e ep hep
    rcases change_getEndpoint hep with hold | ⟨hedited, htenant⟩
    · obtain ⟨hstored, htenant⟩ := h.clean.endpoints t e ep hold
      exact ⟨hgrows.stored hstored, htenant⟩
    · refine ⟨List.mem_append_left _ ?_, ?_⟩
      · rw [hedited, Option.bind_some, Option.mem_toList]
        exact hep
      · rcases htenant with htenant | ⟨old, hold, hsame⟩
        · exact htenant
        · exact hsame.trans (h.clean.endpoints t e old hold).2
  · intro m hm
    rcases change_queue s.world c hm with hold | ⟨p, hp, rfl⟩
    · exact (h.clean.queue m hold).grows hgrows
    · exact (h.clean.pending p hp).grows hgrows
  · intro p hp
    have hold : p ∈ s.world.pending := by
      cases c with
      | advance now => exact List.mem_of_mem_filter hp
      | _ => exact hp
    exact (h.clean.pending p hold).grows hgrows

theorem Traced.step (h : Traced en s) (x : Occurrence ι) : Traced en (s.step en x) := by
  cases x with
  | send i lang event => exact h.send i lang event
  | take i k lang => exact h.take i k lang
  | call i inp => exact h.call i inp
  | finish i => exact h.finish i
  | duplicate k => exact h.duplicate k
  | change c => exact h.change c

theorem Traced.run (h : Traced en s) (xs : List (Occurrence ι)) : Traced en (s.run en xs) := by
  unfold Service.run
  induction xs generalizing s with
  | nil => exact h
  | cons x xs ih => exact ih (h.step x)

end Runs

/-- **Every POST is warranted**, in every run of the service: however calls interleave, fail and
are repeated and endpoints change, the POST carries the payload of an event that was sent, for
an endpoint of the event's tenant that wanted it; it goes to a URL that endpoint had while it
was enabled and that the policy let pass in the same call, and is signed with the secrets it had
then. The trail notes exactly the POSTs that were made. -/
theorem every_post_warranted {ι : Type} [DecidableEq ι] (en : Engine) (xs : List (Occurrence ι)) :
    let s := (Service.start ι).run en xs
    s.trail.posted.map Prod.fst = s.world.posts ∧
      ∀ p ∈ s.trail.posted, Warranted en s.trail p.2 p.1 :=
  ⟨((traced_start en).run xs).posts, ((traced_start en).run xs).posted⟩

/-- An endpoint is created, an event is sent and its message is delivered. -/
def orderDelivered : List (Occurrence (Fin 1)) :=
  let call := Occurrence.call (0 : Fin 1) (answering 0 (.response 200 "" none), .none)
  [.change (.createEndpoint anyEvent "ep_1" "s" 0), .send 0 .ts orderCreated] ++
    List.replicate 80 call ++ [.finish 0, .take 0 0 .ts] ++ List.replicate 20 call

theorem orderDelivered_warranted :
    let s := (Service.start (Fin 1)).run (plainEngine 5) orderDelivered
    ∃ p ∈ s.trail.posted, p.1.url = "https://a/h" ∧ p.1.body = "1" ∧ p.2 = ["https://a/h"] ∧
      Warranted (plainEngine 5) s.trail p.2 p.1 := by
  have hposted : ((Service.start (Fin 1)).run (plainEngine 5) orderDelivered).trail.posted.map
      (fun p => (p.1.url, p.1.body, p.2)) = [("https://a/h", "1", ["https://a/h"])] := by
    decide +kernel
  have hwarranted := (every_post_warranted (plainEngine 5) orderDelivered).2
  generalize (Service.start (Fin 1)).run (plainEngine 5) orderDelivered = s at hposted hwarranted
  obtain ⟨p, hp, heq⟩ := List.mem_map.mp (hposted ▸ List.mem_singleton_self _)
  obtain ⟨hurl, hrest⟩ := Prod.mk.inj heq
  obtain ⟨hbody, hcleared⟩ := Prod.mk.inj hrest
  exact ⟨p, hp, hurl, hbody, hcleared, hwarranted p hp⟩

end Anyhook.Delivery
