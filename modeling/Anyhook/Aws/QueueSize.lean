import Anyhook.Lib.JsonText
import Anyhook.Aws.Scheduler
import Anyhook.Delivery.Phase
import Anyhook.Portal.Store

/-! How large an SQS body gets. The Go adapter caps the payload and sends the JSON encoding of
a whole message: go/aws/transport_sqs.go, scheduler.go and sweeper.go over go/core/engine.go.
The encoder writes six bytes for each `<`, `>` and `&` of a payload, and the type, the tenant
and the endpoint of an event have no cap of their own. -/
namespace Anyhook.Aws
open Anyhook.Core Anyhook.Lib.Program Anyhook.Lib.JsonText
open Anyhook.Portal (statusText)

/-- MaxPayloadBytes of go/aws/config.go. -/
def maxPayloadBytes : Nat := 200 * 1024

/-- SQS refuses a larger body. -/
def sqsMaxBodyBytes : Nat := 262144

/-! ## json.Marshal of a message -/

def intText (z : Int) : List Char := (toString z).toList

/-- An `int64` of the Go engine, whose times are whole milliseconds. -/
def timeText (t : Time) : List Char := intText ⌊t⌋

def pointerText : Option Time → List Char
  | none => "null".toList
  | some t => timeText t

/-- A `json.RawMessage`: nil is null, a text is compacted. -/
def rawText (payload : String) : List Char :=
  if compact payload.toList = [] then "null".toList else compact payload.toList

/-- The fields in the order of the struct. None has a tag. -/
def messageFields (m : Message) : List (String × List Char) :=
  [("MessageID", quote m.messageId.toList), ("Tenant", quote m.tenant.toList),
    ("EndpointID", quote m.endpointId.toList), ("EventID", quote m.eventId.toList),
    ("EventType", quote m.eventType.toList), ("Payload", rawText m.payload),
    ("AttemptNo", intText m.attemptNo), ("Status", quote (statusText m.status).toList),
    ("NextAttemptAt", pointerText m.nextAttemptAt), ("CreatedAt", timeText m.createdAt)]

/-- `valid` is the scanner of encoding/json: a payload that is no JSON is an error. -/
def marshal (valid : String → Bool) (m : Message) : Option String :=
  if m.payload = "" ∨ valid m.payload = true then
    some (String.ofList (objectText (messageFields m)))
  else none

/-- What json.Unmarshal makes of the body again: every field as it was, the payload as the
text in the body. -/
def received (m : Message) : Message := { m with payload := String.ofList (rawText m.payload) }

/-! ## The copies of a message -/

/-- The messages whose encoding is sent to the queue on behalf of an event, whatever the ports
answer: from `send`, from a retry that a worker schedules within the SQS cap, and from a row
that the sweeper claims. A worker has its message from the queue. -/
inductive Enqueued (en : Engine) (event : SendEvent) : Message → Prop
  | send {m : Message} (h : Prog.Calls (.transportSend m) (Go.send en event)) :
    Enqueued en event m
  | scheduleRetry {m next sent : Message} {atMs : Time} {delaySeconds : Int}
    (hm : Enqueued en event m)
    (hnext : Prog.Calls (.scheduleRetry next atMs) (Go.processMessage en (received m)))
    (hsent : Prog.Calls (.sendMessage (some sent) delaySeconds) (goScheduleRetry next atMs)) :
    Enqueued en event sent
  | sweep {m next sent : Message} {atMs : Time} {row : SchedRow} {item : Item}
    {nowSec leaseFloorSec delaySeconds : Int} {result : SweeperResult}
    (hm : Enqueued en event m)
    (hnext : Prog.Calls (.scheduleRetry next atMs) (Go.processMessage en (received m)))
    (hrow : Prog.Calls (.putItem row) (goScheduleRetry next atMs))
    (hitem : item.row = { row with claimedAt := item.row.claimedAt })
    (hsent : Prog.Calls (.sendMessage (some sent) delaySeconds)
      (sweepItem goSendClaimed nowSec leaseFloorSec item result)) :
    Enqueued en event sent

/-! ## Sizes by the characters of the event -/

/-- What a payload takes in the body. -/
def rawSize (payload : String) : Nat :=
  if compactSize payload.toList = 0 then 4 else compactSize payload.toList

/-- Braces, field names and the two generated ids. -/
def envelopeSize : Nat := 178

/-- What the strings of the event take, with the endpoint it goes to. -/
def eventSize (event : SendEvent) (endpointId : String) : Nat :=
  rawSize event.payload + quotedSize event.type.toList + quotedSize event.tenant.toList +
    quotedSize endpointId.toList

/-- What changes from copy to copy: the attempt, its status and its times. -/
def stampSize (m : Message) : Nat :=
  size (intText m.attemptNo) + quotedSize (statusText m.status).toList +
    size (pointerText m.nextAttemptAt) + size (timeText m.createdAt)

theorem size_rawText (payload : String) : size (rawText payload) = rawSize payload := by
  have hempty : compact payload.toList = [] ↔ compactSize payload.toList = 0 := by
    rw [← size_compact, size_eq_zero]
  unfold rawText rawSize
  by_cases h : compact payload.toList = []
  · rw [if_pos h, if_pos (hempty.mp h)]
    decide
  · rw [if_neg h, if_neg fun h0 => h (hempty.mpr h0), size_compact]

/-- A payload that went through the queue is encoded as before. -/
theorem rawText_received (payload : String) :
    rawText (String.ofList (rawText payload)) = rawText payload := by
  by_cases h : compact payload.toList = []
  · have hraw : rawText payload = "null".toList := if_pos h
    rw [hraw]
    decide
  · have hraw : rawText payload = compact payload.toList := if_neg h
    rw [hraw]
    unfold rawText
    rw [String.toList_ofList, compact_idem, if_neg h]

/-- The size of a body, field by field. -/
theorem size_message (m : Message) :
    size (objectText (messageFields m)) = 126 + quotedSize m.messageId.toList +
      quotedSize m.eventId.toList + quotedSize m.tenant.toList + quotedSize m.endpointId.toList +
      quotedSize m.eventType.toList + rawSize m.payload + stampSize m := by
  have hnames : (["MessageID", "Tenant", "EndpointID", "EventID", "EventType", "Payload",
      "AttemptNo", "Status", "NextAttemptAt", "CreatedAt"].map fun name =>
        quotedSize name.toList) = [11, 8, 12, 9, 11, 9, 11, 8, 15, 11] := by decide
  simp only [List.map_cons, List.map_nil, List.cons.injEq, and_true] at hnames
  rw [messageFields, size_objectText]
  simp only [List.map_cons, List.map_nil, List.sum_cons, List.sum_nil, memberSize, size_quote,
    size_rawText, hnames, List.length_cons, List.length_nil, stampSize]
  omega

/-! ## What the copies have of their event -/

/-- A generated id takes 24 characters between its quotes. -/
def IsId (id : String) : Prop := quotedSize id.toList = 26

structure CopyOf (event : SendEvent) (m : Message) : Prop where
  tenant : m.tenant = event.tenant
  eventType : m.eventType = event.type
  messageId : IsId m.messageId
  eventId : IsId m.eventId
  payload : rawText m.payload = rawText event.payload

theorem CopyOf.size {event : SendEvent} {m : Message} (h : CopyOf event m) :
    size (objectText (messageFields m)) =
      envelopeSize + eventSize event m.endpointId + stampSize m := by
  rw [size_message, h.messageId, h.eventId, h.tenant, h.eventType, ← size_rawText, h.payload,
    size_rawText]
  unfold envelopeSize eventSize
  omega

theorem CopyOf.received {event : SendEvent} {m : Message} (h : CopyOf event m) :
    CopyOf event (received m) :=
  { h with payload := (rawText_received m.payload).trans h.payload }

section Programs
variable {en : Engine} {event : SendEvent}

/-- What is put on the transport is a copy. -/
def SendsCopies (event : SendEvent) : Op → Prop
  | .transportSend m => CopyOf event m
  | _ => True

/-- The stateless monitor of `SendsCopies`. -/
def copyMonitor (event : SendEvent) : Monitor Op Res Unit where
  allows _ op := SendsCopies event op
  next g _ _ := g

theorem idChar_size (draw : ℚ) : escapedSize (Go.idChar draw) = 1 := by
  have hall : ∀ c ∈ 'a' :: idAlphabet, escapedSize c = 1 :=
    List.all_iff_forall_prop.mp (by decide)
  refine hall _ ?_
  unfold Go.idChar
  dsimp only
  generalize Int.toNat _ = n
  by_cases h : n < idAlphabet.length
  · rw [List.getD_eq_getElem _ _ h]
    exact List.mem_cons_of_mem _ (List.getElem_mem h)
  · rw [List.getD_eq_default _ _ (by omega)]
    exact List.mem_cons_self

theorem idChars_obeys (n : Nat) :
    Obeys (copyMonitor event) (fun _ cs => (cs.map escapedSize).sum = n) () (Go.idChars n) := by
  induction n with
  | zero => exact rfl
  | succ n ih =>
    refine ⟨trivial, ?_⟩
    intro draw
    show Obeys _ _ _ (Go.idChars n >>= _)
    rw [obeys_bind]
    refine ih.mono ?_
    intro _ cs hcs
    show ((Go.idChar draw :: cs).map escapedSize).sum = n + 1
    rw [List.map_cons, List.sum_cons, hcs, idChar_size]
    omega

theorem newId_obeys {pre : String} (hpre : quotedSize (pre ++ "_").toList = 6) :
    Obeys (copyMonitor event) (fun _ id => IsId id) () (Go.newId pre) := by
  unfold Go.newId
  rw [obeys_bind]
  refine (idChars_obeys 20).mono ?_
  intro _ cs hcs
  show IsId (pre ++ "_" ++ String.ofList cs)
  unfold IsId quotedSize at *
  rw [String.toList_append, List.map_append, List.sum_append, String.toList_ofList, hcs]
  omega

theorem fanout_obeys {eventId : String} (hid : IsId eventId) (now : Time) (eps : List Endpoint) :
    Obeys (copyMonitor event) (fun _ ms => ∀ m ∈ ms, CopyOf event m) ()
      (Go.fanout event eventId now eps) := by
  unfold Go.fanout
  induction eps with
  | nil => exact fun m hm => absurd hm (List.not_mem_nil)
  | cons e rest ih =>
    unfold fanoutWith
    split
    · rw [obeys_bind]
      refine (newId_obeys (by decide)).mono ?_
      intro _ id hmsg
      rw [obeys_bind]
      refine ih.mono ?_
      intro _ ms hms m hm
      rcases List.mem_cons.mp hm with rfl | hm
      · exact ⟨rfl, rfl, hmsg, hid, rfl⟩
      · exact hms m hm
    · exact ih

theorem enqueueAll_obeys {ms : List Message} (h : ∀ m ∈ ms, CopyOf event m) :
    Within (SendsCopies event) (enqueueAll ms) := by
  induction ms with
  | nil => exact within_pure ()
  | cons m rest ih =>
    refine within_bind (within_perform trivial) fun _ => ?_
    refine within_bind (within_perform (h m List.mem_cons_self)) fun _ => ?_
    exact ih fun x hx => h x (List.mem_cons_of_mem _ hx)

theorem distribute_copies {eventId : String} (hid : IsId eventId) (idemKey : String) :
    Within (SendsCopies event) (distribute Go.fanout event eventId idemKey) := by
  refine within_bind (within_perform trivial) fun eps => ?_
  refine within_bind (within_perform trivial) fun now => ?_
  refine (obeys_bind _ _ _).mpr ((fanout_obeys hid now eps).mono ?_)
  intro _ ms hms
  refine within_bind (enqueueAll_obeys hms) fun _ => ?_
  exact within_bind (within_perform trivial) fun _ => within_pure _

theorem send_copies (en : Engine) (event : SendEvent) :
    Within (SendsCopies event) (Go.send en event) := by
  unfold Go.send
  split
  · exact within_throw _
  · refine (obeys_bind _ _ _).mpr ((newId_obeys (by decide)).mono ?_)
    intro _ eventId hid
    refine within_bind (within_perform trivial) fun rec => ?_
    split
    · exact distribute_copies hid _
    · exact within_pure _

/-- What a worker schedules is the message it has, or the same with the next attempt. -/
def Rescheduled (m x : Message) : Prop :=
  x = m ∨ ∃ t, x = { m with
    attemptNo := m.attemptNo + 1, status := .retrying, nextAttemptAt := some t }

theorem CopyOf.rescheduled {m x : Message} (h : CopyOf event m) (hx : Rescheduled m x) :
    CopyOf event x := by
  rcases hx with rfl | ⟨t, rfl⟩
  · exact h
  · exact ⟨h.tenant, h.eventType, h.messageId, h.eventId, h.payload⟩

/-- What a phase is about to schedule. -/
def PhaseSchedules (m : Message) (p : Delivery.Phase) : Prop :=
  ∀ x, p = .waiting x → Rescheduled m x

theorem PhaseSchedules.next {m : Message} {p : Delivery.Phase} {op : Op} (h : PhaseSchedules m p)
    (hal : p.allows en m op) (r : Res op) : PhaseSchedules m (p.next m op r) := by
  cases op with
  | putMessage y =>
    cases p with
    | begun =>
      intro x hx
      dsimp only [Delivery.Phase.next] at hx
      split at hx
      · cases hx
      · cases hx
      · exact .inl (Delivery.Phase.waiting.inj hx).symm
    | failed =>
      obtain ⟨t, hy⟩ := hal
      intro x hx
      exact .inr ⟨t, (Delivery.Phase.waiting.inj hx).symm.trans hy⟩
    | answered o =>
      intro x hx
      cases o <;> cases hx
    | _ => exact absurd hal id
  | appendAttempt a =>
    cases p with
    | answered o =>
      intro x hx
      cases o <;> cases hx
    | waiting y => exact h
    | _ =>
      intro x hx
      cases hx
  | addToDlq y reason =>
    intro x hx
    cases p <;> first | exact h x hx | cases hx
  | scheduleRetry y t =>
    intro x hx
    cases p <;> first | exact h x hx | cases hx
  | check url =>
    intro x hx
    dsimp only [Delivery.Phase.next] at hx
    split at hx
    · exact h x hx
    · cases hx
  | post url body headers timeoutMs =>
    intro x hx
    cases hx
  | _ => exact h

theorem process_reschedules {m x : Message} {atMs : Time}
    (h : Prog.Calls (.scheduleRetry x atMs) (Go.processMessage en m)) : Rescheduled m x := by
  have hkeep : ∀ (g : Message × Delivery.Phase) (op : Op) (r : Res op),
      g.1 = m ∧ PhaseSchedules m g.2 → (Delivery.monitor en).allows g op →
        ((Delivery.monitor en).next g op r).1 = m ∧
          PhaseSchedules m ((Delivery.monitor en).next g op r).2 := by
    intro g op r hg hal
    obtain ⟨y, p⟩ := g
    obtain ⟨rfl, hp⟩ := hg
    exact ⟨rfl, hp.next hal r⟩
  have hbegun : PhaseSchedules m .begun := by
    intro x hx
    cases hx
  obtain ⟨g, ⟨-, hg⟩, hal⟩ := Obeys.of_calls hkeep h (Delivery.process_obeys Go.dialect en m)
    ⟨rfl, hbegun⟩
  exact hg x hal

/-- A request that sends or stores a message, sends or stores this one. -/
def Carries (m : Message) : CloudOp → Prop
  | .sendMessage (some x) _ => x = m
  | .putItem row => row.message = m
  | _ => True

theorem goScheduleRetry_carries (m : Message) (atMs : Time) :
    Within (Carries m) (goScheduleRetry m atMs) := by
  unfold goScheduleRetry scheduleRetryWith
  refine within_bind (within_perform trivial) fun now => ?_
  dsimp only
  split
  · exact within_perform rfl
  · exact within_perform rfl

theorem sweepItem_carries (nowSec leaseFloorSec : Int) (item : Item) (result : SweeperResult) :
    Within (Carries item.row.message)
      (sweepItem goSendClaimed nowSec leaseFloorSec item result) := by
  unfold sweepItem
  split
  · exact within_pure _
  · refine within_bind (within_perform trivial) fun won => ?_
    split
    · refine within_bind ?_ fun _ => within_bind (within_perform trivial) fun _ => within_pure _
      unfold goSendClaimed Item.message
      by_cases hw : item.row.writer = .go
      · rw [if_pos hw]
        exact within_perform rfl
      · rw [if_neg hw]
        exact within_throw _
    · exact within_pure _

/-- Every copy on the queue has its fields and the text of its payload from the event. -/
theorem Enqueued.copyOf {m : Message} (h : Enqueued en event m) : CopyOf event m := by
  induction h with
  | send h => exact (send_copies en event).of_calls h
  | scheduleRetry hm hnext hsent ih =>
    have hsame := (goScheduleRetry_carries _ _).of_calls hsent
    rw [hsame]
    exact ih.received.rescheduled (process_reschedules hnext)
  | sweep hm hnext hrow hitem hsent ih =>
    have hstored := (goScheduleRetry_carries _ _).of_calls hrow
    have hswept := (sweepItem_carries _ _ _ _).of_calls hsent
    rw [hswept, hitem, hstored]
    exact ih.received.rescheduled (process_reschedules hnext)

end Programs

/-- **Bodies that fit.** The body of every copy of an accepted event is within the limit of
SQS exactly when the event's payload without its white space, with six bytes for every special
character, and its encoded type, tenant and endpoint leave room for the envelope and for the
copy's attempt number and times. -/
theorem body_fits_iff {en : Engine} {event : SendEvent} {m : Message}
    (h : Enqueued en event m) {valid : String → Bool} {body : String}
    (hbody : marshal valid m = some body) :
    body.utf8ByteSize ≤ sqsMaxBodyBytes ↔
      envelopeSize + eventSize event m.endpointId + stampSize m ≤ sqsMaxBodyBytes := by
  unfold marshal at hbody
  split at hbody
  · rw [← Option.some.inj hbody, utf8ByteSize_ofList, h.copyOf.size]
  · cases hbody

/-! ## Two events -/

/-- An id of which every draw is the first letter. -/
def firstLetters (pre : String) : String :=
  pre ++ "_" ++ String.ofList (List.replicate 20 (Go.idChar 0))

theorem idChars_returns (n : Nat) :
    Prog.Returns (List.replicate n (Go.idChar 0)) (Go.idChars n) := by
  induction n with
  | zero => exact .pure
  | succ n ih => exact .call (0 : ℚ) (ih.bind .pure)

theorem newId_returns (pre : String) : Prog.Returns (firstLetters pre) (Go.newId pre) :=
  (idChars_returns 20).bind .pure

/-- The message of an event for an endpoint that wants it, as `send` may make it. -/
def sentMessage (event : SendEvent) (now : Time) (e : Endpoint) : Message :=
  freshMessage event (firstLetters "evt") now e (firstLetters "msg")

theorem fanout_returns {event : SendEvent} {e : Endpoint} (hw : wants event.type e = true)
    (now : Time) :
    Prog.Returns [sentMessage event now e]
      (Go.fanout event (firstLetters "evt") now [e]) := by
  unfold Go.fanout fanoutWith
  rw [if_pos hw]
  exact (newId_returns "msg").bind .pure

/-- An event that passes the checks goes to the queue. -/
theorem send_enqueues {en : Engine} {event : SendEvent} (hok : sendError en event = none)
    {e : Endpoint} (hw : wants event.type e = true) (now : Time) :
    Enqueued en event (sentMessage event now e) := by
  refine .send ?_
  unfold Go.send
  rw [hok]
  refine (newId_returns "evt").calls ?_
  refine .later (⟨true, "", 0⟩ : EventRecordResult) ?_
  refine .later ([e] : List Endpoint) (.later now ?_)
  exact (fanout_returns hw now).calls (.later () (.here _))

def awsEngine : Engine := { Testing.plainEngine 5 with maxPayloadBytes := maxPayloadBytes }

def acmeEndpoint : Endpoint where
  endpointId := "ep_1"
  tenant := "acme"
  url := "https://acme/h"
  eventTypes := ["*"]
  description := none
  disabled := false
  rateLimit := none
  createdAt := 0
  secrets := ["whsec_1"]

def paidWith (payload : String) : SendEvent where
  type := "invoice.paid"
  tenant := "acme"
  payload := payload
  idempotencyKey := some "inv_1"

/-- The copy of `paidWith payload` that `send` makes at an epoch time. -/
def paidMessage (payload : String) : Message :=
  sentMessage (paidWith payload) 1700000000000 acmeEndpoint

theorem small_body_fits :
    Enqueued awsEngine (paidWith "[1, 2]") (paidMessage "[1, 2]") ∧
      ∃ body, marshal (fun _ => true) (paidMessage "[1, 2]") = some body ∧
        body.utf8ByteSize ≤ sqsMaxBodyBytes := by
  have hsent : Enqueued awsEngine (paidWith "[1, 2]") (paidMessage "[1, 2]") :=
    send_enqueues (by decide) (by decide) _
  have hbody : marshal (fun _ => true) (paidMessage "[1, 2]") =
      some (String.ofList (objectText (messageFields (paidMessage "[1, 2]")))) :=
    if_pos (.inr rfl)
  exact ⟨hsent, _, hbody, (body_fits_iff hsent hbody).mpr (by decide +kernel)⟩

/-- A JSON string of `n` angle brackets. -/
def angles (n : Nat) : String := String.ofList ('"' :: (List.replicate n '<' ++ ['"']))

theorem angles_size (n : Nat) : (angles n).utf8ByteSize = n + 2 := by
  have hangle : ('<').utf8Size = 1 := by decide
  have hquote : ('"').utf8Size = 1 := by decide
  have hmany : size (List.replicate n '<') = n := by
    rw [size, List.map_replicate, hangle, List.sum_replicate_nat, Nat.mul_one]
  rw [angles, utf8ByteSize_ofList, size_cons, size_append, hmany, size_cons, size_nil, hquote]
  omega

theorem angles_compactSize (n : Nat) : compactSize (angles n).toList = 6 * n + 2 := by
  have hrest : compactSizeFrom .inString (List.replicate n '<' ++ ['"']) = 6 * n + 1 := by
    induction n with
    | zero => decide
    | succ n ih =>
      have hnext : Place.inString.next '<' = .inString := by decide
      have hkept : keptSize .inString '<' = 6 := by decide
      rw [List.replicate_succ, List.cons_append, compactSizeFrom, hnext, hkept, ih]
      omega
  have hopen : keptSize .between '"' = 1 := by decide
  have hnext : Place.between.next '"' = .inString := by decide
  rw [angles, String.toList_ofList, compactSize, compactSizeFrom, hopen, hnext, hrest]
  omega

/-- A payload at the cap whose body is almost five times the limit. -/
theorem angles_overflow :
    (paidWith (angles 204798)).payload.utf8ByteSize ≤ maxPayloadBytes ∧
      Enqueued awsEngine (paidWith (angles 204798)) (paidMessage (angles 204798)) ∧
      ∃ body, marshal (fun _ => true) (paidMessage (angles 204798)) = some body ∧
        ¬ body.utf8ByteSize ≤ sqsMaxBodyBytes := by
  have hcap : (paidWith (angles 204798)).payload.utf8ByteSize ≤ maxPayloadBytes := by
    rw [show (paidWith (angles 204798)).payload = angles 204798 from rfl, angles_size]
    decide
  have hok : sendError awsEngine (paidWith (angles 204798)) = none := by
    unfold sendError
    rw [if_neg (by decide), if_neg (by decide)]
    exact if_neg (Nat.not_lt.mpr hcap)
  have hsent : Enqueued awsEngine (paidWith (angles 204798)) (paidMessage (angles 204798)) :=
    send_enqueues hok (by decide) _
  have hraw : rawSize (angles 204798) = 6 * 204798 + 2 := by
    rw [rawSize, angles_compactSize, if_neg (by decide)]
  refine ⟨hcap, hsent, _, if_pos (.inr rfl), ?_⟩
  rw [utf8ByteSize_ofList, hsent.copyOf.size, eventSize,
    show (paidWith (angles 204798)).payload = angles 204798 from rfl, hraw]
  have hlimit : sqsMaxBodyBytes = 262144 := rfl
  omega

end Anyhook.Aws
