import Anyhook.Delivery.Accept

/-! How far one call of `send` has come with its event. The stage follows the answer of
`recordEvent`: a call that is told of an earlier event returns what it was told, a call
that made the record fans out to the endpoints it then matched, one message each and in
order, and finalizes the record with their number. -/
namespace Anyhook.Delivery
open Anyhook.Core Anyhook.Testing Anyhook.Lib.Program

inductive Stage where
  /-- The record is not asked for yet. -/
  | begun
  /-- Told of an earlier event. -/
  | told (rec : EventRecordResult)
  /-- The record is this call's, nothing matched yet. -/
  | claimed (eventId : String)
  /-- Fanning out to `eps`, with `sent` on the transport. -/
  | matched (eventId : String) (eps : List Endpoint) (sent : List Message)
  | finalized (eventId : String) (eps : List Endpoint) (sent : List Message)

/-- The message of the event for one endpoint, made at some time with some id. -/
def MessageFor (event : SendEvent) (eventId : String) (e : Endpoint) (m : Message) : Prop :=
  ∃ now messageId, m = freshMessage event eventId now e messageId

/-- The message for the next endpoint that wants the event. -/
def IsNext (event : SendEvent) (eventId : String) (eps : List Endpoint) (sent : List Message)
    (m : Message) : Prop :=
  ∃ e, (eps.filter (wants event.type))[sent.length]? = some e ∧ MessageFor event eventId e m

namespace Stage

def allows (event : SendEvent) (key : String) (s : Stage) : Op → Prop
  | .recordEvent t _ k => s = .begun ∧ t = event.tenant ∧ k = key
  | .matchEndpoints t type => (∃ eventId, s = .claimed eventId) ∧ t = event.tenant ∧
      type = event.type
  | .putMessage m | .transportSend m => ∃ eventId eps sent, s = .matched eventId eps sent ∧
      IsNext event eventId eps sent m
  | .finalizeEvent t k eventId n => ∃ eps sent, s = .matched eventId eps sent ∧
      t = event.tenant ∧ k = key ∧ n = sent.length ∧
      sent.length = (eps.filter (wants event.type)).length
  | .now | .next => True
  | _ => False

def next (s : Stage) : (op : Op) → Res op → Stage
  | .recordEvent _ eventId _, rec => if rec.isNew then .claimed eventId else .told rec
  | .matchEndpoints .., eps => match s with
    | .claimed eventId => .matched eventId eps []
    | s => s
  | .transportSend m, _ => match s with
    | .matched eventId eps sent => .matched eventId eps (sent ++ [m])
    | s => s
  | .finalizeEvent .., _ => match s with
    | .matched eventId eps sent => .finalized eventId eps sent
    | s => s
  | _, _ => s

/-- The receipt a call may return. -/
def returns : Stage → Receipt → Prop
  | .told rec, receipt => receipt =
      { eventId := rec.eventId, accepted := true, messageCount := rec.messageCount }
  | .finalized eventId _ sent, receipt => receipt =
      { eventId := eventId, accepted := true, messageCount := sent.length }
  | _, _ => False

end Stage

/-- The monitor of a call of `send` for one event and key. -/
def claimMonitor (event : SendEvent) (key : String) : Monitor Op Res Stage where
  allows s op := s.allows event key op
  next s op r := s.next op r

/-! ## The programs -/

section Programs
variable {event : SendEvent} {key : String}

theorem claim_reads {s : Stage} {α : Type} {p : Eng α} {done : Stage → α → Prop} (hp : Reads p)
    (hd : ∀ a, done s a) : Obeys (claimMonitor event key) done s p :=
  hp.obeys ⟨trivial, fun _ => rfl⟩ ⟨trivial, fun _ => rfl⟩ hd

/-- Fan-out makes one message for each endpoint that wants the event. -/
theorem fanoutWith_messages {gen : Eng String} (hg : Reads gen) (eventId : String) (now : Time)
    (eps : List Endpoint) (s : Stage) :
    Obeys (claimMonitor event key) (fun s' ms => s' = s ∧
        List.Forall₂ (MessageFor event eventId) (eps.filter (wants event.type)) ms) s
      (fanoutWith gen event eventId now eps) := by
  induction eps with
  | nil => exact ⟨rfl, .nil⟩
  | cons e rest ih =>
    unfold fanoutWith
    split
    · rename_i hw
      rw [obeys_bind]
      refine claim_reads hg fun id => ?_
      rw [obeys_bind]
      refine ih.mono fun s' ms h => ?_
      obtain ⟨rfl, hms⟩ := h
      rw [List.filter_cons_of_pos hw]
      exact ⟨rfl, .cons ⟨now, id, rfl⟩ hms⟩
    · rename_i hw
      rw [List.filter_cons_of_neg hw]
      exact ih

theorem enqueueAll_claim {eventId : String} {eps : List Endpoint} (sent : List Message)
    {ms : List Message}
    (h : List.Forall₂ (MessageFor event eventId) (eps.filter (wants event.type)) (sent ++ ms)) :
    Obeys (claimMonitor event key) (fun s _ => s = .matched eventId eps (sent ++ ms))
      (.matched eventId eps sent) (enqueueAll ms) := by
  induction ms generalizing sent with
  | nil => exact congrArg (Stage.matched eventId eps) (List.append_nil sent).symm
  | cons m rest ih =>
    have hnext : IsNext event eventId eps sent m := by
      have hlen := h.length_eq
      rw [List.length_append, List.length_cons] at hlen
      have hlt : sent.length < (eps.filter (wants event.type)).length := by omega
      refine ⟨_, List.getElem?_eq_getElem hlt, ?_⟩
      have hget := h.get hlt (by simp)
      simpa using hget
    have happend : sent ++ m :: rest = sent ++ [m] ++ rest := by simp
    refine obeys_perform_bind.mpr ⟨⟨eventId, eps, sent, rfl, hnext⟩, fun _ => ?_⟩
    refine obeys_perform_bind.mpr ⟨⟨eventId, eps, sent, rfl, hnext⟩, fun _ => ?_⟩
    rw [happend] at h ⊢
    exact ih _ h

theorem acceptWith_claim {genEvent genMessage : Eng String} (he : Reads genEvent)
    (hm : Reads genMessage) :
    Obeys (claimMonitor event key) Stage.returns .begun
      (acceptWith genEvent (fanoutWith genMessage) event key) := by
  unfold acceptWith
  rw [obeys_bind]
  refine claim_reads he fun eventId => ?_
  refine obeys_perform_bind.mpr ⟨⟨rfl, rfl, rfl⟩, fun rec => ?_⟩
  cases hnew : rec.isNew with
  | true =>
    have hstage : (claimMonitor event key).next .begun (.recordEvent event.tenant eventId key) rec =
        .claimed eventId := if_pos hnew
    rw [if_pos rfl, hstage]
    unfold distribute
    refine obeys_perform_bind.mpr ⟨⟨⟨eventId, rfl⟩, rfl, rfl⟩, fun eps => ?_⟩
    refine obeys_perform_bind.mpr ⟨trivial, fun now => ?_⟩
    rw [obeys_bind]
    refine (fanoutWith_messages hm eventId now eps (.matched eventId eps [])).mono ?_
    intro s ms hs
    obtain ⟨rfl, hms⟩ := hs
    rw [obeys_bind]
    refine (enqueueAll_claim [] hms).mono fun s _ hs => ?_
    subst hs
    exact ⟨⟨eps, ms, rfl, rfl, rfl, rfl, hms.length_eq.symm⟩, fun _ => rfl⟩
  | false =>
    have hstage : (claimMonitor event key).next .begun (.recordEvent event.tenant eventId key) rec =
        .told rec := if_neg (by simp [hnew])
    rw [hstage]
    exact rfl

end Programs

/-- Every path of `send` of either engine follows the stages. -/
theorem send_claim (lang : Lang) (en : Engine) (event : SendEvent) :
    Obeys (claimMonitor event (lang.keyOf en event)) Stage.returns .begun
      (lang.send en event) := by
  obtain ⟨genEvent, genMessage, he, hm, heq⟩ := send_eq lang en event
  rw [heq]
  cases sendError en event with
  | some e => trivial
  | none => exact acceptWith_claim he hm

/-- A call of `send` that does not throw at once does not throw at all. -/
theorem send_total (lang : Lang) (en : Engine) (event : SendEvent) :
    (∃ e, sendError en event = some e ∧ lang.send en event = .throw e) ∨
      Prog.Total (lang.send en event) := by
  obtain ⟨genEvent, genMessage, he, hm, heq⟩ := send_eq lang en event
  rw [heq]
  cases sendError en event with
  | some e => exact .inl ⟨e, rfl, rfl⟩
  | none => exact .inr (acceptWith_total he hm event _)

end Anyhook.Delivery
