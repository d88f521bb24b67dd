import Anyhook.Testing.World

/-! All that the runtime holds about one message: its stored row, its attempt log, its
dead-letter rows, its copies in the transport and the scheduler, and the answers to
its POSTs. `card_exec` says what each port operation does to it; everything about the
life of a message is derived from that. -/
namespace Anyhook.Testing
open Anyhook.Core Anyhook.Lib.OrderedMap

structure Card where
  stored : Option Message
  attempts : List Attempt
  dlq : List DlqRow
  queued : List Message
  pending : List Message
  answers : List HttpResult

/-- A message the runtime has never seen. -/
def Card.blank : Card where
  stored := none
  attempts := []
  dlq := []
  queued := []
  pending := []
  answers := []

def card (w : World) (key : String × String) : Card where
  stored := w.store.getMessage key.1 key.2
  attempts := w.store.attemptsOf key.1 key.2
  dlq := (w.store.listDlq key.1 none).filter fun r => r.message.key = key
  queued := w.queue.filter fun m => m.key = key
  pending := (w.pending.map Prod.snd).filter fun m => m.key = key
  answers := (w.posts.filter fun p => p.message.map Message.key = some key).map Post.result

/-- What an operation made for `self` does to the card of `key`. -/
def touch (self : Option Message) (a : Answer) (key : String × String) : Op → Card → Card
  | .putMessage m, c => if m.key = key then { c with stored := some m } else c
  | .appendAttempt t, c =>
    if (t.tenant, t.messageId) = key then { c with attempts := c.attempts ++ [t] } else c
  | .addToDlq m r, c =>
    if m.key = key then { c with dlq := c.dlq ++ [{ message := m, reason := r }] } else c
  | .transportSend m, c => if m.key = key then { c with queued := c.queued ++ [m] } else c
  | .scheduleRetry m _, c => if m.key = key then { c with pending := c.pending ++ [m] } else c
  | .post .., c =>
    if self.map Message.key = some key then { c with answers := c.answers ++ [a.http] } else c
  | _, c => c

theorem card_exec (self : Option Message) (a : Answer) (op : Op) (w : World)
    (key : String × String) :
    card (exec self a op w).2 key = touch self a key op (card w key) := by
  obtain ⟨t, id⟩ := key
  unfold card MemoryStateStore.getMessage MemoryStateStore.attemptsOf MemoryStateStore.listDlq
  simp only [exec_tenants]
  cases op with
  | putMessage m =>
    by_cases ht : m.tenant = t
    · by_cases hi : m.messageId = id
      · simp [touch, exec, writesTo, effect, Message.key, ht, hi]
      · simp [touch, exec, writesTo, effect, Message.key, ht, hi, OMap.get_set_of_ne _ hi]
    · simp [touch, exec, writesTo, Message.key, ht]
  | appendAttempt x =>
    by_cases ht : x.tenant = t
    · by_cases hi : x.messageId = id
      · simp [touch, exec, writesTo, effect, ht, hi]
      · simp [touch, exec, writesTo, effect, ht, hi, OMap.get_set_of_ne _ hi]
    · simp [touch, exec, writesTo, ht]
  | addToDlq m r =>
    by_cases ht : m.tenant = t
    · by_cases hi : m.messageId = id
      · simp [touch, exec, writesTo, effect, Message.key, ht, hi]
      · simp [touch, exec, writesTo, effect, Message.key, ht, hi]
    · simp [touch, exec, writesTo, Message.key, ht]
  | transportSend m =>
    by_cases hk : m.key = (t, id) <;> simp [touch, exec, writesTo, hk]
  | scheduleRetry m s =>
    by_cases hk : m.key = (t, id) <;> simp [touch, exec, writesTo, hk]
  | post url body headers timeoutMs =>
    by_cases hk : self.map Message.key = some (t, id) <;>
      simp [touch, exec, writesTo, hk, -Option.map_eq_some_iff]
  | recordEvent u ev key =>
    have he : ∀ d : TenantData, (effect (.recordEvent u ev key) d).messages = d.messages ∧
        (effect (.recordEvent u ev key) d).attempts = d.attempts ∧
        (effect (.recordEvent u ev key) d).dlq = d.dlq := by
      intro d
      dsimp only [effect]
      split <;> exact ⟨rfl, rfl, rfl⟩
    by_cases hu : writesTo (.recordEvent u ev key) = some t
    · simp [touch, exec, hu, he]
    · simp [touch, exec, hu]
  | finalizeEvent u key ev n =>
    by_cases hu : u = t <;> simp [touch, exec, writesTo, effect, hu]
  | putCircuit u ep rec =>
    by_cases hu : u = t <;> simp [touch, exec, writesTo, effect, hu]
  | putRateBucket u ep b =>
    by_cases hu : u = t <;> simp [touch, exec, writesTo, effect, hu]
  | _ => simp [touch, exec, writesTo]

/-- Editing endpoints touches no card. -/
theorem card_modify (w : World) (t : String) (f : TenantData → TenantData)
    (hf : ∀ d, (f d).messages = d.messages ∧ (f d).attempts = d.attempts ∧ (f d).dlq = d.dlq)
    (key : String × String) : card { w with store := w.store.modify t f } key = card w key := by
  unfold card MemoryStateStore.getMessage MemoryStateStore.attemptsOf MemoryStateStore.listDlq
  by_cases ht : key.1 = t
  · subst ht
    obtain ⟨h1, h2, h3⟩ := hf (w.store.tenants key.1)
    simp [h1, h2, h3]
  · simp [MemoryStateStore.modify_other _ ht]

theorem card_update (w : World) (t id : String) (patch : MemoryStateStore.EndpointPatch)
    (key : String × String) :
    card { w with store := (w.store.updateEndpoint t id patch).2 } key = card w key := by
  unfold MemoryStateStore.updateEndpoint
  split
  · rfl
  · next x hx =>
    exact card_modify w t
      (fun d => { d with endpoints := d.endpoints.set id (patch.apply x) (patch.apply_key hx) })
      (fun _ => ⟨rfl, rfl, rfl⟩) key

theorem card_rotate (w : World) (t id secret : String) (key : String × String) :
    card { w with store := (w.store.rotateSecret t id secret).2 } key = card w key := by
  unfold MemoryStateStore.rotateSecret
  split
  · rfl
  · next x hx =>
    exact card_modify w t
      (fun d => { d with
        endpoints := d.endpoints.set id (MemoryStateStore.rotated x secret)
          (MemoryStateStore.rotated_key secret hx) })
      (fun _ => ⟨rfl, rfl, rfl⟩) key

end Anyhook.Testing
