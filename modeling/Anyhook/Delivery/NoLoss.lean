import Anyhook.Aws.TransportSqs
import Anyhook.Delivery.Sequential

/-! No accepted message is lost. The node below has a transport that keeps a message
until its handler returns normally and takes it back when the handler threw, a
scheduler that keeps a message until it hands it back, and any number of handlers at
work, each port call of which may fail before or after it took effect. A message that
is in nobody's queue is in the hands of a handler that still owes it something, or it
is dead-lettered, or it was answered with success and is stored as delivered. -/
namespace Anyhook.Delivery
open Anyhook.Core Anyhook.Testing Anyhook.Aws Anyhook.Lib.Program Anyhook.Lib.OrderedMap

/-- A handler at work on a copy the transport has not let go of. -/
structure Handler where
  message : Message
  rest : Eng Unit
  phase : Phase

/-- `accepted` remembers every message that was ever on the transport. -/
structure Node (ι : Type) where
  world : World
  running : ι → Option Handler
  accepted : List Message

inductive Event (ι : Type) where
  /-- A message is put on the transport. -/
  | put (m : Message)
  /-- The `n`-th queued copy is handed to handler `i`. -/
  | take (i : ι) (n : Nat) (lang : Lang)
  /-- Handler `i` makes its next port call. -/
  | call (i : ι) (inp : Input)
  /-- Handler `i` has returned or thrown, and the transport hears of it. -/
  | finish (i : ι)
  /-- The scheduler hands its `n`-th entry back to the transport. -/
  | release (n : Nat)
  /-- The endpoints of a tenant are edited. -/
  | edit (tenant : String) (endpoints : KMap Endpoint.endpointId)

variable {ι : Type} [DecidableEq ι]

def Node.start (w : World) : Node ι where
  world := w
  running _ := none
  accepted := w.queue

namespace Node
variable (en : Engine) (n : Node ι)

def put (m : Message) : Node ι :=
  { n with world := { n.world with queue := n.world.queue ++ [m] }, accepted := n.accepted ++ [m] }

def take (i : ι) (k : Nat) (lang : Lang) : Node ι :=
  match n.running i, n.world.queue[k]? with
  | none, some m => { n with
      world := { n.world with queue := n.world.queue.eraseIdx k }
      running := Function.update n.running i (some {
        message := m, rest := processWith lang.dialect en m, phase := .begun }) }
  | _, _ => n

/-- Handler `i` moves on to `h` over the world `w`. -/
def moved (i : ι) (w : World) (h : Handler) : Node ι :=
  { n with world := w, running := Function.update n.running i (some h) }

def call (i : ι) (inp : Input) : Node ι :=
  match n.running i with
  | some { message := m, rest := .call op k, phase := p } =>
    match execFault (some m) inp.1 inp.2 op n.world with
    | (.ok r, w) => n.moved i w { message := m, rest := k r, phase := p.next m op r }
    | (.error x, w) => n.moved i w { message := m, rest := .throw x, phase := p }
  | _ => n

def finish (i : ι) : Node ι :=
  match n.running i with
  | some { message := _, rest := .pure _, phase := _ } =>
    { n with running := Function.update n.running i none }
  | some { message := m, rest := .throw _, phase := _ } => { n with
      world := { n.world with queue := n.world.queue ++ [m] }
      running := Function.update n.running i none }
  | _ => n

def release (k : Nat) : Node ι :=
  match n.world.pending[k]? with
  | some p => { n with
      world := { n.world with
        queue := n.world.queue ++ [p.2], pending := n.world.pending.eraseIdx k }
      accepted := n.accepted ++ [p.2] }
  | none => n

def edit (t : String) (endpoints : KMap Endpoint.endpointId) : Node ι :=
  { n with world := { n.world with
      store := n.world.store.modify t fun d => { d with endpoints := endpoints } } }

def step : Event ι → Node ι
  | .put m => n.put m
  | .take i k lang => n.take en i k lang
  | .call i inp => n.call i inp
  | .finish i => n.finish i
  | .release k => n.release k
  | .edit t endpoints => n.edit t endpoints

def run (es : List (Event ι)) : Node ι := es.foldl (Node.step en) n

end Node

/-! ## What is owed -/

/-- The message is in the queue, the scheduler or the DLQ, or delivered. -/
def Held (c : Card) : Prop :=
  c.queued ≠ [] ∨ c.pending ≠ [] ∨ c.dlq ≠ [] ∨ Card.deliveredOk c

/-- Every accepted message has a copy in the transport, where a copy in the hands of a
handler counts, or one in the scheduler, or is delivered, or is in the DLQ. -/
def Kept (n : Node ι) (m : Message) : Prop :=
  Held (card n.world m.key) ∨ ∃ i h, n.running i = some h ∧ h.message.key = m.key

/-- The handler has nothing left to do that the message depends on. -/
def Phase.relieved : Phase → Bool
  | .scheduled _ => true
  | .accepted => true
  | .delivered => true
  | .buried => true
  | _ => false

theorem Phase.relieved_of_settled {p : Phase} (h : p.settled) : p.relieved = true := by
  cases p <;> first | rfl | exact absurd h id

/-! ## One port call -/

section PortCall
variable {en : Engine} {m : Message} {p : Phase} {op : Op} {a : Answer} {c : Card}

/-- Only a stored row can end what holds a message, and then it is the row of a call
that still owes it something. -/
theorem held_touch (hp : p.keyed m) (ha : p.allows en m op) (h : Held c) :
    Held (touch (some m) a m.key op c) ∨ p.relieved = false ∧
      ((∃ x, op = .putMessage x ∧ x.status ≠ .delivered)) := by
  cases op with
  | putMessage x =>
    have hk : x.key = m.key := (Phase.stores_same ha).key
    have hr : p.relieved = false := by
      cases p <;> first | rfl | exact absurd ha id
    by_cases hx : x.status = .delivered
    · left
      rcases h with h | h | h | ⟨h, -⟩
      · exact .inl (by simpa [touch, hk] using h)
      · exact .inr (.inl (by simpa [touch, hk] using h))
      · exact .inr (.inr (.inl (by simpa [touch, hk] using h)))
      · exact .inr (.inr (.inr ⟨by simpa [touch, hk] using h, x, by simp [touch, hk], hx⟩))
    · exact .inr ⟨hr, x, rfl, hx⟩
  | appendAttempt x =>
    left
    have hk : (x.tenant, x.messageId) = m.key := by rw [ha.1, ha.2.1]; rfl
    simpa only [touch, hk, if_true, Held, Card.deliveredOk] using h
  | addToDlq x r =>
    left
    obtain ⟨rfl, -⟩ := ha
    exact .inr (.inr (.inl (by simp [touch])))
  | scheduleRetry x t =>
    left
    have hk : x.key = m.key := by
      rw [show p = .waiting x from ha] at hp
      exact Same.key hp
    exact .inr (.inl (by simp [touch, hk]))
  | post url body headers timeoutMs =>
    left
    rcases h with h | h | h | ⟨⟨r, hr, hs⟩, h⟩
    · exact .inl (by simpa [touch] using h)
    · exact .inr (.inl (by simpa [touch] using h))
    · exact .inr (.inr (.inl (by simpa [touch] using h)))
    · refine .inr (.inr (.inr ⟨⟨r, ?_, hs⟩, by simpa [touch] using h⟩))
      simp [touch, hr]
  | transportSend x => exact absurd ha id
  | _ => exact .inl h

/-- A call that owes its message something still does, or the message is held. -/
theorem owed_touch (hp : p.keyed m) (ha : p.allows en m op)
    (hack : p = .answered .delivered → ∃ r ∈ c.answers, isSuccess r = true) (r : Res op)
    (h : Held c ∨ p.relieved = false) :
    Held (touch (some m) a m.key op c) ∨ (p.next m op r).relieved = false := by
  rcases h with h | h
  · rcases held_touch (a := a) hp ha h with h | ⟨hr, x, rfl, hx⟩
    · exact .inl h
    · right
      cases p with
      | begun => dsimp only [Phase.next]; split <;> rfl
      | answered o =>
        cases o with
        | delivered => obtain rfl := ha; exact absurd rfl hx
        | permanent => rfl
        | retryable => rfl
      | failed => rfl
      | _ => exact absurd ha id
  · cases op with
    | putMessage x =>
      have hk : x.key = m.key := (Phase.stores_same ha).key
      cases p with
      | begun => right; dsimp only [Phase.next]; split <;> rfl
      | answered o =>
        cases o with
        | delivered =>
          obtain rfl := ha
          obtain ⟨res, hres, hs⟩ := hack rfl
          exact .inl (.inr (.inr (.inr
            ⟨⟨res, by simpa [touch, hk] using hres, hs⟩, { m with status := .delivered },
              by simp [touch, hk], rfl⟩)))
        | permanent => exact .inr rfl
        | retryable => exact .inr rfl
      | failed => exact .inr rfl
      | _ => exact absurd ha id
    | appendAttempt x =>
      cases p with
      | doomed => exact .inr rfl
      | accepted => cases h
      | answered o => cases o <;> exact .inr rfl
      | _ => exact absurd ha.2.2.2.2 id
    | addToDlq x reason =>
      obtain ⟨rfl, -⟩ := ha
      exact .inl (.inr (.inr (.inl (by simp [touch]))))
    | scheduleRetry x t =>
      have hk : x.key = m.key := by
        rw [show p = .waiting x from ha] at hp
        exact Same.key hp
      exact .inl (.inr (.inl (by simp [touch, hk])))
    | check url =>
      right
      dsimp only [Phase.next]
      split
      · exact h
      · rfl
    | post url body headers timeoutMs => exact .inr rfl
    | _ => exact .inr h

theorem answers_touch {self : Option Message} {key : String × String} {r : HttpResult}
    (h : r ∈ c.answers) : r ∈ (touch self a key op c).answers := by
  cases op <;> simp only [touch] <;> (try split) <;> first | exact h | skip
  simp [h]

/-- A 2xx answer is on the card as soon as the phase says so. -/
theorem answered_touch (ha : p.allows en m op)
    (hack : p = .answered .delivered → ∃ r ∈ c.answers, isSuccess r = true) {w : World}
    (hn : p.next m op (exec (some m) a op w).1 = .answered .delivered) :
    ∃ r ∈ (touch (some m) a m.key op c).answers, isSuccess r = true := by
  have hkeep : p = .answered .delivered →
      ∃ r ∈ (touch (some m) a m.key op c).answers, isSuccess r = true := by
    intro hp
    obtain ⟨r, hr, hs⟩ := hack hp
    exact ⟨r, answers_touch hr, hs⟩
  cases op with
  | post url body headers timeoutMs =>
    refine ⟨a.http, by simp [touch], ?_⟩
    have ho : outcomeOf a.http = .delivered := by simpa [Phase.next, exec] using hn
    cases hh : a.http with
    | timeout => rw [hh] at ho; cases ho
    | network => rw [hh] at ho; cases ho
    | response status body headers =>
      rw [hh] at ho
      have ho' : classifyOutcome (.code status) = .delivered := ho
      obtain ⟨n, hn, h1, h2⟩ := classifyOutcome_delivered.mp ho'
      cases hn
      simp [isSuccess, h1, h2]
  | putMessage x =>
    cases p with
    | begun => dsimp only [Phase.next] at hn; split at hn <;> cases hn
    | answered o => cases o <;> cases hn
    | failed => cases hn
    | _ => exact absurd ha id
  | appendAttempt x =>
    cases p with
    | answered o => cases o <;> first | exact absurd ha.2.2.2.2 id | cases hn
    | doomed => cases hn
    | accepted => cases hn
    | _ => exact absurd ha.2.2.2.2 id
  | addToDlq x r => obtain ⟨-, rfl⟩ := ha; cases hn
  | scheduleRetry x t => rw [show p = .waiting x from ha] at hn; cases hn
  | check url =>
    dsimp only [Phase.next] at hn
    split at hn
    · exact hkeep hn
    · cases hn
  | _ => exact hkeep hn

end PortCall

/-! ## Runs -/

/-- What is true of every handler at work. -/
structure Handler.Fine (en : Engine) (w : World) (h : Handler) : Prop where
  obeys : Obeys (monitor en) (fun g _ => g.2.settled) (h.message, h.phase) h.rest
  keyed : h.phase.keyed h.message
  acked : h.phase = .answered .delivered →
    ∃ r ∈ (card w h.message.key).answers, isSuccess r = true

/-- The message is held, or a handler still owes it something. -/
def Owed (n : Node ι) (m : Message) : Prop :=
  Held (card n.world m.key) ∨
    ∃ i h, n.running i = some h ∧ h.message.key = m.key ∧ h.phase.relieved = false

structure Safe (en : Engine) (n : Node ι) : Prop where
  handlers : ∀ i h, n.running i = some h → h.Fine en n.world
  owed : ∀ m ∈ n.accepted, Owed n m

omit [DecidableEq ι] in
theorem safe_start (en : Engine) (w : World) : Safe en (Node.start w : Node ι) where
  handlers _ _ h := by cases h
  owed m hm := .inl (.inl (List.ne_nil_of_mem (List.mem_filter.mpr ⟨hm, by simp⟩)))

omit [DecidableEq ι] in
theorem Owed.kept {n : Node ι} {m : Message} (h : Owed n m) : Kept n m := by
  rcases h with h | ⟨i, hd, hr, hk, -⟩
  · exact .inl h
  · exact .inr ⟨i, hd, hr, hk⟩

section Steps
variable {en : Engine} {n : Node ι}

/-- Moving copies about changes no answer. -/
theorem Handler.Fine.of_answers {w w' : World} {h : Handler} (hf : h.Fine en w)
    (ha : (card w' h.message.key).answers = (card w h.message.key).answers) : h.Fine en w' :=
  ⟨hf.obeys, hf.keyed, fun hp => by rw [ha]; exact hf.acked hp⟩

omit [DecidableEq ι] in
theorem Safe.put (hs : Safe en n) (m : Message) : Safe en (n.put m) := by
  refine ⟨fun i h hr => (hs.handlers i h hr).of_answers rfl, fun x hx => ?_⟩
  by_cases hk : m.key = x.key
  · exact .inl (.inl (by simp [Node.put, card, hk]))
  · have hm : x ∈ n.accepted := by
      rcases List.mem_append.mp hx with h | h
      · exact h
      · rw [List.mem_singleton.mp h] at hk; exact absurd rfl hk
    have hc : card (n.put m).world x.key = card n.world x.key := by simp [Node.put, card, hk]
    unfold Owed
    rw [hc]
    exact hs.owed x hm

theorem Safe.take (hs : Safe en n) (i : ι) (k : Nat) (lang : Lang) :
    Safe en (n.take en i k lang) := by
  unfold Node.take
  split
  · next m hidle hget =>
    refine ⟨fun j h hr => ?_, fun x hx => ?_⟩
    · by_cases hj : j = i
      · subst hj
        simp only [Function.update_self, Option.some.injEq] at hr
        subst hr
        exact ⟨process_obeys _ en m, trivial, nofun⟩
      · simp only [Function.update_of_ne hj] at hr
        exact (hs.handlers j h hr).of_answers rfl
    · by_cases hk : m.key = x.key
      · exact .inr ⟨i, _, Function.update_self .., hk, rfl⟩
      · rcases hs.owed x hx with h | ⟨j, h, hr, hkey, hp⟩
        · left
          have hf := filter_eraseIdx (P := fun y => decide (y.key = x.key)) hget (by simpa using hk)
          simp only [card] at h ⊢
          rw [hf]
          exact h
        · have hj : j ≠ i := by rintro rfl; rw [hidle] at hr; cases hr
          exact .inr ⟨j, h, by simpa [hj] using hr, hkey, hp⟩
  · exact hs

theorem Safe.finish (hs : Safe en n) (i : ι) : Safe en (n.finish i) := by
  have hothers : ∀ j h, Function.update n.running i none j = some h → n.running j = some h := by
    intro j h hr
    by_cases hj : j = i
    · subst hj; simp at hr
    · simpa [hj] using hr
  unfold Node.finish
  split
  · next m u p hrun =>
    refine ⟨fun j h hr => hs.handlers j h (hothers j h hr), fun x hx => ?_⟩
    rcases hs.owed x hx with h | ⟨j, h, hr, hkey, hp⟩
    · exact .inl h
    · -- a handler that returned has settled its message, so it is not the one that owes
      have hj : j ≠ i := by
        rintro rfl
        rw [hrun] at hr
        obtain rfl := Option.some.inj hr
        rw [Phase.relieved_of_settled (hs.handlers j _ hrun).obeys] at hp
        cases hp
      exact .inr ⟨j, h, by simpa [hj] using hr, hkey, hp⟩
  · next m e p hrun =>
    refine ⟨fun j h hr => (hs.handlers j h (hothers j h hr)).of_answers rfl, fun x hx => ?_⟩
    by_cases hk : m.key = x.key
    · exact .inl (.inl (by simp [card, hk]))
    · rcases hs.owed x hx with h | ⟨j, h, hr, hkey, hp⟩
      · left
        simpa [card, hk] using h
      · have hj : j ≠ i := by
          rintro rfl
          rw [hrun] at hr
          obtain rfl := Option.some.inj hr
          exact hk hkey
        exact .inr ⟨j, h, by simpa [hj] using hr, hkey, hp⟩
  · exact hs

omit [DecidableEq ι] in
theorem Safe.release (hs : Safe en n) (k : Nat) : Safe en (n.release k) := by
  unfold Node.release
  split
  · next p hget =>
    refine ⟨fun i h hr => (hs.handlers i h hr).of_answers rfl, fun x hx => ?_⟩
    by_cases hk : p.2.key = x.key
    · exact .inl (.inl (by simp [card, hk]))
    · have hm : x ∈ n.accepted := by
        rcases List.mem_append.mp hx with h | h
        · exact h
        · rw [List.mem_singleton.mp h] at hk; exact absurd rfl hk
      rcases hs.owed x hm with h | h
      · left
        have hf := filter_eraseIdx
          (P := (fun y : Message => decide (y.key = x.key)) ∘ Prod.snd) hget (by simpa using hk)
        simp only [card, List.filter_append, List.filter_map, hf] at h ⊢
        simpa [hk] using h
      · exact .inr h
  · exact hs

omit [DecidableEq ι] in
theorem Safe.edit (hs : Safe en n) (t : String) (endpoints : KMap Endpoint.endpointId) :
    Safe en (n.edit t endpoints) := by
  have hc : ∀ x, card (n.edit t endpoints).world x = card n.world x :=
    card_modify _ _ _ fun _ => ⟨rfl, rfl, rfl⟩
  refine ⟨fun i h hr => (hs.handlers i h hr).of_answers (by rw [hc]), fun x hx => ?_⟩
  unfold Owed
  rw [hc]
  exact hs.owed x hx

/-- A handler moves on. It is enough that the new world differs from the old one at its
own message only, and that the message stays held or owed. -/
theorem Safe.moved (hs : Safe en n) {i : ι} {h h' : Handler} {w : World}
    (hrun : n.running i = some h) (hmsg : h'.message = h.message)
    (hother : ∀ x, h.message.key ≠ x → card w x = card n.world x)
    (hgrow : ∀ r ∈ (card n.world h.message.key).answers, r ∈ (card w h.message.key).answers)
    (hf : h'.Fine en w)
    (howed : Held (card n.world h.message.key) ∨ h.phase.relieved = false →
      Held (card w h.message.key) ∨ h'.phase.relieved = false) : Safe en (n.moved i w h') := by
  refine ⟨fun j g hr => ?_, fun x hx => ?_⟩
  · by_cases hj : j = i
    · subst hj
      simp only [Node.moved, Function.update_self, Option.some.injEq] at hr
      subst hr
      exact hf
    · simp only [Node.moved, Function.update_of_ne hj] at hr
      have hg := hs.handlers j g hr
      refine ⟨hg.obeys, hg.keyed, fun hp => ?_⟩
      obtain ⟨r, hr, hsucc⟩ := hg.acked hp
      refine ⟨r, ?_, hsucc⟩
      by_cases hk : h.message.key = g.message.key
      · rw [← hk] at hr ⊢; exact hgrow r hr
      · simp only [Node.moved]; rw [hother _ hk]; exact hr
  · have hmove : ∀ j g, j ≠ i → n.running j = some g → (n.moved i w h').running j = some g := by
      intro j g hj hr
      simpa [Node.moved, hj] using hr
    by_cases hk : h.message.key = x.key
    · have hown : Held (card n.world h.message.key) ∨ h.phase.relieved = false →
          Owed (n.moved i w h') x := by
        intro ho
        rcases howed ho with ho | ho
        · exact .inl (by rw [← hk]; exact ho)
        · exact .inr ⟨i, h', Function.update_self .., by rw [hmsg]; exact hk, ho⟩
      rcases hs.owed x hx with ho | ⟨j, g, hr, hkey, hp⟩
      · exact hown (.inl (by rw [hk]; exact ho))
      · by_cases hj : j = i
        · subst hj
          rw [hrun] at hr
          obtain rfl := Option.some.inj hr
          exact hown (.inr hp)
        · exact .inr ⟨j, g, hmove j g hj hr, hkey, hp⟩
    · rcases hs.owed x hx with ho | ⟨j, g, hr, hkey, hp⟩
      · exact .inl (by simp only [Node.moved]; rw [hother _ hk]; exact ho)
      · have hj : j ≠ i := by
          rintro rfl
          rw [hrun] at hr
          obtain rfl := Option.some.inj hr
          exact hk hkey
        exact .inr ⟨j, g, hmove j g hj hr, hkey, hp⟩

theorem answers_grow {self : Option Message} {a : Answer} {op : Op} {w : World}
    {key : String × String} {r : HttpResult} (h : r ∈ (card w key).answers) :
    r ∈ (card (exec self a op w).2 key).answers := by
  rw [card_exec]
  exact answers_touch h

theorem Safe.call (hs : Safe en n) (i : ι) (inp : Input) : Safe en (n.call i inp) := by
  unfold Node.call
  split
  · next m op k p hrun =>
    have hfine := hs.handlers i _ hrun
    have hal : p.allows en m op := hfine.obeys.1
    have hother : ∀ x, m.key ≠ x → card (exec (some m) inp.1 op n.world).2 x = card n.world x := by
      intro x hk
      rw [card_exec, touch_other (Phase.footprint hfine.keyed hal) hk]
    obtain ⟨a, f⟩ := inp
    cases f with
    | none =>
      refine hs.moved hrun rfl hother (fun _ => answers_grow)
        ⟨hfine.obeys.2 _, Phase.keyed_next hfine.keyed hal _, fun hp => ?_⟩ fun ho => ?_
      · rw [card_exec]
        exact answered_touch hal hfine.acked hp
      · rw [card_exec]
        exact owed_touch hfine.keyed hal hfine.acked _ ho
    | before =>
      exact hs.moved hrun rfl (fun _ _ => rfl) (fun _ hr => hr)
        ⟨trivial, hfine.keyed, hfine.acked⟩ id
    | after =>
      refine hs.moved hrun rfl hother (fun _ => answers_grow)
        ⟨trivial, hfine.keyed, fun hp => ?_⟩ ?_
      · obtain ⟨r, hr, hsucc⟩ := hfine.acked hp
        exact ⟨r, answers_grow hr, hsucc⟩
      · -- the phase that allowed the row is the phase the handler dies in
        rintro (ho | ho)
        · rw [card_exec]
          rcases held_touch (a := a) hfine.keyed hal ho with h | h
          · exact .inl h
          · exact .inr h.1
        · exact .inr ho
  · exact hs

theorem Safe.step (hs : Safe en n) (e : Event ι) : Safe en (n.step en e) := by
  cases e with
  | put m => exact hs.put m
  | take i k lang => exact hs.take i k lang
  | call i inp => exact hs.call i inp
  | finish i => exact hs.finish i
  | release k => exact hs.release k
  | edit t endpoints => exact hs.edit t endpoints

theorem Safe.run (hs : Safe en n) (es : List (Event ι)) : Safe en (n.run en es) := by
  induction es generalizing n with
  | nil => exact hs
  | cons e es ih => exact ih (hs.step e)

end Steps

/-- A batch consumer reports exactly the records whose body does not parse or whose
handler throws, each in the state the records before it left, and runs them all. -/
def ReportsExactly {μ σ : Type} (parse : String → Option μ)
    (dispatch : Option (RecordHandler μ σ) → Option (RecordHandler μ σ) → List SqsRecord → σ →
      Except String (List String) × σ) : Prop :=
  ∀ (h : RecordHandler μ σ) (registered : Option (RecordHandler μ σ)) (records : List SqsRecord)
    (s : σ), dispatch registered (some h) records s = dispatch (some h) none records s ∧
      dispatch registered (some h) records s =
        (.ok (((visits parse h records s).filter fun v => fails parse h v.1 v.2).map
          fun v => v.1.messageId), records.foldl (after parse h) s)

theorem dispatchWith_reportsExactly {μ σ : Type} (parse : String → Option μ) (noHandler : String) :
    ReportsExactly parse (dispatchWith (σ := σ) parse noHandler) := by
  intro h registered records s
  rw [dispatchWith_spec parse noHandler registered (some h) h rfl,
    dispatchWith_spec parse noHandler (some h) none h rfl]
  exact ⟨rfl, rfl⟩

/-- **No accepted message is lost.** Over every run of the node, every message ever put
on the transport still has a copy in the transport or the scheduler, or is delivered,
or is in the DLQ; and a batch consumer reports exactly what the transport must keep. -/
theorem no_message_lost (en : Engine) (w : World) (es : List (Event ι)) {μ σ : Type}
    (parse : String → Option μ) :
    (∀ m ∈ ((Node.start w : Node ι).run en es).accepted,
        Kept ((Node.start w : Node ι).run en es) m) ∧
      ReportsExactly (σ := σ) parse (dispatchRecords parse) ∧
      ReportsExactly (σ := σ) parse (goDispatchRecords parse) :=
  ⟨fun m hm => (((safe_start en w).run es).owed m hm).kept,
    dispatchWith_reportsExactly parse _, dispatchWith_reportsExactly parse _⟩

/-- The first delivery is answered with success, but its handler dies while it stores
the row; the copy goes back to the transport. -/
def crashAfterSuccess : List (Event Bool) :=
  [.put (messageFor "msg_a"), .take true 0 .ts] ++
    List.replicate 11 (.call true (answering 0 (.response 200 "" none), .none)) ++
    [.call true (answering 0 (.response 200 "" none), .after), .finish true]

theorem crashAfterSuccess_kept :
    messageFor "msg_a" ∈ ((Node.start oneEndpoint).run (plainEngine 5) crashAfterSuccess).accepted ∧
      Kept ((Node.start oneEndpoint).run (plainEngine 5) crashAfterSuccess)
        (messageFor "msg_a") := by
  have hm : messageFor "msg_a" ∈
      ((Node.start oneEndpoint).run (plainEngine 5) crashAfterSuccess).accepted := by decide +kernel
  exact ⟨hm, (no_message_lost (σ := Unit) (plainEngine 5) oneEndpoint crashAfterSuccess
    (fun body => some body)).1 _ hm⟩

end Anyhook.Delivery
