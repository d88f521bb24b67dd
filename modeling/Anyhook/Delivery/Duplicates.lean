import Anyhook.Delivery.NoLoss

/-! Duplicate delivery. Both shipped queues are at-least-once, so here a queued copy stays where
it is: it may be handed out again at any time, before or after later copies of the same message,
and to several calls at once, which make their port calls in any order. `processMessage` writes
from the copy it is given and never looks at the stored row, so the row is safe exactly as far as
the copy is not older and no other call writes the row meanwhile. -/
namespace Anyhook.Delivery
open Anyhook.Core Anyhook.Testing Anyhook.Lib.Program Anyhook.Lib.OrderedMap

inductive Happening (ι : Type) where
  /-- A message with a new id is stored and put on the transport. -/
  | enqueue (m : Message)
  /-- The `k`-th queued copy is handed to call `i`, and stays queued. -/
  | handOut (i : ι) (k : Nat) (lang : Lang)
  /-- Call `i` makes its next port call, which may fail. -/
  | call (i : ι) (inp : Input)
  | finish (i : ι)
  /-- The scheduler hands its `k`-th entry back to the transport. -/
  | release (k : Nat)
  | edit (tenant : String) (endpoints : KMap Endpoint.endpointId)

/-- A delivered message stays delivered and out of the DLQ, and the stored attempt number does
not go down. -/
structure Keeps (c c' : Card) : Prop where
  delivered : Card.deliveredOk c → Card.deliveredOk c' ∧ c'.dlq = c.dlq
  attemptNo : ∀ s, c.stored = some s → ∃ s', c'.stored = some s' ∧ s.attemptNo ≤ s'.attemptNo

theorem Keeps.refl (c : Card) : Keeps c c := ⟨fun h => ⟨h, rfl⟩, fun s hs => ⟨s, hs, le_rfl⟩⟩

section Node
variable {ι : Type} [DecidableEq ι] (en : Engine) (n : Node ι)

def Node.enqueue (m : Message) : Node ι :=
  if n.world.store.getMessage m.tenant m.messageId = none ∧ ∀ x ∈ n.accepted, x.key ≠ m.key then
    { n with
      world := { n.world with
        store := n.world.store.putMessage m, queue := n.world.queue ++ [m] }
      accepted := n.accepted ++ [m] }
  else n

def Node.handOut (i : ι) (k : Nat) (lang : Lang) : Node ι :=
  match n.running i, n.world.queue[k]? with
  | none, some m => { n with
      running := Function.update n.running i (some {
        message := m, rest := processWith lang.dialect en m, phase := .begun }) }
  | _, _ => n

def happen : Happening ι → Node ι
  | .enqueue m => n.enqueue m
  | .handOut i k lang => n.handOut en i k lang
  | .call i inp => n.call i inp
  | .finish i => n.finish i
  | .release k => n.release k
  | .edit t endpoints => n.edit t endpoints

/-- `P` holds of every step of the history. -/
def Throughout (P : Node ι → Happening ι → Prop) : Node ι → List (Happening ι) → Prop
  | _, [] => True
  | n, e :: es => P n e ∧ Throughout P (happen en n e) es

instance decidableThroughout (P : Node ι → Happening ι → Prop) [hP : ∀ n e, Decidable (P n e)] :
    (n : Node ι) → (es : List (Happening ι)) → Decidable (Throughout en P n es)
  | _, [] => .isTrue trivial
  | n, e :: es =>
    have := decidableThroughout P (happen en n e) es
    inferInstanceAs (Decidable (P n e ∧ Throughout en P (happen en n e) es))

/-- The step takes no delivered message back, dead-letters none, and lowers no stored attempt
number. -/
def KeepsTerminal (e : Happening ι) : Prop :=
  ∀ key, Keeps (card n.world key) (card (happen en n e).world key)

/-- A copy that is handed out is not stale: its message is not yet answered and stored as
delivered, and no later attempt of it is stored; and no call for its message is at work. -/
def Timely : Happening ι → Prop
  | .handOut _ k _ => ∀ m ∈ n.world.queue[k]?, ¬ Card.deliveredOk (card n.world m.key) ∧
      (∀ s ∈ (card n.world m.key).stored, s.attemptNo ≤ m.attemptNo) ∧
      ∀ i, ∀ h ∈ n.running i, h.message.key ≠ m.key
  | _ => True

instance {k : Nat} (n : Node (Fin k)) : (e : Happening (Fin k)) → Decidable (Timely n e)
  | .handOut _ k _ => inferInstanceAs (Decidable (∀ m ∈ n.world.queue[k]?, _ ∧ _ ∧ _))
  | .enqueue _ => inferInstanceAs (Decidable True)
  | .call .. => inferInstanceAs (Decidable True)
  | .finish _ => inferInstanceAs (Decidable True)
  | .release _ => inferInstanceAs (Decidable True)
  | .edit .. => inferInstanceAs (Decidable True)

end Node

/-! ## What a call knows of its message's card -/

/-- The call may still store a row or bury its message: then the message is not delivered yet,
and the stored row not above the copy. -/
def Level (m : Message) (c : Card) : Phase → Prop
  | .begun | .trying | .answered .permanent | .answered .retryable | .failed | .doomed | .mourned =>
    ¬ Card.deliveredOk c ∧ ∀ s, c.stored = some s → s.attemptNo ≤ m.attemptNo
  | .answered .delivered => ∀ s, c.stored = some s → s.attemptNo ≤ m.attemptNo
  | _ => True

section PortCall
variable {en : Engine} {m : Message} {p : Phase} {op : Op} {a : Answer} {c : Card}

/-- Nothing but a row, a dead letter and an answer bears on it. -/
theorem Keeps.of_same {c' : Card} (hstored : c'.stored = c.stored) (hdlq : c'.dlq = c.dlq)
    (hanswers : ∀ r ∈ c.answers, r ∈ c'.answers) : Keeps c c' := by
  refine ⟨fun h => ⟨?_, hdlq⟩, fun s hs => ⟨s, hstored.trans hs, le_rfl⟩⟩
  obtain ⟨⟨r, hr, hsuccess⟩, hrow⟩ := h
  exact ⟨⟨r, hanswers r hr, hsuccess⟩, hstored ▸ hrow⟩

/-- A row of the call is not above the one stored before. -/
theorem stores_level {x : Message} (hx : p.stores m x) (h : Level m c p) :
    ∀ s, c.stored = some s → s.attemptNo ≤ x.attemptNo := by
  intro s hs
  cases p with
  | begun =>
    have hle := h.2 s hs
    obtain rfl | rfl | rfl | ⟨t, rfl⟩ := hx <;> exact hle
  | answered o =>
    cases o with
    | delivered => obtain rfl := hx; exact h s hs
    | permanent => obtain rfl := hx; exact h.2 s hs
    | retryable => obtain rfl := hx; exact h.2 s hs
  | failed =>
    obtain ⟨t, rfl⟩ := hx
    exact (h.2 s hs).trans (Int.le_add_one le_rfl)
  | _ => exact absurd hx id

/-- An allowed port call of a call that is level with its card keeps what is terminal. -/
theorem touch_keeps (ha : p.allows en m op) (h : Level m c p) :
    Keeps c (touch (some m) a m.key op c) := by
  cases op with
  | putMessage x =>
    have hkey : x.key = m.key := (Phase.stores_same ha).key
    have hrow : (touch (some m) a m.key (.putMessage x) c).stored = some x := by
      simp [touch, hkey]
    refine ⟨fun hd => ?_, fun s hs => ⟨x, hrow, stores_level ha h s hs⟩⟩
    cases p with
    | answered o =>
      cases o with
      | delivered =>
        obtain rfl := ha
        refine ⟨⟨?_, _, hrow, rfl⟩, by simp [touch, hkey]⟩
        simpa [touch, hkey] using hd.1
      | permanent => exact absurd hd h.1
      | retryable => exact absurd hd h.1
    | begun => exact absurd hd h.1
    | failed => exact absurd hd h.1
    | _ => exact absurd ha id
  | addToDlq x r =>
    obtain ⟨rfl, rfl⟩ := ha
    exact ⟨fun hd => absurd hd h.1, fun s hs => ⟨s, by simpa [touch] using hs, le_rfl⟩⟩
  | appendAttempt x =>
    refine .of_same ?_ ?_ ?_ <;> simp only [touch] <;> split <;> first | rfl | exact fun _ hr => hr
  | post url body headers timeoutMs =>
    refine .of_same (by simp [touch]) (by simp [touch]) fun r hr => ?_
    simp [touch, hr]
  | transportSend x => exact absurd ha id
  | scheduleRetry x t =>
    refine .of_same ?_ ?_ ?_ <;> simp only [touch] <;> split <;> first | rfl | exact fun _ hr => hr
  | _ => exact .refl c

/-- An answer that is no success delivers nothing. -/
theorem not_deliveredOk_answered {r : HttpResult} (hr : isSuccess r = false)
    (h : ¬ Card.deliveredOk c) :
    ¬ Card.deliveredOk { c with answers := c.answers ++ [r] } := by
  rintro ⟨⟨r', hr', hsuccess⟩, hrow⟩
  rcases List.mem_append.mp hr' with hold | hnew
  · exact h ⟨⟨r', hold, hsuccess⟩, hrow⟩
  · rw [List.mem_singleton.mp hnew, hr] at hsuccess
    cases hsuccess

theorem isSuccess_of_outcome {r : HttpResult} (h : outcomeOf r ≠ .delivered) :
    isSuccess r = false := by
  cases r with
  | timeout => rfl
  | network => rfl
  | response status body headers =>
    have hcode : ¬ (200 ≤ status ∧ status < 300) :=
      fun hr => h (classifyOutcome_delivered.mpr ⟨status, rfl, hr⟩)
    simpa [isSuccess] using hcode

/-- A row that is not one of a delivered message undelivers nothing that was not. -/
theorem not_deliveredOk_stored {x : Message} (hx : x.status ≠ .delivered) :
    ¬ Card.deliveredOk { c with stored := some x } := by
  rintro ⟨-, s, hs, hstatus⟩
  exact hx (Option.some.inj hs ▸ hstatus)

/-- A call that goes on stays level. -/
theorem level_next (hp : p.keyed m) (ha : p.allows en m op) (h : Level m c p) {w : World} :
    Level m (touch (some m) a m.key op c) (p.next m op (exec (some m) a op w).1) := by
  cases op with
  | putMessage x =>
    have hkey : x.key = m.key := (Phase.stores_same ha).key
    have hcard : touch (some m) a m.key (.putMessage x) c = { c with stored := some x } := by
      simp [touch, hkey]
    rw [hcard]
    have hrow : ∀ s, ({ c with stored := some x } : Card).stored = some s →
        x.attemptNo = m.attemptNo → s.attemptNo ≤ m.attemptNo := by
      intro s hs hno
      rw [← Option.some.inj hs, hno]
    cases p with
    | begun =>
      obtain rfl | rfl | rfl | ⟨t, rfl⟩ := ha
      · exact ⟨not_deliveredOk_stored (by simp), fun s hs => hrow s hs rfl⟩
      · exact ⟨not_deliveredOk_stored (by simp), fun s hs => hrow s hs rfl⟩
      · trivial
      · trivial
    | answered o =>
      cases o with
      | delivered => trivial
      | permanent =>
        obtain rfl := ha
        exact ⟨not_deliveredOk_stored (by simp), fun s hs => hrow s hs rfl⟩
      | retryable =>
        obtain rfl := ha
        exact ⟨not_deliveredOk_stored (by simp), fun s hs => hrow s hs rfl⟩
    | failed => trivial
    | _ => exact absurd ha id
  | appendAttempt x =>
    have hsame : ∀ {q : Phase}, Level m c q →
        Level m (touch (some m) a m.key (.appendAttempt x) c) q := by
      intro q hq
      simp only [touch]
      split
      · exact hq
      · exact hq
    cases p with
    | doomed => exact hsame (q := .mourned) h
    | accepted => trivial
    | answered o =>
      cases o with
      | retryable => exact hsame (q := .failed) h
      | _ => exact absurd ha.2.2.2.2 id
    | _ => exact absurd ha.2.2.2.2 id
  | addToDlq x r =>
    obtain ⟨-, rfl⟩ := ha
    trivial
  | scheduleRetry x t =>
    rw [show p = .waiting x from ha]
    trivial
  | check url =>
    have htrying : p = .trying := ha
    subst htrying
    dsimp only [Phase.next]
    split
    · exact h
    · exact h
  | post url body headers timeoutMs =>
    have htrying : p = .trying := ha
    subst htrying
    have hcard : touch (some m) a m.key (.post url body headers timeoutMs) c =
        { c with answers := c.answers ++ [a.http] } := by simp [touch]
    rw [hcard]
    show Level m _ (.answered (outcomeOf a.http))
    cases ho : outcomeOf a.http with
    | delivered => exact h.2
    | permanent =>
      exact ⟨not_deliveredOk_answered (isSuccess_of_outcome (by simp [ho])) h.1, h.2⟩
    | retryable =>
      exact ⟨not_deliveredOk_answered (isSuccess_of_outcome (by simp [ho])) h.1, h.2⟩
  | transportSend x => exact absurd ha id
  | _ => exact h

end PortCall

/-! ## Runs -/

section Runs
variable {ι : Type} [DecidableEq ι] {en : Engine} {n : Node ι}

/-- A call at work, level with its card as long as it goes on. -/
structure Handler.Levels (en : Engine) (n : Node ι) (h : Handler) : Prop where
  obeys : Obeys (monitor en) (fun g _ => g.2.settled) (h.message, h.phase) h.rest
  keyed : h.phase.keyed h.message
  known : h.message ∈ n.accepted
  level : (∀ x, h.rest ≠ .throw x) → Level h.message (card n.world h.message.key) h.phase

/-- No two calls are about one message, and each is level with its card. -/
structure Apart (en : Engine) (n : Node ι) : Prop where
  handlers : ∀ i h, n.running i = some h → h.Levels en n
  alone : ∀ i j h g, n.running i = some h → n.running j = some g →
    h.message.key = g.message.key → i = j
  queued : ∀ m ∈ n.world.queue, m ∈ n.accepted

omit [DecidableEq ι] in
theorem apart_start (en : Engine) (w : World) : Apart en (Node.start w : Node ι) where
  handlers _ _ h := by cases h
  alone _ _ _ _ h := by cases h
  queued _ hm := hm

omit [DecidableEq ι] in
/-- The cards of the messages at work are as before. -/
theorem Handler.Levels.of_card {n' : Node ι} {h : Handler} (hl : h.Levels en n)
    (haccepted : ∀ m ∈ n.accepted, m ∈ n'.accepted)
    (hcard : (card n'.world h.message.key).stored = (card n.world h.message.key).stored ∧
      (card n'.world h.message.key).answers = (card n.world h.message.key).answers) :
    h.Levels en n' := by
  refine ⟨hl.obeys, hl.keyed, haccepted _ hl.known, fun hgoing => ?_⟩
  have hlevel := hl.level hgoing
  have hdelivered : Card.deliveredOk (card n'.world h.message.key) ↔
      Card.deliveredOk (card n.world h.message.key) := by
    unfold Card.deliveredOk
    rw [hcard.1, hcard.2]
  revert hlevel
  unfold Level
  rw [hdelivered, hcard.1]
  exact id

/-- What holds a card's row, its answers and its dead letters keeps what is terminal on it. -/
theorem keeps_of_card {e : Happening ι} (h : ∀ key,
    (card (happen en n e).world key).stored = (card n.world key).stored ∧
      (card (happen en n e).world key).answers = (card n.world key).answers ∧
      (card (happen en n e).world key).dlq = (card n.world key).dlq) : KeepsTerminal en n e := by
  intro key
  obtain ⟨hstored, hanswers, hdlq⟩ := h key
  exact .of_same hstored hdlq fun r hr => hanswers ▸ hr

/-- What a new message does to the cards. -/
theorem card_stored (w : World) (m : Message) (key : String × String) :
    card { w with store := w.store.putMessage m, queue := w.queue ++ [m] } key =
      if m.key = key then
        { card w key with stored := some m, queued := (card w key).queued ++ [m] }
      else card w key := by
  have htouch : card { w with store := w.store.putMessage m, queue := w.queue ++ [m] } key =
      touch none (answering 0 .timeout) key (.transportSend m)
        (touch none (answering 0 .timeout) key (.putMessage m) (card w key)) := by
    rw [← card_exec, ← card_exec]
    rfl
  rw [htouch]
  simp only [touch]
  split <;> rfl

theorem Apart.enqueue (h : Apart en n) (m : Message) :
    Apart en (n.enqueue m) ∧ KeepsTerminal en n (.enqueue m) := by
  by_cases hnew : n.world.store.getMessage m.tenant m.messageId = none ∧
      ∀ x ∈ n.accepted, x.key ≠ m.key
  · have hnode : n.enqueue m = { n with
        world := { n.world with
          store := n.world.store.putMessage m, queue := n.world.queue ++ [m] }
        accepted := n.accepted ++ [m] } := if_pos hnew
    refine ⟨?_, fun key => ?_⟩
    · rw [hnode]
      refine ⟨fun i g hg => ?_, h.alone, fun x hx => ?_⟩
      · have hlevels := h.handlers i g hg
        have hkey : m.key ≠ g.message.key := fun he => hnew.2 _ hlevels.known he.symm
        refine hlevels.of_card (fun x hx => List.mem_append_left _ hx) ?_
        rw [card_stored, if_neg hkey]
        exact ⟨rfl, rfl⟩
      · rcases List.mem_append.mp hx with hx | hx
        · exact List.mem_append_left _ (h.queued x hx)
        · exact List.mem_append_right _ hx
    · show Keeps (card n.world key) (card (n.enqueue m).world key)
      rw [hnode, card_stored]
      split
      · rename_i hkey
        have hnone : (card n.world key).stored = none := by
          rw [← hkey]
          exact hnew.1
        refine ⟨fun hd => ?_, fun s hs => ?_⟩
        · obtain ⟨-, x, hx, -⟩ := hd
          rw [hnone] at hx
          cases hx
        · rw [hnone] at hs
          cases hs
      · exact .refl _
  · have hnode : n.enqueue m = n := if_neg hnew
    refine ⟨hnode.symm ▸ h, fun key => ?_⟩
    show Keeps (card n.world key) (card (n.enqueue m).world key)
    rw [hnode]
    exact .refl _

/-- A copy that is handed out in time finds its call level with the card. -/
theorem Apart.handOut (h : Apart en n) (i : ι) (k : Nat) (lang : Lang)
    (htimely : Timely n (.handOut i k lang)) :
    Apart en (n.handOut en i k lang) ∧ KeepsTerminal en n (.handOut i k lang) := by
  have hworld : (n.handOut en i k lang).world = n.world := by
    unfold Node.handOut
    split <;> rfl
  refine ⟨?_, keeps_of_card fun key => ?_⟩
  · unfold Node.handOut
    split
    · rename_i m hidle hget
      obtain ⟨hnot, hlevel, halone⟩ := htimely m hget
      have hnew : ∀ j g, Function.update n.running i (some {
          message := m, rest := processWith lang.dialect en m, phase := .begun }) j = some g →
          j = i ∧ g.message = m ∧ g.rest = processWith lang.dialect en m ∧ g.phase = .begun ∨
            n.running j = some g := by
        intro j g hg
        by_cases hj : j = i
        · subst hj
          rw [Function.update_self] at hg
          cases hg
          exact .inl ⟨rfl, rfl, rfl, rfl⟩
        · rw [Function.update_of_ne hj] at hg
          exact .inr hg
      refine ⟨fun j g hg => ?_, fun j j' g g' hg hg' hkey => ?_, h.queued⟩
      · rcases hnew j g hg with ⟨-, rfl, hrest, hphase⟩ | hold
        · refine ⟨?_, ?_, h.queued _ (List.mem_of_getElem? hget), fun _ => ?_⟩
          · rw [hrest, hphase]
            exact process_obeys _ en g.message
          · rw [hphase]
            trivial
          · rw [hphase]
            exact ⟨hnot, hlevel⟩
        · have hlevels := h.handlers j g hold
          exact ⟨hlevels.obeys, hlevels.keyed, hlevels.known, hlevels.level⟩
      · rcases hnew j g hg with ⟨rfl, rfl, -, -⟩ | hold
        · rcases hnew j' g' hg' with ⟨rfl, -⟩ | hold'
          · rfl
          · exact absurd hkey.symm (halone j' g' hold')
        · rcases hnew j' g' hg' with ⟨rfl, rfl, -, -⟩ | hold'
          · exact absurd hkey (halone j g hold)
          · exact h.alone j j' g g' hold hold' hkey
    · exact h
  · have hsame : (happen en n (.handOut i k lang)).world = n.world := hworld
    rw [hsame]
    exact ⟨rfl, rfl, rfl⟩

/-- A call moves on, and touches no other card. -/
theorem Apart.moved (h : Apart en n) {i : ι} {g g' : Handler} {w : World}
    (hrun : n.running i = some g) (hmessage : g'.message = g.message)
    (hother : ∀ key, g.message.key ≠ key → card w key = card n.world key)
    (hqueue : w.queue = n.world.queue) (hlevels : g'.Levels en (n.moved i w g')) :
    Apart en (n.moved i w g') := by
  have hwas : ∀ j x, (n.moved i w g').running j = some x →
      ∃ y, n.running j = some y ∧ y.message = x.message := by
    intro j x hx
    by_cases hj : j = i
    · subst hj
      simp only [Node.moved, Function.update_self, Option.some.injEq] at hx
      exact ⟨g, hrun, hmessage.symm.trans (congrArg Handler.message hx)⟩
    · simp only [Node.moved, Function.update_of_ne hj] at hx
      exact ⟨x, hx, rfl⟩
  refine ⟨fun j x hx => ?_, fun j j' x x' hx hx' hkey => ?_, ?_⟩
  · by_cases hj : j = i
    · subst hj
      simp only [Node.moved, Function.update_self, Option.some.injEq] at hx
      exact hx ▸ hlevels
    · simp only [Node.moved, Function.update_of_ne hj] at hx
      have hkey : g.message.key ≠ x.message.key := fun he => hj (h.alone i j g x hrun hx he).symm
      refine (h.handlers j x hx).of_card (fun _ hm => hm) ?_
      show (card w x.message.key).stored = _ ∧ (card w x.message.key).answers = _
      rw [hother _ hkey]
      exact ⟨rfl, rfl⟩
  · obtain ⟨y, hy, hsame⟩ := hwas j x hx
    obtain ⟨y', hy', hsame'⟩ := hwas j' x' hx'
    exact h.alone j j' y y' hy hy' (by rw [hsame, hsame', hkey])
  · intro m hm
    exact h.queued m (hqueue ▸ hm)

theorem Apart.call (h : Apart en n) (i : ι) (inp : Input) :
    Apart en (n.call i inp) ∧ KeepsTerminal en n (.call i inp) := by
  have hidle : n.call i inp = n → Apart en (n.call i inp) ∧ KeepsTerminal en n (.call i inp) := by
    intro hsame
    refine ⟨hsame.symm ▸ h, fun key => ?_⟩
    show Keeps (card n.world key) (card (n.call i inp).world key)
    rw [hsame]
    exact .refl _
  cases hrun : n.running i with
  | none => exact hidle (by unfold Node.call; rw [hrun])
  | some g =>
    obtain ⟨m, rest, p⟩ := g
    cases rest with
    | pure u => exact hidle (by unfold Node.call; rw [hrun])
    | throw x => exact hidle (by unfold Node.call; rw [hrun])
    | call op k =>
      obtain ⟨hobeys, hkeyed, hknown, hlevel⟩ := h.handlers i _ hrun
      have hal : p.allows en m op := hobeys.1
      have hlevel' : Level m (card n.world m.key) p := hlevel fun x hx => by cases hx
      have hother : ∀ key, m.key ≠ key →
          card (exec (some m) inp.1 op n.world).2 key = card n.world key := by
        intro key hkey
        rw [card_exec, touch_other (Phase.footprint hkeyed hal) hkey]
      have hqueue : (exec (some m) inp.1 op n.world).2.queue = n.world.queue := by
        rw [exec_queue]
        cases op with
        | transportSend x => exact absurd hal id
        | _ => rfl
      have hkeeps : ∀ key, Keeps (card n.world key)
          (card (exec (some m) inp.1 op n.world).2 key) := by
        intro key
        by_cases hkey : m.key = key
        · subst hkey
          rw [card_exec]
          exact touch_keeps hal hlevel'
        · rw [hother key hkey]
          exact .refl _
      have hmoved : ∀ w g, n.call i inp = n.moved i w g → Apart en (n.moved i w g) →
          (∀ key, Keeps (card n.world key) (card w key)) →
          Apart en (n.call i inp) ∧ KeepsTerminal en n (.call i inp) := by
        intro w g hcall hapart hworld
        refine ⟨hcall.symm ▸ hapart, fun key => ?_⟩
        show Keeps (card n.world key) (card (n.call i inp).world key)
        rw [hcall]
        exact hworld key
      -- Whether it is answered or not, the port call leaves one of two worlds.
      obtain ⟨a, f⟩ := inp
      cases f with
      | none =>
        refine hmoved (exec (some m) a op n.world).2 {
            message := m, rest := k (exec (some m) a op n.world).1
            phase := p.next m op (exec (some m) a op n.world).1 } ?_ ?_ hkeeps
        · unfold Node.call
          rw [hrun]
          rfl
        · refine h.moved hrun rfl hother hqueue ⟨hobeys.2 _, Phase.keyed_next hkeyed hal _, hknown,
            fun _ => ?_⟩
          show Level m (card (exec (some m) a op n.world).2 m.key) _
          rw [card_exec]
          exact level_next hkeyed hal hlevel'
      | before =>
        refine hmoved n.world { message := m, rest := .throw "port failure", phase := p } ?_ ?_
          fun _ => .refl _
        · unfold Node.call
          rw [hrun]
          rfl
        · exact h.moved hrun rfl (fun _ _ => rfl) rfl ⟨trivial, hkeyed, hknown,
            fun hgoing => absurd rfl (hgoing _)⟩
      | after =>
        refine hmoved (exec (some m) a op n.world).2 {
            message := m, rest := .throw "port failure", phase := p } ?_ ?_ hkeeps
        · unfold Node.call
          rw [hrun]
          rfl
        · exact h.moved hrun rfl hother hqueue ⟨trivial, hkeyed, hknown,
            fun hgoing => absurd rfl (hgoing _)⟩

theorem Apart.finish (h : Apart en n) (i : ι) :
    Apart en (n.finish i) ∧ KeepsTerminal en n (.finish i) := by
  have hothers : ∀ j g, Function.update n.running i none j = some g → n.running j = some g := by
    intro j g hg
    by_cases hj : j = i
    · subst hj
      rw [Function.update_self] at hg
      cases hg
    · rwa [Function.update_of_ne hj] at hg
  have hcard : ∀ key, (card (n.finish i).world key).stored = (card n.world key).stored ∧
      (card (n.finish i).world key).answers = (card n.world key).answers ∧
      (card (n.finish i).world key).dlq = (card n.world key).dlq := by
    intro key
    unfold Node.finish
    split <;> exact ⟨rfl, rfl, rfl⟩
  refine ⟨?_, keeps_of_card hcard⟩
  have hlevels : ∀ j g, n.running j = some g → g.Levels en (n.finish i) := by
    intro j g hg
    refine (h.handlers j g hg).of_card (fun x hx => ?_) ⟨(hcard _).1, (hcard _).2.1⟩
    unfold Node.finish
    split <;> exact hx
  revert hlevels
  unfold Node.finish
  split
  · intro hlevels
    exact ⟨fun j g hg => hlevels j g (hothers j g hg),
      fun j j' g g' hg hg' => h.alone j j' g g' (hothers j g hg) (hothers j' g' hg'), h.queued⟩
  · rename_i m x p hrun
    intro hlevels
    refine ⟨fun j g hg => hlevels j g (hothers j g hg),
      fun j j' g g' hg hg' => h.alone j j' g g' (hothers j g hg) (hothers j' g' hg'), ?_⟩
    intro y hy
    rcases List.mem_append.mp hy with hy | hy
    · exact h.queued y hy
    · rw [List.mem_singleton.mp hy]
      exact (h.handlers i _ hrun).known
  · intro _
    exact h

theorem Apart.release (h : Apart en n) (k : Nat) :
    Apart en (n.release k) ∧ KeepsTerminal en n (.release k) := by
  have hcard : ∀ key, (card (n.release k).world key).stored = (card n.world key).stored ∧
      (card (n.release k).world key).answers = (card n.world key).answers ∧
      (card (n.release k).world key).dlq = (card n.world key).dlq := by
    intro key
    unfold Node.release
    split <;> exact ⟨rfl, rfl, rfl⟩
  refine ⟨?_, keeps_of_card hcard⟩
  have hrunning : (n.release k).running = n.running := by
    unfold Node.release
    split <;> rfl
  refine ⟨fun i g hg => ?_, fun i j g g' hg hg' => ?_, ?_⟩
  · rw [hrunning] at hg
    refine (h.handlers i g hg).of_card (fun x hx => ?_) ⟨(hcard _).1, (hcard _).2.1⟩
    unfold Node.release
    split
    · exact List.mem_append_left _ hx
    · exact hx
  · rw [hrunning] at hg hg'
    exact h.alone i j g g' hg hg'
  · unfold Node.release
    split
    · intro m hm
      rcases List.mem_append.mp hm with hm | hm
      · exact List.mem_append_left _ (h.queued m hm)
      · exact List.mem_append_right _ hm
    · exact h.queued

theorem Apart.edit (h : Apart en n) (t : String) (endpoints : KMap Endpoint.endpointId) :
    Apart en (n.edit t endpoints) ∧ KeepsTerminal en n (.edit t endpoints) := by
  have hcard : ∀ key, card (n.edit t endpoints).world key = card n.world key :=
    card_modify _ _ _ fun _ => ⟨rfl, rfl, rfl⟩
  refine ⟨⟨fun i g hg => ?_, h.alone, h.queued⟩, keeps_of_card fun key => ?_⟩
  · refine (h.handlers i g hg).of_card (fun _ hx => hx) ?_
    rw [hcard]
    exact ⟨rfl, rfl⟩
  · have hsame : card (happen en n (.edit t endpoints)).world key = card n.world key := hcard key
    rw [hsame]
    exact ⟨rfl, rfl, rfl⟩

/-- One step that hands out no copy too late or too early keeps what is terminal. -/
theorem Apart.step (h : Apart en n) (e : Happening ι) (htimely : Timely n e) :
    Apart en (happen en n e) ∧ KeepsTerminal en n e := by
  cases e with
  | enqueue m => exact h.enqueue m
  | handOut i k lang => exact h.handOut i k lang htimely
  | call i inp => exact h.call i inp
  | finish i => exact h.finish i
  | release k => exact h.release k
  | edit t endpoints => exact h.edit t endpoints

theorem Apart.run (h : Apart en n) {es : List (Happening ι)}
    (htimely : Throughout en Timely n es) : Throughout en (KeepsTerminal en) n es := by
  induction es generalizing n with
  | nil => trivial
  | cons e es ih =>
    obtain ⟨hnext, hkeeps⟩ := h.step e htimely.1
    exact ⟨hkeeps, ih hnext htimely.2⟩

end Runs

/-- **Terminal status and duplicates.** Whatever calls run at the same time, fail and are given
one copy again: in every history in which no copy is handed out that is stale or whose message
another call is at work on, a delivered message stays delivered and out of the DLQ, and stored
attempt numbers never decrease. -/
theorem terminal_survives {ι : Type} [DecidableEq ι] (en : Engine) (w : World)
    (es : List (Happening ι)) (h : Throughout en Timely (Node.start w : Node ι) es) :
    Throughout en (KeepsTerminal en) (Node.start w : Node ι) es :=
  (apart_start en w).run h

/-- What every step keeps, the history keeps. -/
theorem Throughout.keeps {ι : Type} [DecidableEq ι] {en : Engine} {n : Node ι}
    {es : List (Happening ι)} (h : Throughout en (KeepsTerminal en) n es)
    (key : String × String) (hd : Card.deliveredOk (card n.world key)) :
    Card.deliveredOk (card (es.foldl (happen en) n).world key) ∧
      (card (es.foldl (happen en) n).world key).dlq = (card n.world key).dlq := by
  induction es generalizing n with
  | nil => exact ⟨hd, rfl⟩
  | cons e es ih =>
    obtain ⟨hnext, hdlq⟩ := (h.1 key).delivered hd
    obtain ⟨hlast, hsame⟩ := ih h.2 hnext
    exact ⟨hlast, hsame.trans hdlq⟩

theorem Throughout.append {ι : Type} [DecidableEq ι] {en : Engine}
    {P : Node ι → Happening ι → Prop} {n : Node ι} {es es' : List (Happening ι)}
    (h : Throughout en P n (es ++ es')) : Throughout en P (es.foldl (happen en) n) es' := by
  induction es generalizing n with
  | nil => exact h
  | cons e es ih => exact ih h.2

/-- Call `i` runs on, each of its port calls answered alike. -/
def answered (i : Fin 2) (now : Time) (status : Int) : List (Happening (Fin 2)) :=
  List.replicate 20 (.call i (answering now (.response status "" none), .none))

/-- A message to the one endpoint is tried, retried and delivered by call `i`, while call `j`
delivers another. -/
def retriedThenDelivered (i j : Fin 2) : List (Happening (Fin 2)) :=
  [.enqueue (messageFor "msg_a"), .enqueue (messageFor "msg_b"), .handOut i 0 .ts,
      .handOut j 1 .go] ++
    answered i 0 503 ++ [.finish i, .release 0] ++ answered j 1 200 ++ [.handOut i 2 .ts] ++
    answered i 2000 200 ++ [.finish i]

theorem retriedThenDelivered_keeps :
    Throughout (plainEngine 5) Timely (Node.start oneEndpoint) (retriedThenDelivered 0 1) ∧
      Throughout (plainEngine 5) (KeepsTerminal (plainEngine 5)) (Node.start oneEndpoint)
        (retriedThenDelivered 0 1) := by
  have h : Throughout (plainEngine 5) Timely (Node.start oneEndpoint)
      (retriedThenDelivered 0 1) := by
    decide +kernel
  exact ⟨h, terminal_survives _ _ _ h⟩

/-- The first copy comes again, late, and is refused with 404: the delivered message is stored as
dead at its first attempt and dead-lettered. -/
theorem late_duplicate_undelivers :
    ¬ ∀ (en : Engine) (w : World) (es : List (Happening (Fin 2))),
      Throughout en (KeepsTerminal en) (Node.start w) es := by
  intro h
  have hlast := (h (plainEngine 5) oneEndpoint (retriedThenDelivered 0 1 ++
    ([.handOut 0 0 .ts] ++ answered 0 3000 404))).append.keeps ("acme", "msg_a")
      (by decide +kernel)
  revert hlast
  decide +kernel

/-- Two calls are given the first copy before either has written a row: what the second stores
takes the delivery of the first back. -/
theorem overlapping_duplicate_undelivers :
    ¬ Throughout (plainEngine 5) (KeepsTerminal (plainEngine 5)) (Node.start oneEndpoint)
      ([.enqueue (messageFor "msg_a"), .handOut 0 0 .ts, .handOut 1 0 .ts] ++ answered 0 0 200 ++
        answered 1 0 404) := by
  intro h
  have hlast := h.append.keeps ("acme", "msg_a") (by decide +kernel)
  revert hlast
  decide +kernel

end Anyhook.Delivery
