import Anyhook.Testing.Card
import Anyhook.Testing.Pool

/-! What an accepted event leaves behind: each message of its fan-out is stored as
pending and put on the transport, once, and nothing else about any message changes. -/
namespace Anyhook.Delivery
open Anyhook.Core Anyhook.Testing Anyhook.Lib.Program

/-- The messages enqueued so far, and the one that is stored but not enqueued. -/
structure Outbox where
  sent : List Message
  hold : Option Message

/-- A message as fan-out makes it. -/
def Message.fresh (m : Message) : Prop := m.status = .pending ∧ m.attemptNo = 0

def sendMonitor : Monitor Op Res Outbox where
  allows g
    | .putMessage m => g.hold = none ∧ Message.fresh m
    | .transportSend m => g.hold = some m
    | .recordEvent .. | .finalizeEvent .. | .matchEndpoints .. | .now | .next => True
    | _ => False
  next g
    | .putMessage m, _ => { g with hold := some m }
    | .transportSend m, _ => { sent := g.sent ++ [m], hold := none }
    | _, _ => g

/-! ## The programs -/

theorem idChars_reads (n : Nat) : Reads (Core.idChars n) := by
  induction n with
  | zero => exact reads_pure _
  | succ n ih => exact reads_next.bind fun _ => ih.bind fun _ => reads_pure _

theorem newId_reads (pre : String) : Reads (Core.newId pre) :=
  (idChars_reads 20).bind fun _ => reads_pure _

theorem goIdChars_reads (n : Nat) : Reads (Go.idChars n) := by
  induction n with
  | zero => exact reads_pure _
  | succ n ih => exact reads_next.bind fun _ => ih.bind fun _ => reads_pure _

theorem goNewId_reads (pre : String) : Reads (Go.newId pre) :=
  (goIdChars_reads 20).bind fun _ => reads_pure _

theorem fanoutWith_reads {gen : Eng String} (hg : Reads gen) (event : SendEvent) (eventId : String)
    (now : Time) (eps : List Endpoint) : Reads (fanoutWith gen event eventId now eps) := by
  induction eps with
  | nil => exact reads_pure _
  | cons e rest ih =>
    unfold fanoutWith
    split
    · exact hg.bind fun _ => ih.bind fun _ => reads_pure _
    · exact ih

theorem send_reads {g : Outbox} {α : Type} {p : Eng α} {done : Outbox → α → Prop} (hp : Reads p)
    (hd : ∀ a, done g a) : Obeys sendMonitor done g p :=
  hp.obeys ⟨trivial, fun _ => rfl⟩ ⟨trivial, fun _ => rfl⟩ hd

/-- Fan-out only draws ids, and every message it makes is fresh. -/
theorem fanoutWith_obeys {gen : Eng String} (hg : Reads gen) (event : SendEvent)
    (eventId : String) (now : Time) (eps : List Endpoint) (g : Outbox) :
    Obeys sendMonitor (fun g' ms => g' = g ∧ ∀ m ∈ ms, Message.fresh m) g
      (fanoutWith gen event eventId now eps) := by
  induction eps with
  | nil => exact ⟨rfl, nofun⟩
  | cons e rest ih =>
    unfold fanoutWith
    split
    · rw [obeys_bind]
      refine send_reads hg fun id => ?_
      rw [obeys_bind]
      refine ih.mono ?_
      rintro g' ms ⟨rfl, hms⟩
      refine ⟨rfl, fun m hm => ?_⟩
      rcases List.mem_cons.mp hm with rfl | hm
      · exact ⟨rfl, rfl⟩
      · exact hms m hm
    · exact ih

theorem enqueueAll_obeys {ms : List Message} (hms : ∀ m ∈ ms, Message.fresh m) {g : Outbox}
    (hg : g.hold = none) :
    Obeys sendMonitor (fun g' _ => g'.hold = none) g (enqueueAll ms) := by
  induction ms generalizing g with
  | nil => exact hg
  | cons m rest ih =>
    refine obeys_perform_bind.mpr ⟨⟨hg, hms m List.mem_cons_self⟩, fun _ => ?_⟩
    refine obeys_perform_bind.mpr ⟨rfl, fun _ => ?_⟩
    exact ih (fun m hm => hms m (List.mem_cons_of_mem _ hm)) rfl

theorem acceptWith_obeys {genEvent genMessage : Eng String} (he : Reads genEvent)
    (hm : Reads genMessage) (event : SendEvent) (key : String) :
    Obeys sendMonitor (fun g _ => g.hold = none) { sent := [], hold := none }
      (acceptWith genEvent (fanoutWith genMessage) event key) := by
  unfold acceptWith
  rw [obeys_bind]
  refine send_reads he fun eventId => ?_
  refine obeys_perform_bind.mpr ⟨trivial, fun rec => ?_⟩
  split
  · unfold distribute
    refine obeys_perform_bind.mpr ⟨trivial, fun eps => ?_⟩
    refine obeys_perform_bind.mpr ⟨trivial, fun now => ?_⟩
    rw [obeys_bind]
    refine (fanoutWith_obeys hm event eventId now eps _).mono ?_
    rintro g ms ⟨rfl, hms⟩
    rw [obeys_bind]
    refine (enqueueAll_obeys hms rfl).mono ?_
    rintro g _ hg
    exact ⟨trivial, fun _ => hg⟩
  · rfl

theorem enqueueAll_total (ms : List Message) : Prog.Total (enqueueAll ms) := by
  induction ms with
  | nil => trivial
  | cons m rest ih => exact Prog.total_call fun _ => Prog.total_call fun _ => ih

theorem acceptWith_total {genEvent genMessage : Eng String} (he : Reads genEvent)
    (hm : Reads genMessage) (event : SendEvent) (key : String) :
    Prog.Total (acceptWith genEvent (fanoutWith genMessage) event key) := by
  refine Prog.total_bind he.total fun eventId => Prog.total_call fun rec => ?_
  split
  · unfold distribute
    refine Prog.total_call fun eps => Prog.total_call fun now => ?_
    refine Prog.total_bind (fanoutWith_reads hm event eventId now eps).total fun ms => ?_
    exact Prog.total_bind (enqueueAll_total ms) fun _ => Prog.total_call fun _ => trivial
  · trivial

/-- Both engines accept an event in the same way, each with its own id generators. -/
theorem send_eq (lang : Lang) (en : Engine) (event : SendEvent) :
    ∃ genEvent genMessage : Eng String, Reads genEvent ∧ Reads genMessage ∧
      lang.send en event = match sendError en event with
        | some e => .throw e
        | none => acceptWith genEvent (fanoutWith genMessage) event (lang.keyOf en event) := by
  cases lang with
  | ts => exact ⟨_, _, newId_reads "evt", newId_reads "msg", rfl⟩
  | go => exact ⟨_, _, goNewId_reads "evt", goNewId_reads "msg", rfl⟩

/-! ## The run -/

/-- The card of `key` once the messages `sent` are stored and enqueued. -/
def withSent (c : Card) (key : String × String) (sent : List Message) : Card :=
  { c with
    stored := (sent.filter fun m => m.key = key).getLast?.or c.stored
    queued := c.queued ++ sent.filter fun m => m.key = key }

/-- What is true of the world while `send` runs. -/
structure Sending (w : World) (g : Outbox) (s : World × Nat) : Prop where
  fresh : ∀ m ∈ g.sent ++ g.hold.toList, Message.fresh m
  queue : s.1.queue = w.queue ++ g.sent
  cards : ∀ key, card s.1 key = { withSent (card w key) key g.sent with
    stored := ((g.sent ++ g.hold.toList).filter fun m => m.key = key).getLast?.or
      (card w key).stored }

theorem Sending.step {w : World} {g : Outbox} {s : World × Nat} {op : Op} {a : Answer} {r : Res op}
    (h : Sending w g s) (hal : sendMonitor.allows g op) (n : Nat) :
    Sending w (sendMonitor.next g op r) ((exec none a op s.1).2, n) := by
  obtain ⟨sent, hold⟩ := g
  obtain ⟨hf, hq, hc⟩ := h
  cases op with
  | putMessage m =>
    obtain ⟨hh, hm⟩ := hal
    simp only at hh
    subst hh
    refine ⟨fun x hx => ?_, hq, fun key => ?_⟩
    · rcases List.mem_append.mp hx with hx | hx
      · exact hf x (List.mem_append_left _ hx)
      · rw [show x = m by simpa [sendMonitor] using hx]; exact hm
    · rw [card_exec, hc]
      by_cases hk : m.key = key <;> simp [touch, sendMonitor, withSent, hk]
  | transportSend m =>
    have hh : hold = some m := hal
    subst hh
    refine ⟨fun x hx => hf x (by simpa [sendMonitor] using hx), ?_, fun key => ?_⟩
    · simp [exec, sendMonitor, hq]
    · rw [card_exec, hc]
      by_cases hk : m.key = key <;> simp [touch, sendMonitor, withSent, hk]
  | recordEvent t ev key =>
    refine ⟨hf, ?_, fun x => ?_⟩
    · simp only [exec]; exact hq
    · rw [card_exec, hc]; rfl
  | finalizeEvent => exact ⟨hf, hq, fun key => by rw [card_exec, hc]; rfl⟩
  | matchEndpoints => exact ⟨hf, hq, fun key => by rw [card_exec, hc]; rfl⟩
  | now => exact ⟨hf, hq, fun key => by rw [card_exec, hc]; rfl⟩
  | next => exact ⟨hf, hq, fun key => by rw [card_exec, hc]; rfl⟩
  | _ => exact absurd hal id

/-- **An accepted event** puts some fresh messages on the transport, stores each as
pending, and changes no other card. -/
theorem send_run (lang : Lang) (en : Engine) (event : SendEvent) (answers : Nat → Answer)
    (w : World) : ∃ sent : List Message, (∀ m ∈ sent, Message.fresh m) ∧
      (runSeq none (unfailing answers) (lang.send en event) w).2.queue = w.queue ++ sent ∧
      ∀ key, card (runSeq none (unfailing answers) (lang.send en event) w).2 key =
        withSent (card w key) key sent := by
  have hnone : ∀ key, card w key = withSent (card w key) key [] := by simp [withSent]
  obtain ⟨genEvent, genMessage, he, hm, heq⟩ := send_eq lang en event
  rw [heq]
  cases sendError en event with
  | some e => exact ⟨[], nofun, by simp [runSeq], fun key => by simpa [runSeq] using hnone key⟩
  | none =>
    dsimp only
    have hok : ∀ op s, ∃ r s', execSeq none (unfailing answers) op s = (.ok r, s') :=
      fun op s => ⟨_, _, rfl⟩
    have htotal := acceptWith_total he hm event (lang.keyOf en event)
    obtain ⟨rec, s', hrun⟩ := htotal.run_ok _ hok (w, 0)
    have hinv := (acceptWith_obeys he hm event (lang.keyOf en event)).run_inv
      (execSeq none (unfailing answers)) (I := Sending w) (E := fun _ => True) (s := (w, 0))
      (fun g op s r s' hg hal hx => by
        obtain ⟨-, rfl⟩ := Prod.mk.inj hx
        exact hg.step hal _)
      (fun _ _ _ _ _ _ _ _ => trivial) (fun _ _ _ => trivial)
      ⟨nofun, by simp, fun key => by simp [withSent]⟩
    rw [hrun] at hinv
    obtain ⟨⟨sent, hold⟩, hh, hf, hq, hc⟩ := hinv
    simp only at hh
    subst hh
    simp only [runSeq, hrun]
    refine ⟨sent, fun m hm => hf m (by simpa using hm), hq, fun key => ?_⟩
    rw [hc]
    simp [withSent]

end Anyhook.Delivery
