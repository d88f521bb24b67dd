import Anyhook.Delivery.Quiesces
import Anyhook.Delivery.RetrySafe
import Anyhook.Delivery.Wire

/-! Sessions of the test harness: events are sent, endpoints created, edited and deleted, the
clock set, and the deliveries run, in any order. Nothing is stuck at the end of a session: each
message that was ever stored, queued or scheduled is delivered or dead once the deliveries have
been run to rest, and an accepted event has come so far at every endpoint that wanted it. -/
namespace Anyhook.Delivery
open Anyhook.Core Anyhook.Testing Anyhook.Lib.Program Anyhook.Lib.Agenda Anyhook.Lib.OrderedMap

/-! ## What a step keeps -/

/-- What is covered stays covered, and what is newly stored is covered. -/
structure Shelters (r r' : Runtime) : Prop where
  clock : r.clock ≤ r'.clock
  covered : ∀ key, Covered r key → Covered r' key
  stored : ∀ key x, r'.world.store.getMessage key.1 key.2 = some x →
    r.world.store.getMessage key.1 key.2 = some x ∨ Covered r' key

theorem Shelters.refl (r : Runtime) : Shelters r r := ⟨le_rfl, fun _ h => h, fun _ _ h => .inl h⟩

theorem Shelters.trans {r s t : Runtime} (h : Shelters r s) (h' : Shelters s t) :
    Shelters r t where
  clock := h.clock.trans h'.clock
  covered key hr := h'.covered key (h.covered key hr)
  stored key x hx := by
    obtain hs | hcovered := h'.stored key x hx
    · exact (h.stored key x hs).imp_right (h'.covered key)
    · exact .inr hcovered

/-- A copy under way is one in the transport or the scheduler. -/
theorem covered_iff {r : Runtime} {key : String × String} :
    Covered r key ↔ (∃ m ∈ r.world.queue ++ r.world.pending.map Prod.snd, m.key = key) ∨
      Final r.world key := by
  have hlive : (liveOf r).map Prod.snd = r.world.queue ++ r.world.pending.map Prod.snd := by
    unfold liveOf Diary.live Runtime.diary
    rw [List.map_append, List.map_map, List.map_map]
    exact congrArg₂ _ (List.map_id _) rfl
  refine or_congr_left ?_
  rw [← hlive]
  constructor
  · intro h
    obtain ⟨p, hp, hkey⟩ := h
    exact ⟨p.2, List.mem_map_of_mem hp, hkey⟩
  · intro h
    obtain ⟨m, hm, hkey⟩ := h
    obtain ⟨p, hp, rfl⟩ := List.mem_map.mp hm
    exact ⟨p, hp, hkey⟩

/-- A step that keeps the messages and leaves each copy where it is under way. -/
theorem Shelters.of_messages {r r' : Runtime} (hclock : r.clock ≤ r'.clock)
    (hcopies : ∀ m ∈ r.world.queue ++ r.world.pending.map Prod.snd,
      m ∈ r'.world.queue ++ r'.world.pending.map Prod.snd)
    (hmessages : ∀ t id, r'.world.store.getMessage t id = r.world.store.getMessage t id) :
    Shelters r r' where
  clock := hclock
  covered key h := by
    rw [covered_iff] at h ⊢
    obtain ⟨m, hm, hkey⟩ | ⟨x, hx, hstatus⟩ := h
    · exact .inl ⟨m, hcopies m hm, hkey⟩
    · exact .inr ⟨x, (hmessages _ _).trans hx, hstatus⟩
  stored key x hx := .inl ((hmessages _ _).symm.trans hx)

/-! ## Delivery runs -/

section Deliveries
variable {lang : Lang} {en : Engine} {env : Nat → Answer} {fuel : Nat} {r t : Runtime}

theorem handle_shelters (hregular : Regular lang en env) (hclock : 0 ≤ r.clock) {m : Message}
    {rest : List Message} (hqueue : r.world.queue = m :: rest) :
    ∃ s, (r.shifted rest).handle lang en env m = (.ok (), s) ∧ Shelters r s := by
  obtain ⟨s, hrun, hspares, hhandled⟩ := handle_leaves (r := r.shifted rest) hregular hclock m
  have hcovered : ∀ key, Covered (r.shifted rest) key ∨ key = m.key → Covered s key :=
    fun key hkey => handled_covered hspares hhandled hkey
  refine ⟨s, hrun, hspares.clock.ge, fun key hkey => hcovered key ?_, fun key x hx => ?_⟩
  · rw [covered_iff, hqueue] at hkey
    rw [covered_iff]
    obtain ⟨x, hx, hkey⟩ | hfinal := hkey
    · rcases List.mem_cons.mp hx with rfl | hx
      · exact .inr hkey.symm
      · exact .inl (.inl ⟨x, hx, hkey⟩)
    · exact .inl (.inr hfinal)
  · by_cases hm : key = m.key
    · exact .inr (hcovered key (.inr hm))
    · exact .inl ((hspares.messages _ _ hm).symm.trans hx)

theorem drain_shelters (hregular : Regular lang en env) (fuel : Nat) (hclock : 0 ≤ r.clock) :
    Shelters r (r.drain lang en env fuel).2 ∧
      ((r.drain lang en env fuel).1 = .ok () → (r.drain lang en env fuel).2.world.queue = []) := by
  induction fuel generalizing r with
  | zero => exact ⟨.refl r, fun h => by cases h⟩
  | succ fuel ih =>
    unfold Runtime.drain
    cases hqueue : r.world.queue with
    | nil => exact ⟨.refl r, fun _ => hqueue⟩
    | cons m rest =>
      obtain ⟨s, hrun, hshelters⟩ := handle_shelters hregular hclock hqueue
      dsimp only
      rw [hrun]
      obtain ⟨hmore, hempty⟩ := ih (hclock.trans hshelters.clock)
      exact ⟨hshelters.trans hmore, hempty⟩

theorem mem_advance (w : World) (now : Time) (m : Message) :
    m ∈ (w.advance now).queue ++ (w.advance now).pending.map Prod.snd ↔
      m ∈ w.queue ++ w.pending.map Prod.snd := by
  have hsplit : m ∈ w.pending.map Prod.snd ↔
      m ∈ (w.pending.filter fun p => p.1 ≤ now).map Prod.snd ∨
        m ∈ (w.pending.filter fun p => now < p.1).map Prod.snd := by
    constructor
    · intro h
      obtain ⟨p, hp, rfl⟩ := List.mem_map.mp h
      by_cases hdue : p.1 ≤ now
      · exact .inl (List.mem_map_of_mem (List.mem_filter.mpr ⟨hp, decide_eq_true hdue⟩))
      · exact .inr (List.mem_map_of_mem
          (List.mem_filter.mpr ⟨hp, decide_eq_true (not_le.mp hdue)⟩))
    · rintro (h | h)
      · exact List.map_subset _ (List.filter_subset_self _) h
      · exact List.map_subset _ (List.filter_subset_self _) h
  unfold World.advance
  dsimp only
  rw [List.mem_append, List.mem_append, List.mem_append, hsplit, or_assoc]

theorem rounds_shelters (hregular : Regular lang en env) (fuel : Nat) (maxRounds : Int) (left : Nat)
    (hclock : 0 ≤ r.clock) :
    Shelters r (r.rounds lang en env fuel maxRounds left).2 ∧
      ((r.rounds lang en env fuel maxRounds left).1 = .ok () →
        (r.rounds lang en env fuel maxRounds left).2.world.queue = [] ∧
          (r.rounds lang en env fuel maxRounds left).2.world.pending = []) := by
  induction left generalizing r with
  | zero => exact ⟨.refl r, fun h => by cases h⟩
  | succ left ih =>
    obtain ⟨hshelters, hempty⟩ := drain_shelters hregular fuel hclock
    unfold Runtime.rounds
    revert hshelters hempty
    obtain ⟨out, s⟩ := r.drain lang en env fuel
    intro hshelters hempty
    cases out with
    | error e => exact ⟨hshelters, fun h => by cases h⟩
    | ok u =>
      dsimp only at hshelters ⊢
      by_cases hpending : s.world.pending.length = 0
      · rw [if_pos hpending]
        exact ⟨hshelters, fun _ => ⟨hempty rfl, List.eq_nil_of_length_eq_zero hpending⟩⟩
      · rw [if_neg hpending]
        have hnext : Shelters s s.next :=
          .of_messages (le_setClock _ _) (fun m hm => (mem_advance s.world _ m).mpr hm)
            fun _ _ => rfl
        obtain ⟨hmore, hrest⟩ := ih (hclock.trans (hshelters.clock.trans hnext.clock))
        exact ⟨(hshelters.trans hnext).trans hmore, hrest⟩

end Deliveries

/-! ## Sends -/

section Send
variable (lang : Lang) (en : Engine) (env : Nat → Answer) (r : Runtime) (event : SendEvent)

/-- A send puts messages on the queue, each stored under its key, and does no more to messages. -/
theorem send_leaves : ∃ sent : List Message,
    (r.send lang en env event).2.clock = r.clock ∧
    (r.send lang en env event).2.world.queue = r.world.queue ++ sent ∧
    (r.send lang en env event).2.world.pending = r.world.pending ∧
    ∀ key, (r.send lang en env event).2.world.store.getMessage key.1 key.2 =
      (sent.filter fun m => m.key = key).getLast?.or (r.world.store.getMessage key.1 key.2) := by
  unfold Runtime.send
  obtain ⟨genEvent, genMessage, he, hm, heq⟩ := send_eq lang en event
  rw [heq]
  cases sendError en event with
  | some e => exact ⟨[], rfl, (List.append_nil _).symm, rfl, fun _ => rfl⟩
  | none =>
    dsimp only
    have htotal := acceptWith_total he hm event (lang.keyOf en event)
    obtain ⟨receipt, s', hrun⟩ := htotal.run_ok (Runtime.sendExec env) (fun _ _ => ⟨_, _, rfl⟩) r
    have hinv := (acceptWith_obeys he hm event (lang.keyOf en event)).run_inv
      (Runtime.sendExec env) (I := fun g s => Sending r.world g (s.world, s.made) ∧
        s.clock = r.clock ∧ s.world.pending = r.world.pending) (E := fun _ => True) (s := r)
      ?_ (fun _ _ _ _ _ _ _ _ => trivial) (fun _ _ _ => trivial) ⟨?_, rfl, rfl⟩
    · rw [hrun] at hinv ⊢
      obtain ⟨⟨sent, hold⟩, hhold, hsending, hclock, hpending⟩ := hinv
      dsimp only at hhold
      subst hhold
      refine ⟨sent, hclock, hsending.queue, hpending, fun key => ?_⟩
      have hstored := congrArg Card.stored (hsending.cards key)
      dsimp only [Option.toList] at hstored
      rw [List.append_nil] at hstored
      exact hstored
    · intro g op s res s' hi hallowed hx
      obtain ⟨hsending, hclock, hpending⟩ := hi
      cases hx
      refine ⟨hsending.step hallowed _, hclock, ?_⟩
      refine (exec_pending none (s.answer env) op s.world).trans ?_
      cases op with
      | scheduleRetry m atMs => exact absurd hallowed id
      | _ => exact hpending
    · refine ⟨fun m hm => ?_, (List.append_nil _).symm, fun key => ?_⟩
      · cases hm
      · simp [withSent]

theorem send_shelters : Shelters r (r.send lang en env event).2 := by
  obtain ⟨sent, hclock, hqueue, hpending, hstored⟩ := send_leaves lang en env r event
  have hsent : ∀ key, (∃ m ∈ sent, m.key = key) → Covered (r.send lang en env event).2 key := by
    intro key h
    obtain ⟨m, hm, hkey⟩ := h
    rw [covered_iff, hqueue]
    exact .inl ⟨m, List.mem_append_left _ (List.mem_append_right _ hm), hkey⟩
  -- Without a message of its own, a key is where it was.
  have hkept : ∀ key, (¬ ∃ m ∈ sent, m.key = key) →
      (r.send lang en env event).2.world.store.getMessage key.1 key.2 =
        r.world.store.getMessage key.1 key.2 := by
    intro key h
    have hnone : (sent.filter fun m => m.key = key) = [] := by
      refine List.filter_eq_nil_iff.mpr fun m hm hkey => h ⟨m, hm, of_decide_eq_true hkey⟩
    rw [hstored, hnone]
    rfl
  refine ⟨hclock.ge, fun key hkey => ?_, fun key x hx => ?_⟩
  · by_cases h : ∃ m ∈ sent, m.key = key
    · exact hsent key h
    · rw [covered_iff] at hkey ⊢
      rw [hqueue, hpending]
      obtain ⟨m, hm, hmk⟩ | ⟨x, hx, hstatus⟩ := hkey
      · refine .inl ⟨m, ?_, hmk⟩
        rcases List.mem_append.mp hm with hm | hm
        · exact List.mem_append_left _ (List.mem_append_left _ hm)
        · exact List.mem_append_right _ hm
      · exact .inr ⟨x, (hkept key h).trans hx, hstatus⟩
  · by_cases h : ∃ m ∈ sent, m.key = key
    · exact .inr (hsent key h)
    · exact .inl ((hkept key h).symm.trans hx)

end Send

/-! ## An accepted event -/

section Accept
variable {lang : Lang} {en : Engine} {env : Nat → Answer} {r s : Runtime} {event : SendEvent}
  {key : String}

/-- How far a send over the store of `r` has come when its stage is reached. -/
def Reached (event : SendEvent) (key : String) (r s : Runtime) : Stage → Prop
  | .begun => s.world.queue = r.world.queue ∧
      (s.world.store.tenants event.tenant).events.get key = none
  | .told _ => False
  | .claimed _ => s.world.queue = r.world.queue
  | .matched eventId eps sent => eps = r.world.store.matchEndpoints event.tenant event.type ∧
      s.world.queue = r.world.queue ++ sent ∧
      List.Forall₂ (MessageFor event eventId) ((eps.filter (wants event.type)).take sent.length)
        sent
  | .finalized eventId eps sent => eps = r.world.store.matchEndpoints event.tenant event.type ∧
      s.world.queue = r.world.queue ++ sent ∧
      List.Forall₂ (MessageFor event eventId) (eps.filter (wants event.type)) sent

theorem matchEndpoints_of {w w' : World} {t : String}
    (h : (w'.store.tenants t).endpoints = (w.store.tenants t).endpoints) (type : String) :
    w'.store.matchEndpoints t type = w.store.matchEndpoints t type := by
  unfold MemoryStateStore.matchEndpoints
  rw [h]

theorem Reached.exec {stage : Stage} {op : Op} (h : Reached event key r s stage)
    (hsame : (s.world.store.tenants event.tenant).endpoints =
      (r.world.store.tenants event.tenant).endpoints)
    (hop : stage.allows event key op) :
    Reached event key r (Runtime.sendExec env op s).2
      (stage.next op (Testing.exec none (s.answer env) op s.world).1) := by
  have hqueue := exec_queue none (s.answer env) op s.world
  cases op with
  | recordEvent t eventId k =>
    obtain ⟨rfl, rfl, rfl⟩ := hop
    obtain ⟨hq, hnew⟩ := h
    have hmine : (Testing.exec none (s.answer env)
        (.recordEvent event.tenant eventId k) s.world).1.isNew = true := by
      simp only [Testing.exec, MemoryStateStore.recordEvent, hnew]
    have hstage : Stage.begun.next (.recordEvent event.tenant eventId k) (Testing.exec none
        (s.answer env) (.recordEvent event.tenant eventId k) s.world).1 = .claimed eventId :=
      if_pos hmine
    rw [hstage]
    exact hq
  | matchEndpoints t type =>
    obtain ⟨⟨eventId, rfl⟩, rfl, rfl⟩ := hop
    refine ⟨matchEndpoints_of hsame _, ?_, .nil⟩
    rw [List.append_nil]
    exact h
  | putMessage m =>
    obtain ⟨eventId, eps, sent, rfl, -⟩ := hop
    exact h
  | transportSend m =>
    obtain ⟨eventId, eps, sent, rfl, e, he, hm⟩ := hop
    obtain ⟨heps, hq, hsent⟩ := h
    refine ⟨heps, ?_, ?_⟩
    · rw [← List.append_assoc, ← hq]
      rfl
    · rw [List.length_append, List.length_singleton, List.take_add_one, he]
      exact List.rel_append hsent (.cons hm .nil)
  | finalizeEvent t k eventId n =>
    obtain ⟨eps, sent, rfl, -, -, -, hall⟩ := hop
    obtain ⟨heps, hq, hsent⟩ := h
    rw [hall, List.take_length] at hsent
    exact ⟨heps, hq, hsent⟩
  | now => cases stage <;> exact h
  | next => cases stage <;> exact h
  | _ => exact absurd hop id

/-- A valid event with a new key puts one message for each endpoint that wants it on the queue. -/
theorem send_accepts (hvalid : sendError en event = none)
    (hnew : (r.world.store.tenants event.tenant).events.get (lang.keyOf en event) = none) :
    ∃ eventId ms, List.Forall₂ (MessageFor event eventId) (wanting r.world event) ms ∧
      (r.send lang en env event).2.world.queue = r.world.queue ++ ms := by
  have hclaim := send_claim lang en event
  obtain ⟨e, herror, -⟩ | htotal := send_total lang en event
  · rw [hvalid] at herror
    cases herror
  unfold Runtime.send
  obtain ⟨receipt, s', hrun⟩ := htotal.run_ok (Runtime.sendExec env) (fun _ _ => ⟨_, _, rfl⟩) r
  have hinv := hclaim.run_inv (Runtime.sendExec env)
    (I := fun stage s => Reached event (lang.keyOf en event) r s stage ∧
      (s.world.store.tenants event.tenant).endpoints =
        (r.world.store.tenants event.tenant).endpoints)
    (E := fun _ => True) (s := r) ?_ (fun _ _ _ _ _ _ _ _ => trivial) (fun _ _ _ => trivial)
    ⟨⟨rfl, hnew⟩, rfl⟩
  · rw [hrun] at hinv ⊢
    obtain ⟨stage, hreturns, hreached, -⟩ := hinv
    cases stage with
    | told rec => exact absurd hreached id
    | finalized eventId eps sent =>
      obtain ⟨rfl, hqueue, hsent⟩ := hreached
      rw [wanting_eq] at hsent
      exact ⟨eventId, sent, hsent, hqueue⟩
    | _ => exact absurd hreturns id
  · intro stage op s res s' hi hallowed hx
    cases hx
    refine ⟨hi.1.exec hi.2 hallowed, ?_⟩
    exact (exec_endpoints none (s.answer env) op s.world event.tenant).trans hi.2

end Accept

/-! ## Whole sessions -/

section Sessions
variable {lang : Lang} {en : Engine} {env : Nat → Answer} {r t : Runtime}

theorem change_messages (w : World) (c : Change) (t id : String) :
    (c.apply w).store.getMessage t id = w.store.getMessage t id := by
  obtain ⟨endpoints, heq⟩ := Change.apply_tenants w c t
  unfold MemoryStateStore.getMessage
  rw [heq]

theorem change_shelters {c : Change} (hc : c ≠ .dequeue) :
    Shelters r { r with world := c.apply r.world } := by
  refine .of_messages le_rfl ?_ (change_messages r.world c)
  cases c with
  | advance now => exact fun m hm => (mem_advance r.world now m).mpr hm
  | dequeue => exact absurd rfl hc
  | _ => exact fun m hm => hm

theorem move_shelters (hregular : Regular lang en env) (hclock : 0 ≤ r.clock) (move : Move) :
    Shelters r (r.move lang en env move) := by
  cases move with
  | send event => exact send_shelters lang en env r event
  | change c hc => exact change_shelters hc
  | setClock now =>
    have hlater : r.clock ≤ setClock r.clock (some now) := le_setClock _ _
    exact .of_messages hlater (fun m hm => hm) fun _ _ => rfl
  | runDeliveries fuel maxRounds => exact (rounds_shelters hregular fuel _ _ hclock).1

theorem session_shelters (hregular : Regular lang en env) (hclock : 0 ≤ r.clock)
    (moves : List Move) : Shelters r (r.session lang en env moves) := by
  induction moves generalizing r with
  | nil => exact .refl r
  | cons move moves ih =>
    have hshelters := move_shelters hregular hclock move
    exact hshelters.trans (ih (hclock.trans hshelters.clock))

/-- A delivery run that returns has come to rest. -/
theorem runDeliveries_rests (hregular : Regular lang en env) (hclock : 0 ≤ r.clock) {fuel : Nat}
    {maxRounds : Option Int} (h : runDeliveries lang en env fuel maxRounds r = (.ok (), t)) :
    Shelters r t ∧ t.world.queue = [] ∧ t.world.pending = [] := by
  obtain ⟨hshelters, hrest⟩ := rounds_shelters hregular fuel (roundsOf lang maxRounds)
    (roundsOf lang maxRounds).toNat hclock
  have hrun : r.rounds lang en env fuel (roundsOf lang maxRounds)
      (roundsOf lang maxRounds).toNat = (.ok (), t) := h
  rw [hrun] at hshelters hrest
  exact ⟨hshelters, hrest rfl⟩

/-- At rest what is covered is final. -/
theorem final_of_rest (hqueue : t.world.queue = []) (hpending : t.world.pending = [])
    {key : String × String} (h : Covered t key) : Final t.world key := by
  rw [covered_iff, hqueue, hpending] at h
  obtain ⟨m, hm, -⟩ | hfinal := h
  · cases hm
  · exact hfinal

/-- **Nothing is stuck.** Sends, endpoint changes, clock settings and delivery runs in any order,
those that give up included, over any receivers, policy and random source: whatever was queued,
scheduled or stored at any point is delivered or dead when a later delivery run has come to
rest, and nothing is stored then that is not. -/
theorem nothing_is_stuck (hregular : Regular lang en env) (hclock : 0 ≤ r.clock)
    (hstored : ∀ (key : String × String) x, r.world.store.getMessage key.1 key.2 = some x →
      Covered r key)
    (before after : List Move) {s : Runtime} (hs : r.session lang en env before = s)
    {fuel : Nat} {maxRounds : Option Int}
    (ht : runDeliveries lang en env fuel maxRounds (s.session lang en env after) = (.ok (), t)) :
    (∀ m ∈ s.world.queue, Final t.world m.key) ∧ (∀ p ∈ s.world.pending, Final t.world p.2.key) ∧
      (∀ (key : String × String) x, s.world.store.getMessage key.1 key.2 = some x →
        Final t.world key) ∧
      (∀ (key : String × String) x, t.world.store.getMessage key.1 key.2 = some x →
        x.status = .delivered ∨ x.status = .dead) ∧
      t.world.queue = [] ∧ t.world.pending = [] := by
  have hbefore : Shelters r s := hs ▸ session_shelters hregular hclock before
  have hsession := session_shelters hregular (hclock.trans hbefore.clock) after
  obtain ⟨hrun, hqueue, hpending⟩ :=
    runDeliveries_rests hregular (hclock.trans (hbefore.clock.trans hsession.clock)) ht
  have hafter := hsession.trans hrun
  have hfinal : ∀ key, Covered s key → Final t.world key :=
    fun key h => final_of_rest hqueue hpending (hafter.covered key h)
  have hknown : ∀ key x, s.world.store.getMessage key.1 key.2 = some x → Covered s key := by
    intro key x hx
    obtain hold | hcovered := hbefore.stored key x hx
    · exact hbefore.covered key (hstored key x hold)
    · exact hcovered
  refine ⟨?_, ?_, fun key x hx => hfinal key (hknown key x hx), ?_, hqueue, hpending⟩
  · intro m hm
    exact hfinal m.key (covered_iff.mpr (.inl ⟨m, List.mem_append_left _ hm, rfl⟩))
  · intro p hp
    exact hfinal p.2.key (covered_iff.mpr
      (.inl ⟨p.2, List.mem_append_right _ (List.mem_map_of_mem hp), rfl⟩))
  · intro key x hx
    have hcovered : Covered t key := by
      obtain hold | hcovered := hafter.stored key x hx
      · exact hafter.covered key (hknown key x hold)
      · exact hcovered
    obtain ⟨y, hy, hstatus⟩ := final_of_rest hqueue hpending hcovered
    rw [Option.some.inj (hx.symm.trans hy)]
    exact hstatus

/-! ## What became of a message -/

/-- Whatever bears the key of `m` is a copy of it. -/
structure Sole (m : Message) (r : Runtime) : Prop where
  underWay : ∀ x ∈ r.world.queue ++ r.world.pending.map Prod.snd, x.key = m.key → Copy m x
  stored : ∀ x, r.world.store.getMessage m.tenant m.messageId = some x → Copy m x

variable {m : Message}

/-- Only what is under way and what is stored counts. -/
theorem Sole.of_messages (h : Sole m r)
    (hcopies : ∀ x ∈ t.world.queue ++ t.world.pending.map Prod.snd, x.key = m.key →
      x ∈ r.world.queue ++ r.world.pending.map Prod.snd)
    (hmessages : t.world.store.getMessage m.tenant m.messageId =
      r.world.store.getMessage m.tenant m.messageId) : Sole m t where
  underWay x hx hkey := h.underWay x (hcopies x hx hkey) hkey
  stored x hx := h.stored x (hmessages.symm.trans hx)

/-- A port call of the handler puts and schedules copies of its own message only. -/
theorem Sole.exec (h : Sole m r) {self : Message} (hself : self.key = m.key → Copy m self)
    {w : Wire} {op : Op} (hop : w.allows en self op) : Sole m (Runtime.exec env self op r).2 := by
  have hcopy : ∀ x, Copy self x → x.key = m.key → Copy m x := by
    intro x hx hkey
    exact (hself (hx.key.symm.trans hkey)).trans hx
  cases op with
  | putMessage x =>
    refine ⟨h.underWay, fun y hy => ?_⟩
    rw [show (Runtime.exec env self (.putMessage x) r).2.world.store.getMessage m.tenant m.messageId =
      _ from exec_message (m := self) (r.answer env) (.putMessage x) r.world _ _] at hy
    dsimp only at hy
    split at hy
    · rename_i hkey
      obtain rfl := Option.some.inj hy
      exact hcopy x hop hkey
    · exact h.stored y hy
  | scheduleRetry x atMs =>
    refine ⟨fun y hy hkey => ?_, h.stored⟩
    have hpending : (Runtime.exec env self (.scheduleRetry x atMs) r).2.world.pending =
        r.world.pending ++ [(atMs, x)] := rfl
    rw [hpending, List.map_append, ← List.append_assoc] at hy
    rcases List.mem_append.mp hy with hold | hnew
    · exact h.underWay y hold hkey
    · rw [List.mem_singleton.mp hnew] at hkey ⊢
      exact hcopy x hop hkey
  | transportSend x => exact absurd hop id
  | _ =>
    exact h.of_messages (fun x hx _ => hx)
      (exec_message (m := self) (r.answer env) _ r.world m.tenant m.messageId)

theorem Sole.handle {rest : List Message} {self : Message} (h : Sole m r)
    (hqueue : r.world.queue = self :: rest) :
    Sole m ((r.shifted rest).handle lang en env self).2 := by
  have hself : self.key = m.key → Copy m self :=
    h.underWay self (List.mem_append_left _ (hqueue ▸ List.mem_cons_self))
  have hshifted : Sole m (r.shifted rest) := by
    refine h.of_messages (fun x hx _ => ?_) rfl
    rcases List.mem_append.mp hx with hx | hx
    · exact List.mem_append_left _ (hqueue ▸ List.mem_cons_of_mem _ hx)
    · exact List.mem_append_right _ hx
  have hwire : Obeys (wireMonitor en self) (fun _ _ => True) .looking
      (processWith lang.handling en self) := process_wire
  obtain ⟨_, hs⟩ := hwire.run_kept (Runtime.exec env self) (I := fun _ s => Sole m s)
    (fun w op s hi hallowed => ⟨_, rfl, hi.exec hself hallowed⟩) hshifted
  exact hs

theorem Sole.drain (h : Sole m r) (fuel : Nat) : Sole m (r.drain lang en env fuel).2 := by
  induction fuel generalizing r with
  | zero => exact h
  | succ fuel ih =>
    unfold Runtime.drain
    cases hqueue : r.world.queue with
    | nil => exact h
    | cons self rest =>
      have hnext : Sole m ((r.shifted rest).handle lang en env self).2 := h.handle hqueue
      dsimp only
      revert hnext
      obtain ⟨out, s⟩ := (r.shifted rest).handle lang en env self
      intro hnext
      cases out with
      | ok u => exact ih hnext
      | error e => exact hnext

theorem Sole.rounds (h : Sole m r) (fuel : Nat) (maxRounds : Int) (left : Nat) :
    Sole m (r.rounds lang en env fuel maxRounds left).2 := by
  induction left generalizing r with
  | zero => exact h
  | succ left ih =>
    have hdrained : Sole m (r.drain lang en env fuel).2 := h.drain fuel
    unfold Runtime.rounds
    revert hdrained
    obtain ⟨out, s⟩ := r.drain lang en env fuel
    intro hdrained
    cases out with
    | error e => exact hdrained
    | ok u =>
      dsimp only
      split
      · exact hdrained
      · exact ih (hdrained.of_messages (fun x hx _ => (mem_advance s.world _ x).mp hx) rfl)

theorem sentBy_send {event : SendEvent} {ms : List Message}
    (hqueue : (r.send lang en env event).2.world.queue = r.world.queue ++ ms) :
    r.sentBy lang en env (.send event) = ms :=
  (congrArg (List.drop r.world.queue.length) hqueue).trans List.drop_left

/-- A move that sends no message with the key of `m`. -/
theorem Sole.move (h : Sole m r) (move : Move)
    (hfresh : ∀ x ∈ r.sentBy lang en env move, x.key ≠ m.key) :
    Sole m (r.move lang en env move) := by
  cases move with
  | send event =>
    obtain ⟨sent, -, hqueue, hpending, hstored⟩ := send_leaves lang en env r event
    have hother : ∀ x ∈ sent, x.key ≠ m.key := by
      intro x hx
      exact hfresh x ((sentBy_send hqueue).symm ▸ hx)
    have hnone : (sent.filter fun x => x.key = (m.tenant, m.messageId)) = [] :=
      List.filter_eq_nil_iff.mpr fun x hx hkey => hother x hx (of_decide_eq_true hkey)
    refine h.of_messages (fun x hx hkey => ?_) ?_
    · rw [show (r.move lang en env (.send event)).world.queue = _ from hqueue,
        show (r.move lang en env (.send event)).world.pending = _ from hpending] at hx
      rcases List.mem_append.mp hx with hx | hx
      · rcases List.mem_append.mp hx with hx | hx
        · exact List.mem_append_left _ hx
        · exact absurd hkey (hother x hx)
      · exact List.mem_append_right _ hx
    · refine (hstored (m.tenant, m.messageId)).trans ?_
      rw [hnone]
      rfl
  | change c hc =>
    refine h.of_messages (fun x hx _ => ?_) (change_messages r.world c _ _)
    cases c with
    | advance now => exact (mem_advance r.world now x).mp hx
    | dequeue => exact absurd rfl hc
    | _ => exact hx
  | setClock now => exact h.of_messages (fun x hx _ => hx) rfl
  | runDeliveries fuel maxRounds => exact h.rounds fuel _ _

theorem Sole.session (h : Sole m r) {moves : List Move}
    (hfresh : ∀ x ∈ r.sent lang en env moves, x.key ≠ m.key) :
    Sole m (r.session lang en env moves) := by
  induction moves generalizing r with
  | nil => exact h
  | cons move moves ih =>
    have hnext : Sole m (r.move lang en env move) :=
      h.move move fun x hx => hfresh x (List.mem_append_left _ hx)
    exact ih hnext fun x hx => hfresh x (List.mem_append_right _ hx)

/-- A send leaves each of its messages the only one with its key, where the keys are new and
differ. -/
theorem send_sole {event : SendEvent} {ms : List Message}
    (hqueue : (r.send lang en env event).2.world.queue = r.world.queue ++ ms)
    (hnew : ∀ x ∈ r.world.queue ++ r.world.pending.map Prod.snd, ∀ m ∈ ms, x.key ≠ m.key)
    (hdistinct : (ms.map Message.key).Nodup) (hm : m ∈ ms) :
    Sole m (r.send lang en env event).2 := by
  obtain ⟨sent, -, hqueue', hpending, hstored⟩ := send_leaves lang en env r event
  obtain rfl : sent = ms := List.append_cancel_left (hqueue'.symm.trans hqueue)
  have hsame : ∀ x ∈ sent, x.key = m.key → x = m :=
    fun x hx hkey => List.inj_on_of_nodup_map hdistinct hx hm hkey
  refine ⟨fun x hx hkey => ?_, fun x hx => ?_⟩
  · rw [hqueue, hpending] at hx
    rcases List.mem_append.mp hx with hx | hx
    · rcases List.mem_append.mp hx with hx | hx
      · exact absurd hkey (hnew x (List.mem_append_left _ hx) m hm)
      · rw [hsame x hx hkey]
        exact ⟨rfl, rfl, rfl, rfl, rfl⟩
    · exact absurd hkey (hnew x (List.mem_append_right _ hx) m hm)
  · rw [hstored (m.tenant, m.messageId)] at hx
    cases hlast : (sent.filter fun x => x.key = (m.tenant, m.messageId)).getLast? with
    | none =>
      rw [List.getLast?_eq_none_iff] at hlast
      exact absurd (List.mem_filter.mpr ⟨hm, decide_eq_true rfl⟩) (hlast ▸ List.not_mem_nil)
    | some y =>
      rw [hlast, Option.some_or] at hx
      obtain rfl := Option.some.inj hx
      obtain ⟨hy, hkey⟩ := List.mem_filter.mp (List.mem_of_getLast? hlast)
      rw [hsame y hy (of_decide_eq_true hkey)]
      exact ⟨rfl, rfl, rfl, rfl, rfl⟩

/-- **An accepted event is settled everywhere.** A valid event whose key is new puts one message
for each endpoint that wants it on the queue; whatever is sent, edited and run afterwards, what
is stored of each is a copy of it, delivered or dead, when a later delivery run has come to
rest. The ids the session makes differ, and from those under way. -/
theorem accepted_event_settles (hregular : Regular lang en env) (hclock : 0 ≤ r.clock)
    {event : SendEvent} (hvalid : sendError en event = none)
    (hnew : (r.world.store.tenants event.tenant).events.get (lang.keyOf en event) = none)
    (after : List Move)
    (hids : ((r.sent lang en env (.send event :: after)).map Message.key).Nodup)
    (hothers : ∀ x ∈ r.world.queue ++ r.world.pending.map Prod.snd,
      ∀ m ∈ r.sent lang en env (.send event :: after), x.key ≠ m.key)
    {fuel : Nat} {maxRounds : Option Int}
    (ht : runDeliveries lang en env fuel maxRounds
      (r.session lang en env (.send event :: after)) = (.ok (), t)) :
    ∃ eventId ms, List.Forall₂ (MessageFor event eventId) (wanting r.world event) ms ∧
      (r.send lang en env event).2.world.queue = r.world.queue ++ ms ∧
      ∀ m ∈ ms, ∃ x, t.world.store.getMessage m.tenant m.messageId = some x ∧ Copy m x ∧
        (x.status = .delivered ∨ x.status = .dead) := by
  obtain ⟨eventId, ms, hms, hqueue⟩ : ∃ eventId ms,
      List.Forall₂ (MessageFor event eventId) (wanting r.world event) ms ∧
        (r.send lang en env event).2.world.queue = r.world.queue ++ ms :=
    send_accepts hvalid hnew
  refine ⟨eventId, ms, hms, hqueue, fun m hm => ?_⟩
  have hsent : r.sent lang en env (.send event :: after) =
      ms ++ (r.send lang en env event).2.sent lang en env after :=
    congrArg (· ++ _) (sentBy_send hqueue)
  rw [hsent] at hids hothers
  rw [List.map_append, List.nodup_append] at hids
  obtain ⟨hdistinct, -, hlater⟩ := hids
  -- The message is the only one with its key, to the end.
  have hsole : Sole m t := by
    have hstart : Sole m (r.send lang en env event).2 :=
      send_sole hqueue (fun x hx y hy => hothers x hx y (List.mem_append_left _ hy)) hdistinct hm
    have hsession : Sole m ((r.send lang en env event).2.session lang en env after) :=
      hstart.session fun x hx hkey => hlater m.key (List.mem_map_of_mem hm) x.key
        (List.mem_map_of_mem hx) hkey.symm
    have hrun : Sole m (runDeliveries lang en env fuel maxRounds
        (r.session lang en env (.send event :: after))).2 := hsession.rounds fuel _ _
    rwa [ht] at hrun
  -- And it is covered, so that it is final at rest.
  have hshelters := send_shelters lang en env r event
  have hafter := session_shelters hregular (hclock.trans hshelters.clock) after
  obtain ⟨hrun, hempty, hnone⟩ :=
    runDeliveries_rests hregular (hclock.trans (hshelters.clock.trans hafter.clock)) ht
  have hcovered : Covered (r.send lang en env event).2 m.key := by
    refine covered_iff.mpr (.inl ⟨m, List.mem_append_left _ ?_, rfl⟩)
    rw [hqueue]
    exact List.mem_append_right _ hm
  obtain ⟨x, hx, hstatus⟩ := final_of_rest hempty hnone
    (hrun.covered _ (hafter.covered _ hcovered))
  exact ⟨x, hx, hsole.stored x hx, hstatus⟩

/-- One endpoint, nothing under way. -/
def oneAtRest : Runtime where
  world := oneEndpoint
  clock := 0
  made := 0

/-- The session of an event for an endpoint that never answers. -/
theorem order_ends : ∃ t, runDeliveries .ts (plainEngine 1) (fun _ => answering 0 .network) 3 none
    (oneAtRest.session .ts (plainEngine 1) (fun _ => answering 0 .network)
      [.send orderCreated, .setClock 5]) = (.ok (), t) := by
  have hok : (runDeliveries .ts (plainEngine 1) (fun _ => answering 0 .network) 3 none
      (oneAtRest.session .ts (plainEngine 1) (fun _ => answering 0 .network)
        [.send orderCreated, .setClock 5])).1.isOk = true := by decide +kernel
  revert hok
  obtain ⟨out, t⟩ := runDeliveries .ts (plainEngine 1) (fun _ => answering 0 .network) 3 none
    (oneAtRest.session .ts (plainEngine 1) (fun _ => answering 0 .network)
      [.send orderCreated, .setClock 5])
  cases out with
  | error e => exact fun hok => by cases hok
  | ok u => exact fun _ => ⟨t, rfl⟩

theorem order_settles :
    ∃ t eventId ms,
      runDeliveries .ts (plainEngine 1) (fun _ => answering 0 .network) 3 none
        (oneAtRest.session .ts (plainEngine 1) (fun _ => answering 0 .network)
          [.send orderCreated, .setClock 5]) = (.ok (), t) ∧
      List.Forall₂ (MessageFor orderCreated eventId) (wanting oneAtRest.world orderCreated) ms ∧
      ∀ m ∈ ms, ∃ x, t.world.store.getMessage m.tenant m.messageId = some x ∧ Copy m x ∧
        (x.status = .delivered ∨ x.status = .dead) := by
  obtain ⟨t, ht⟩ := order_ends
  have hids : ((oneAtRest.sent .ts (plainEngine 1) (fun _ => answering 0 .network)
      [.send orderCreated, .setClock 5]).map Message.key).Nodup := by decide +kernel
  obtain ⟨eventId, ms, hms, -, hfinal⟩ := accepted_event_settles (unanswered_regular .ts) le_rfl
    (by rfl) (by rfl) [.setClock 5] hids (fun x hx => by cases hx) ht
  exact ⟨t, eventId, ms, ht, hms, hfinal⟩

/-- Nothing is stored before the first event. -/
theorem order_not_stuck :
    ∃ t, runDeliveries .ts (plainEngine 1) (fun _ => answering 0 .network) 3 none
        (oneAtRest.session .ts (plainEngine 1) (fun _ => answering 0 .network)
          [.send orderCreated, .setClock 5]) = (.ok (), t) ∧
      t.world.queue = [] ∧ t.world.pending = [] ∧
      ∀ (key : String × String) x, t.world.store.getMessage key.1 key.2 = some x →
        x.status = .delivered ∨ x.status = .dead := by
  obtain ⟨t, ht⟩ := order_ends
  have hnone : ∀ (key : String × String) x,
      oneAtRest.world.store.getMessage key.1 key.2 = some x → Covered oneAtRest key := by
    intro key x hx
    rw [show oneAtRest.world.store.getMessage key.1 key.2 =
      World.empty.store.getMessage key.1 key.2 from
        change_messages .empty (.createEndpoint anyEvent "ep_1" "whsec_1" 0) _ _] at hx
    cases hx
  obtain ⟨-, -, -, hfinal, hqueue, hpending⟩ := nothing_is_stuck (unanswered_regular .ts) le_rfl
    hnone [] [.send orderCreated, .setClock 5] rfl ht
  exact ⟨t, ht, hqueue, hpending, hfinal⟩

end Sessions

end Anyhook.Delivery
