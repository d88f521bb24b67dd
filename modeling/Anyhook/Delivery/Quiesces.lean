import Anyhook.Delivery.Handled

/-! The delivery loop comes to rest. Whatever receivers, policy and random source do, a run
of the harness over any queue, schedule and store ends with every message delivered or dead.
The load of the runtime goes down with every call of the handler, although a call may open
the circuit or take the token that other messages wait for. -/
namespace Anyhook.Delivery
open Anyhook.Core Anyhook.Testing Anyhook.Lib.Agenda

/-- The messages in transport and scheduler, with the time each can be processed from. -/
def liveOf (r : Runtime) : List (Time × Message) := r.diary.live

/-- The work left, where there are at most `n` messages. -/
def loadOf (en : Engine) (n : Nat) (r : Runtime) : Nat :=
  load n (triesLeft en) (shut en r.world.store) (short r.world.store) (liveOf r)

/-- A copy of the message is under way, or it is stored as delivered or dead. -/
def Covered (r : Runtime) (key : String × String) : Prop :=
  (∃ p ∈ liveOf r, p.2.key = key) ∨ Final r.world key

/-- From `r` to `r'` work was done and no message lost. -/
structure Advances (en : Engine) (n : Nat) (r r' : Runtime) : Prop where
  clock : r.clock ≤ r'.clock
  size : (liveOf r').length ≤ (liveOf r).length
  load : loadOf en n r' ≤ loadOf en n r
  covered : ∀ key, Covered r key → Covered r' key

theorem Advances.refl (en : Engine) (n : Nat) (r : Runtime) : Advances en n r r :=
  ⟨le_rfl, le_rfl, le_rfl, fun _ h => h⟩

theorem Advances.trans {en : Engine} {n : Nat} {r s t : Runtime} (h : Advances en n r s)
    (h' : Advances en n s t) : Advances en n r t where
  clock := h.clock.trans h'.clock
  size := h'.size.trans h.size
  load := h'.load.trans h.load
  covered key hr := h'.covered key (h.covered key hr)

/-! ## One call -/

section Call
variable {lang : Lang} {en : Engine} {env : Nat → Answer} {n : Nat} {r r' : Runtime}
  {m : Message} {rest : List Message}

theorem live_shifted (hqueue : r.world.queue = m :: rest) :
    liveOf r = (r.clock, m) :: liveOf (r.shifted rest) := by
  unfold liveOf Diary.live Runtime.diary
  rw [hqueue]
  rfl

theorem live_same (hspares : Spares m r r') (hpending : r'.world.pending = r.world.pending) :
    liveOf r' = liveOf r := by
  unfold liveOf Diary.live Runtime.diary
  dsimp only
  rw [hpending, hspares.clock, hspares.queue]

theorem live_scheduled (hspares : Spares m r r') {atMs : Time} {x : Message}
    (hpending : r'.world.pending = r.world.pending ++ [(atMs, x)]) :
    liveOf r' = liveOf r ++ [(max r.clock atMs, x)] := by
  unfold liveOf Diary.live Runtime.diary
  dsimp only
  rw [hpending, hspares.clock, hspares.queue, List.map_append, List.append_assoc]
  rfl

/-- A call settles its message or leaves one copy of it. -/
theorem handled_live (hspares : Spares m r r') (h : Handled lang en m r r') :
    liveOf r' = liveOf r ∧ Final r'.world m.key ∨
      ∃ p : Time × Message, liveOf r' = liveOf r ++ [p] ∧ p.2.key = m.key := by
  cases h with
  | settled hpending hfinal _ => exact .inl ⟨live_same hspares hpending, hfinal⟩
  | retried atMs next hpending hagain _ =>
    exact .inr ⟨_, live_scheduled hspares hpending, hagain.same.key⟩
  | throttled h =>
    obtain ⟨atMs, hpending, -⟩ := h.waits
    exact .inr ⟨_, live_scheduled hspares hpending, rfl⟩
  | parked h =>
    obtain ⟨atMs, hpending, -⟩ := h.waits
    exact .inr ⟨_, live_scheduled hspares hpending, rfl⟩

theorem handled_covered (hspares : Spares m r r') (h : Handled lang en m r r')
    {key : String × String} (hkey : Covered r key ∨ key = m.key) : Covered r' key := by
  have hlive := handled_live hspares h
  have hmine : Covered r' m.key := by
    rcases hlive with ⟨-, hfinal⟩ | ⟨p, hlive, hp⟩
    · exact .inr hfinal
    · exact .inl ⟨p, hlive ▸ List.mem_append_right _ (List.mem_singleton.mpr rfl), hp⟩
  by_cases hm : key = m.key
  · exact hm ▸ hmine
  · rcases hkey.resolve_right hm with ⟨p, hp, hpk⟩ | ⟨x, hx, hstatus⟩
    · refine .inl ⟨p, ?_, hpk⟩
      rcases hlive with ⟨hlive, -⟩ | ⟨q, hlive, -⟩
      · exact hlive ▸ hp
      · exact hlive ▸ List.mem_append_left _ hp
    · exact .inr ⟨x, (hspares.messages _ _ hm).trans hx, hstatus⟩

/-- A call that has taken its message `m` off the queue lowers the load. -/
theorem handled_load (hspares : Spares m r r') (h : Handled lang en m r r') (hfits : Fits lang r)
    (hn : (liveOf r).length < n) :
    loadOf en n r' < load n (triesLeft en) (shut en r.world.store) (short r.world.store)
      ((r.clock, m) :: liveOf r) := by
  have hsize : (liveOf r').length ≤ n := by
    rcases handled_live hspares h with ⟨hlive, -⟩ | ⟨p, hlive, -⟩
    · rw [hlive]
      omega
    · rw [hlive, List.length_append]
      exact hn
  unfold loadOf
  cases h with
  | settled hpending hfinal _ =>
    refine load_lt_of_tries hsize ?_
    rw [live_same hspares hpending, tries_cons]
    unfold triesLeft
    omega
  | retried atMs next hpending hagain _ =>
    refine load_lt_of_tries hsize ?_
    rw [live_scheduled hspares hpending, tries_concat, tries_cons]
    have hless := hagain.triesLeft_lt
    dsimp only
    omega
  | parked h =>
    obtain ⟨atMs, hpending, hopen⟩ := h.waits
    have hshut : shut en r'.world.store = shut en r.world.store := by
      funext p
      unfold shut
      rw [h.circuits]
    rw [live_scheduled hspares hpending] at hsize ⊢
    refine load_lt_of_first hsize ?_ ?_
    · rw [tries_concat, tries_cons, Nat.add_comm]
    · rw [List.countP_append, List.countP_singleton, hopen, List.countP_cons, h.was, hshut]
      simp
  | throttled h =>
    obtain ⟨atMs, hpending, hready⟩ := h.waits
    have hshut : shut en r'.world.store = shut en r.world.store := by
      funext p
      unfold shut
      rw [h.circuits]
    rw [live_scheduled hspares hpending]
    refine load_lt_of_second ?_ ?_ ?_
    · rw [tries_concat, tries_cons, Nat.add_comm]
    · have hlater : shut en r.world.store (max r.clock atMs, m) = true →
          shut en r.world.store (r.clock, m) = true := shut_of_later (le_max_left _ _)
      rw [List.countP_append, List.countP_singleton, List.countP_cons, hshut]
      refine Nat.add_le_add_left ?_ _
      split
      · rename_i hstill
        rw [if_pos (hlater hstill)]
      · exact Nat.zero_le _
    · have hothers : (liveOf r).countP (short r'.world.store) ≤
          (liveOf r).countP (short r.world.store) :=
        List.countP_mono_left fun p hp => h.others p (Diary.clock_le hp)
      rw [List.countP_append, List.countP_singleton, hready hfits, List.countP_cons, h.was]
      simp only [Bool.false_eq_true, if_false, if_true]
      omega

theorem handle_advances (hregular : Regular lang en env) (hclock : 0 ≤ r.clock)
    (hfits : Fits lang r) (hqueue : r.world.queue = m :: rest) (hn : (liveOf r).length ≤ n) :
    ∃ r', (r.shifted rest).handle lang en env m = (.ok (), r') ∧ r'.world.queue = rest ∧
      r'.clock = r.clock ∧ Fits lang r' ∧ Advances en n r r' ∧
      loadOf en n r' < loadOf en n r := by
  obtain ⟨r', hrun, hspares, hhandled⟩ := handle_leaves (r := r.shifted rest) hregular hclock m
  have hlive := live_shifted hqueue
  rw [hlive, List.length_cons] at hn
  have hload : loadOf en n r' < loadOf en n r := by
    unfold loadOf
    rw [hlive]
    exact handled_load hspares hhandled hfits hn
  have hfits' : Fits lang r' := by
    intro hgo
    have hleft : WaitsFit ((r.shifted rest).handle lang en env m).2.world.store :=
      handle_waitsFit (hfits hgo)
    rwa [hrun] at hleft
  refine ⟨r', hrun, hspares.queue, hspares.clock, hfits',
    ⟨hspares.clock.ge, ?_, hload.le, ?_⟩, hload⟩
  · rw [hlive, List.length_cons]
    rcases handled_live hspares hhandled with ⟨hsame, -⟩ | ⟨p, hmore, -⟩
    · rw [hsame]
      omega
    · rw [hmore, List.length_append]
      rfl
  · intro key hkey
    refine handled_covered hspares hhandled ?_
    rcases hkey with ⟨p, hp, hpk⟩ | hfinal
    · rw [hlive] at hp
      rcases List.mem_cons.mp hp with rfl | hp
      · exact .inr hpk.symm
      · exact .inl (.inl ⟨p, hp, hpk⟩)
    · exact .inl (.inr hfinal)

end Call

/-! ## A whole run -/

section Rounds
variable {lang : Lang} {en : Engine} {env : Nat → Answer} {n fuel : Nat} {r : Runtime}

/-- A drain empties the queue, and does work if there is some. -/
theorem drain_advances (hregular : Regular lang en env) (hclock : 0 ≤ r.clock)
    (hfits : Fits lang r) (hn : (liveOf r).length ≤ n) (hfuel : r.world.queue.length < fuel) :
    ∃ r', r.drain lang en env fuel = (.ok (), r') ∧ r'.world.queue = [] ∧ Fits lang r' ∧
      Advances en n r r' ∧
      (r.world.queue ≠ [] → loadOf en n r' < loadOf en n r) := by
  induction fuel generalizing r with
  | zero => exact absurd hfuel (Nat.not_lt_zero _)
  | succ fuel ih =>
    unfold Runtime.drain
    cases hqueue : r.world.queue with
    | nil => exact ⟨r, rfl, hqueue, hfits, .refl en n r, fun h => absurd rfl h⟩
    | cons m rest =>
      obtain ⟨s, hrun, hrest, hsame, hfits', hadvances, hload⟩ :=
        handle_advances hregular hclock hfits hqueue hn
      rw [hqueue, List.length_cons] at hfuel
      obtain ⟨r', hdrain, hempty, hkept, hmore, -⟩ := ih (r := s) (hsame.symm ▸ hclock) hfits'
        (hadvances.size.trans hn) (by rw [hrest]; omega)
      dsimp only
      rw [hrun]
      exact ⟨r', hdrain, hempty, hkept, hadvances.trans hmore,
        fun _ => hmore.load.trans_lt hload⟩

theorem next_live (hqueue : r.world.queue = []) : (liveOf r.next).Perm (liveOf r) := by
  unfold liveOf
  rw [Runtime.next_diary]
  exact Diary.jump_live hqueue

/-- The clock's jump to the next due time. -/
theorem next_advances (hqueue : r.world.queue = []) : Advances en n r r.next := by
  have hperm := next_live hqueue
  refine ⟨le_setClock _ _, hperm.length_eq.le, ?_, ?_⟩
  · exact (load_perm hperm).le
  · intro key hkey
    rcases hkey with ⟨p, hp, hpk⟩ | hfinal
    · exact .inl ⟨p, hperm.mem_iff.mpr hp, hpk⟩
    · exact .inr hfinal

theorem rounds_quiesce (hregular : Regular lang en env) (maxRounds : Int) (left : Nat)
    (hclock : 0 ≤ r.clock) (hfits : Fits lang r) (hn : (liveOf r).length ≤ n) (hfuel : n < fuel)
    (hleft : loadOf en n r + (if r.world.queue = [] then 1 else 0) < left) :
    ∃ r', r.rounds lang en env fuel maxRounds left = (.ok (), r') ∧ r'.world.queue = [] ∧
      r'.world.pending = [] ∧ Advances en n r r' := by
  induction left generalizing r with
  | zero => exact absurd hleft (Nat.not_lt_zero _)
  | succ left ih =>
    have hqueued : r.world.queue.length ≤ (liveOf r).length := by
      unfold liveOf Diary.live
      rw [List.length_append, List.length_map]
      exact Nat.le_add_right _ _
    obtain ⟨s, hdrain, hempty, hfits', hadvances, hload⟩ :=
      drain_advances hregular hclock hfits hn (hqueued.trans_lt (hn.trans_lt hfuel))
    unfold Runtime.rounds
    rw [hdrain]
    dsimp only
    by_cases hpending : s.world.pending.length = 0
    · rw [if_pos hpending]
      exact ⟨s, rfl, hempty, List.eq_nil_of_length_eq_zero hpending, hadvances⟩
    · rw [if_neg hpending]
      have hnext : Advances en n s s.next := next_advances hempty
      have hready : s.next.world.queue ≠ [] :=
        Diary.jump_ready (a := s.diary) fun h => hpending (congrArg List.length h)
      have hless : loadOf en n s.next < left := by
        have hsame := hnext.load
        by_cases hqueue : r.world.queue = []
        · rw [if_pos hqueue] at hleft
          have hle := hadvances.load
          omega
        · rw [if_neg hqueue] at hleft
          have hlt := hload hqueue
          omega
      obtain ⟨r', hrounds, hq, hp, hrest⟩ := ih (r := s.next)
        (hclock.trans (hadvances.clock.trans hnext.clock)) hfits'
        (hnext.size.trans (hadvances.size.trans hn)) (by rw [if_neg hready]; exact hless)
      exact ⟨r', hrounds, hq, hp, (hadvances.trans hnext).trans hrest⟩

/-- **The delivery loop comes to rest**, whatever the receivers answer and the policy refuses,
within a number of rounds that the tries of the messages under way bound. Then nothing is
queued or scheduled, and every message that was is delivered or dead. In Go the waits at the
rate limits have to fit into an int64. -/
theorem runDeliveries_quiesces (hregular : Regular lang en env) (r : Runtime) (hclock : 0 ≤ r.clock)
    (hfits : Fits lang r) (fuel : Nat) (hfuel : (liveOf r).length < fuel) (maxRounds : Option Int)
    (hrounds : (((tries (triesLeft en) (liveOf r) + 1) * ((liveOf r).length + 1) ^ 2 : Nat) : Int) <
      roundsOf lang maxRounds) :
    ∃ r', runDeliveries lang en env fuel maxRounds r = (.ok (), r') ∧ r'.world.queue = [] ∧
      r'.world.pending = [] ∧
      (∀ m ∈ r.world.queue, Final r'.world m.key) ∧
      ∀ p ∈ r.world.pending, Final r'.world p.2.key := by
  have hload : loadOf en (liveOf r).length r <
      (tries (triesLeft en) (liveOf r) + 1) * ((liveOf r).length + 1) ^ 2 := load_lt le_rfl
  obtain ⟨r', hrun, hqueue, hpending, hadvances⟩ := rounds_quiesce hregular (roundsOf lang maxRounds)
    (roundsOf lang maxRounds).toNat hclock hfits le_rfl hfuel (by split <;> omega)
  have hnone : liveOf r' = [] := by
    unfold liveOf Diary.live Runtime.diary
    rw [hqueue, hpending]
    rfl
  have hfinal : ∀ p ∈ liveOf r, Final r'.world p.2.key := by
    intro p hp
    rcases hadvances.covered p.2.key (.inl ⟨p, hp, rfl⟩) with ⟨q, hq, -⟩ | hfinal
    · rw [hnone] at hq
      cases hq
    · exact hfinal
  refine ⟨r', hrun, hqueue, hpending, ?_, ?_⟩
  · intro m hm
    exact hfinal (r.clock, m) (List.mem_append_left _ (List.mem_map_of_mem hm))
  · intro p hp
    exact hfinal (max r.clock p.1, p.2) (List.mem_append_right _
      (List.mem_map.mpr ⟨p, hp, rfl⟩))

/-- An endpoint with a limit of two a second; one message queued and one scheduled. -/
def twoUnderWay : Runtime where
  world := {
    store := MemoryStateStore.empty.createEndpoint { anyEvent with rateLimit := some 2 } "ep_1"
      "whsec_1" 0
    queue := [messageFor "msg_a"]
    pending := [(50, messageFor "msg_b")]
    posts := [] }
  clock := 0
  made := 0

theorem unanswered_regular (lang : Lang) :
    Regular lang (plainEngine 1) fun _ => answering 0 .network :=
  ⟨fun _ => ⟨le_rfl, one_pos⟩, by decide +kernel, fun _ => by decide +kernel⟩

theorem twoUnderWay_fits (lang : Lang) : Fits lang twoUnderWay := by
  intro _
  refine waitsFit_empty.createEndpoint fun rate hrate _ => ?_
  obtain rfl : 2 = rate := Option.some.inj hrate
  norm_num

/-- An endpoint that never answers, and the default of 200 rounds. -/
theorem unanswered_quiesce :
    ∃ r', runDeliveries .go (plainEngine 1) (fun _ => answering 0 .network) 3 none twoUnderWay =
        (.ok (), r') ∧
      r'.world.queue = [] ∧ r'.world.pending = [] ∧
      Final r'.world (messageFor "msg_a").key ∧ Final r'.world (messageFor "msg_b").key := by
  obtain ⟨r', hrun, hqueue, hpending, hqueued, hscheduled⟩ :=
    runDeliveries_quiesces (unanswered_regular .go) twoUnderWay le_rfl (twoUnderWay_fits .go) 3
      (by decide) none (by decide +kernel)
  refine ⟨r', hrun, hqueue, hpending, ?_, ?_⟩
  · exact hqueued _ (List.mem_singleton.mpr rfl)
  · exact hscheduled _ (List.mem_singleton.mpr rfl)

end Rounds

/-! ## The POSTs of a run -/

/-- The POSTs made for a message. -/
def postsFor (r : Runtime) (key : String × String) : Nat :=
  r.world.posts.countP fun x => x.message.map Message.key = some key

/-- The tries that the copies of a message have left. -/
def triesFor (en : Engine) (r : Runtime) (key : String × String) : Nat :=
  tries (fun x => if x.key = key then triesLeft en x else 0) (liveOf r)

/-- Every POST was paid for with a try of its message. -/
def Paid (en : Engine) (r r' : Runtime) : Prop :=
  ∀ key, postsFor r' key + triesFor en r' key ≤ postsFor r key + triesFor en r key

section Posts
variable {lang : Lang} {en : Engine} {env : Nat → Answer} {fuel : Nat} {r r' : Runtime}
  {m : Message} {rest : List Message}

theorem postsFor_le {n : Nat} (h : Posted m n r r') (key : String × String) :
    postsFor r' key ≤ postsFor r key + if m.key = key then n else 0 := by
  obtain ⟨more, hmore, hfew, hmine⟩ := h
  unfold postsFor
  rw [hmore, List.countP_append]
  refine Nat.add_le_add_left ?_ _
  split
  · exact List.countP_le_length.trans hfew
  · rename_i hkey
    refine (List.countP_eq_zero.mpr ?_).le
    intro x hx
    rw [hmine x hx]
    simpa using hkey

theorem handled_paid (hspares : Spares m r r') (h : Handled lang en m r r') (key : String × String) :
    postsFor r' key + triesFor en r' key ≤
      postsFor r key + (if m.key = key then triesLeft en m else 0) + triesFor en r key := by
  have hone : 1 ≤ triesLeft en m := Nat.le_add_right 1 _
  unfold triesFor
  cases h with
  | settled hpending _ hposts =>
    have hle := postsFor_le hposts key
    rw [live_same hspares hpending]
    split at hle <;> split <;> omega
  | retried atMs next hpending hagain hposts =>
    have hle := postsFor_le hposts key
    have hless := hagain.triesLeft_lt
    rw [live_scheduled hspares hpending, tries_concat]
    dsimp only
    rw [hagain.same.key]
    split at hle <;> split <;> omega
  | throttled h =>
    obtain ⟨atMs, hpending, -⟩ := h.waits
    have hle := postsFor_le (Posted.none (m := m) (n := 0) h.posts) key
    rw [ite_self] at hle
    rw [live_scheduled hspares hpending, tries_concat]
    dsimp only
    omega
  | parked h =>
    obtain ⟨atMs, hpending, -⟩ := h.waits
    have hle := postsFor_le (Posted.none (m := m) (n := 0) h.posts) key
    rw [ite_self] at hle
    rw [live_scheduled hspares hpending, tries_concat]
    dsimp only
    omega

theorem Paid.refl (en : Engine) (r : Runtime) : Paid en r r := fun _ => le_rfl

theorem Paid.trans {s : Runtime} (h : Paid en r s) (h' : Paid en s r') : Paid en r r' :=
  fun key => (h' key).trans (h key)

theorem handle_paid (hregular : Regular lang en env) (hclock : 0 ≤ r.clock)
    (hqueue : r.world.queue = m :: rest) :
    ∃ r', (r.shifted rest).handle lang en env m = (.ok (), r') ∧ Paid en r r' ∧
      r'.clock = r.clock := by
  obtain ⟨r', hrun, hspares, hhandled⟩ := handle_leaves (r := r.shifted rest) hregular hclock m
  refine ⟨r', hrun, fun key => ?_, hspares.clock⟩
  have hpaid := handled_paid hspares hhandled key
  have hlive : triesFor en r key =
      (if m.key = key then triesLeft en m else 0) + triesFor en (r.shifted rest) key := by
    unfold triesFor
    rw [live_shifted hqueue]
    rfl
  have hposts : postsFor (r.shifted rest) key = postsFor r key := rfl
  omega

/-- A drain ends early only where the bound on its loop does. -/
theorem drain_paid (hregular : Regular lang en env) (fuel : Nat) (hclock : 0 ≤ r.clock) :
    Paid en r (r.drain lang en env fuel).2 ∧ (r.drain lang en env fuel).2.clock = r.clock ∧
      ((r.drain lang en env fuel).1 = .ok () → (r.drain lang en env fuel).2.world.queue = []) := by
  induction fuel generalizing r with
  | zero => exact ⟨.refl en r, rfl, fun h => by cases h⟩
  | succ fuel ih =>
    unfold Runtime.drain
    cases hqueue : r.world.queue with
    | nil => exact ⟨.refl en r, rfl, fun _ => hqueue⟩
    | cons m rest =>
      obtain ⟨s, hrun, hpaid, hsame⟩ := handle_paid hregular hclock hqueue
      dsimp only
      rw [hrun]
      obtain ⟨hmore, hclock', hempty⟩ := ih (r := s) (hsame.symm ▸ hclock)
      exact ⟨hpaid.trans hmore, hclock'.trans hsame, hempty⟩

theorem next_paid (hqueue : r.world.queue = []) : Paid en r r.next := by
  intro key
  have htries : triesFor en r.next key = triesFor en r key := tries_perm (next_live hqueue)
  exact (congrArg (postsFor r key + ·) htries).le

theorem rounds_paid (hregular : Regular lang en env) (maxRounds : Int) (left : Nat)
    (hclock : 0 ≤ r.clock) : Paid en r (r.rounds lang en env fuel maxRounds left).2 := by
  induction left generalizing r with
  | zero => exact .refl en r
  | succ left ih =>
    obtain ⟨hpaid, hsame, hempty⟩ := drain_paid hregular fuel hclock
    unfold Runtime.rounds
    revert hpaid hsame hempty
    obtain ⟨out, s⟩ := r.drain lang en env fuel
    intro hpaid hsame hempty
    cases out with
    | error e => exact hpaid
    | ok u =>
      have hqueue : s.world.queue = [] := hempty rfl
      dsimp only at hpaid hsame ⊢
      split
      · exact hpaid
      · have hlater : s.clock ≤ s.next.clock := le_setClock _ _
        have hnow : 0 ≤ s.next.clock := (hclock.trans hsame.ge).trans hlater
        exact hpaid.trans ((next_paid hqueue).trans (ih hnow))

/-- **No message is POSTed more often than it has tries**, in any run of the delivery loop,
also one that gives up. -/
theorem runDeliveries_posts (hregular : Regular lang en env) (r : Runtime) (hclock : 0 ≤ r.clock)
    (fuel : Nat) (maxRounds : Option Int) (key : String × String) :
    postsFor (runDeliveries lang en env fuel maxRounds r).2 key ≤
      postsFor r key + triesFor en r key := by
  have hpaid : postsFor (runDeliveries lang en env fuel maxRounds r).2 key +
      triesFor en (runDeliveries lang en env fuel maxRounds r).2 key ≤
        postsFor r key + triesFor en r key := rounds_paid hregular _ _ hclock key
  omega

/-- Two tries for a message with one slot in the schedule. -/
theorem unanswered_posts :
    postsFor (runDeliveries .ts (plainEngine 1) (fun _ => answering 0 .network) 3 none
      twoUnderWay).2 (messageFor "msg_a").key ≤ 2 :=
  runDeliveries_posts (unanswered_regular .ts) twoUnderWay le_rfl 3 none (messageFor "msg_a").key

end Posts

end Anyhook.Delivery
