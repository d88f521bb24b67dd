import Anyhook.Delivery.Waits

/-! What one call of the handler leaves, by either engine and over any store. The message is
settled, waits for its next try, or was turned away at a gate. Turned away it uses up no try,
but it then waits until that gate lets it pass: the rate limit until its token is there, the
circuit until its cooldown is over. -/
namespace Anyhook.Delivery
open Anyhook.Core Anyhook.Testing Anyhook.RateLimit Anyhook.Lib.Program Anyhook.Lib.Agenda
open Anyhook.Lib.TokenBucket

/-! ## What holds a message up -/

/-- The circuit gate would turn the message away at the given time. -/
def shut (en : Engine) (store : MemoryStateStore) (p : Time × Message) : Bool :=
  !(canAttempt { store.getCircuit p.2.tenant p.2.endpointId with
    cooldownMs := en.circuitCfg.cooldownMs } p.1).allow

/-- The rate-limit gate would turn the message away at the given time. -/
def short (store : MemoryStateStore) (p : Time × Message) : Bool :=
  (rateOf store p.2).any fun rate =>
    !(decision rate (store.getRateBucket p.2.tenant p.2.endpointId) p.1).allowed

/-- The tries a message has left, the one it is due included. -/
def triesLeft (en : Engine) (m : Message) : Nat :=
  1 + (en.retry.scheduleMs.length - m.attemptNo).toNat

/-! ## One call of the handler -/

/-- Nothing but the call's own message and endpoint has changed. -/
structure Spares (m : Message) (r r' : Runtime) : Prop where
  clock : r'.clock = r.clock
  queue : r'.world.queue = r.world.queue
  endpoints : ∀ t e, r'.world.store.getEndpoint t e = r.world.store.getEndpoint t e
  circuits : ∀ t e, (t, e) ≠ m.target →
    r'.world.store.getCircuit t e = r.world.store.getCircuit t e
  buckets : ∀ t e, (t, e) ≠ m.target →
    r'.world.store.getRateBucket t e = r.world.store.getRateBucket t e
  messages : ∀ t id, (t, id) ≠ m.key →
    r'.world.store.getMessage t id = r.world.store.getMessage t id

theorem Spares.refl (m : Message) (r : Runtime) : Spares m r r :=
  ⟨rfl, rfl, fun _ _ => rfl, fun _ _ _ => rfl, fun _ _ _ => rfl, fun _ _ _ => rfl⟩

theorem Spares.trans {m : Message} {r s t : Runtime} (h : Spares m r s) (h' : Spares m s t) :
    Spares m r t where
  clock := h'.clock.trans h.clock
  queue := h'.queue.trans h.queue
  endpoints a b := (h'.endpoints a b).trans (h.endpoints a b)
  circuits a b hne := (h'.circuits a b hne).trans (h.circuits a b hne)
  buckets a b hne := (h'.buckets a b hne).trans (h.buckets a b hne)
  messages a b hne := (h'.messages a b hne).trans (h.messages a b hne)

section Ports
variable {env : Nat → Answer} {m : Message}

theorem exec_message (a : Answer) (op : Op) (w : World) (t id : String) :
    (exec (some m) a op w).2.store.getMessage t id = match op with
      | .putMessage x => if x.key = (t, id) then some x else w.store.getMessage t id
      | _ => w.store.getMessage t id := by
  have h := congrArg Card.stored (card_exec (some m) a op w (t, id))
  refine h.trans ?_
  cases op with
  | putMessage x => dsimp only [touch]; split <;> rfl
  | appendAttempt x => dsimp only [touch]; split <;> rfl
  | addToDlq x reason => dsimp only [touch]; split <;> rfl
  | transportSend x => dsimp only [touch]; split <;> rfl
  | scheduleRetry x s => dsimp only [touch]; split <;> rfl
  | post url body headers timeoutMs => dsimp only [touch]; split <;> rfl
  | _ => rfl

variable (env) in
theorem exec_spares {op : Op} (hop : Footprint m op) (r : Runtime) :
    Spares m r (Runtime.exec env m op r).2 where
  clock := rfl
  queue := by
    cases op with
    | transportSend x => exact absurd hop id
    | _ => rfl
  endpoints t e := exec_getEndpoint (some m) (r.answer env) op r.world t e
  circuits t e hne := by
    refine (exec_getCircuit (some m) (r.answer env) op r.world t e).trans ?_
    cases op with
    | putCircuit t' e' rec =>
      have htarget : (t', e') = m.target := hop
      exact if_neg fun h => hne (h.symm.trans htarget)
    | _ => rfl
  buckets t e hne := by
    refine (exec_getRateBucket (some m) (r.answer env) op r.world t e).trans ?_
    cases op with
    | putRateBucket t' e' b =>
      have htarget : (t', e') = m.target := hop
      exact if_neg fun h => hne (h.symm.trans htarget)
    | _ => rfl
  messages t id hne := by
    refine (exec_message (r.answer env) op r.world t id).trans ?_
    cases op with
    | putMessage x =>
      have hsame : Same m x := hop
      exact if_neg fun h => hne (h.symm.trans hsame.key)
    | _ => rfl

variable (env) in
/-- Every path of the handler spares the others. -/
theorem obeys_spares {α : Type} {en : Engine} {done : Message × Phase → α → Prop} {p : Eng α}
    (h : Obeys (monitor en) done (m, .begun) p) {r : Runtime} :
    Spares m r (p.run (Runtime.exec env m) r).2 := by
  have hkept : ∃ g : Message × Phase, g.1 = m ∧ g.2.keyed m ∧
      Spares m r (p.run (Runtime.exec env m) r).2 := by
    refine h.run_kept (Runtime.exec env m)
      (I := fun g s => g.1 = m ∧ g.2.keyed m ∧ Spares m r s) ?_ ⟨rfl, trivial, Spares.refl m r⟩
    intro g op s hi hallowed
    obtain ⟨g1, phase⟩ := g
    obtain ⟨rfl, hkeyed, hs⟩ := hi
    have hnext := exec_spares env (Phase.footprint hkeyed hallowed) s
    exact ⟨_, rfl, rfl, Phase.keyed_next hkeyed hallowed _, hs.trans hnext⟩
  obtain ⟨_, -, -, hs⟩ := hkept
  exact hs

end Ports

/-! ## The gates -/

section Gates
variable {lang : Lang} {en : Engine} {env : Nat → Answer} {m : Message} {r : Runtime}

/-- The rate-limit gate turned the message away until there is a token for it. -/
structure Throttled (lang : Lang) (m : Message) (r r' : Runtime) : Prop where
  was : short r.world.store (r.clock, m) = true
  waits : ∃ atMs, r'.world.pending = r.world.pending ++ [(atMs, m)] ∧
    (Fits lang r → short r'.world.store (max r.clock atMs, m) = false)
  circuits : ∀ t e, r'.world.store.getCircuit t e = r.world.store.getCircuit t e
  others : ∀ p : Time × Message, r.clock ≤ p.1 → short r'.world.store p = true →
    short r.world.store p = true
  posts : r'.world.posts = r.world.posts

/-- The circuit gate turned the message away until the circuit lets it through. -/
structure Parked (en : Engine) (m : Message) (r r' : Runtime) : Prop where
  was : shut en r.world.store (r.clock, m) = true
  waits : ∃ atMs, r'.world.pending = r.world.pending ++ [(atMs, m)] ∧
    shut en r'.world.store (max r.clock atMs, m) = false
  circuits : ∀ t e, r'.world.store.getCircuit t e = r.world.store.getCircuit t e
  posts : r'.world.posts = r.world.posts

theorem ends_runtime {α : Type} {op : Op} {k : Res op → Eng α} {Q : α → Runtime → Prop}
    (h : Prog.Ends (Runtime.exec env m) (k (exec (some m) (r.answer env) op r.world).1) Q
      (Runtime.exec env m op r).2) :
    Prog.Ends (Runtime.exec env m) (port op >>= k) Q r :=
  Prog.ends_call rfl h

theorem short_iff {store : MemoryStateStore} {p : Time × Message} {rate : ℚ}
    (hrate : rateOf store p.2 = some rate) :
    short store p = true ↔
      granted (capacityFor rate) (rate / 1000)
        (bucketOf rate (store.getRateBucket p.2.tenant p.2.endpointId)) p.1 = false := by
  have hpos : 0 < rate := of_decide_eq_true (Option.filter_eq_some_iff.mp hrate).2
  rw [short, hrate, Option.any_some, (decision_drawn hpos.le _ _).1]
  simp

/-- Where a refusal is over, its bucket has the token. -/
theorem granted_after_refusal {rate : ℚ} (hrate : 0 < rate) {stored : Option RateBucket}
    {now : Time} (hrefused : (decision rate stored now).allowed = false) :
    granted (capacityFor rate) (rate / 1000)
      (bucketOf rate (some (decision rate stored now).bucket))
      (max now (now + (decision rate stored now).retryAfterMs)) = true := by
  obtain ⟨hless, hlast, hwait⟩ := refusal hrefused
  have hflow : 0 < rate / 1000 := by positivity
  have hbefore : (bucketOf rate (some (decision rate stored now).bucket)).last ≤
      max now (now + (decision rate stored now).retryAfterMs) := by
    refine le_trans ?_ (le_max_left _ _)
    exact hlast.le
  refine (granted_iff_ready (le_max_left 1 rate) hflow hbefore).mpr (le_trans ?_ (le_max_right _ _))
  have hceil := Int.le_ceil ((1 - (decision rate stored now).bucket.tokens) / rate * 1000)
  have hready : ready (rate / 1000) (bucketOf rate (some (decision rate stored now).bucket)) =
      now + (1 - (decision rate stored now).bucket.tokens) / rate * 1000 := by
    simp only [ready, bucketOf]
    rw [div_div_eq_mul_div]
    have hlast' : (decision rate stored now).bucket.lastRefillMs = now := hlast
    rw [hlast']
    ring
  have hwait' : (decision rate stored now).retryAfterMs =
      ⌈(1 - (decision rate stored now).bucket.tokens) / rate * 1000⌉ := hwait
  rw [hready, hwait']
  linarith

/-- A refusal leaves nobody with less, at any later time. -/
theorem refusal_spares {store store' : MemoryStateStore} {rate : ℚ} {now : Time}
    (hrate : rateOf store m = some rate)
    (hrefused : (decision rate (store.getRateBucket m.tenant m.endpointId) now).allowed = false)
    (hendpoints : ∀ t e, store'.getEndpoint t e = store.getEndpoint t e)
    (hbuckets : ∀ t e, store'.getRateBucket t e = if m.target = (t, e) then
      some (decision rate (store.getRateBucket m.tenant m.endpointId) now).bucket
      else store.getRateBucket t e)
    {p : Time × Message} (hp : now ≤ p.1) (hshort : short store' p = true) :
    short store p = true := by
  have hsame : ∀ x, rateOf store' x = rateOf store x := by
    intro x
    unfold rateOf
    rw [hendpoints]
  have hpos : 0 < rate := of_decide_eq_true (Option.filter_eq_some_iff.mp hrate).2
  by_cases htarget : m.target = (p.2.tenant, p.2.endpointId)
  · obtain ⟨htenant, hendpoint⟩ := Prod.mk.inj htarget
    have hrate' : rateOf store p.2 = some rate := by
      rw [← hrate]
      unfold rateOf
      rw [← htenant, ← hendpoint]
    rw [short_iff ((hsame p.2).trans hrate'), hbuckets, if_pos htarget,
      (decision_drawn hpos.le _ now).2] at hshort
    rw [short_iff hrate', ← htenant, ← hendpoint]
    rw [(decision_drawn hpos.le _ now).1] at hrefused
    have hlevel := refilled_le_drawn (le_max_left 1 rate) (by positivity : 0 < rate / 1000)
      hrefused hp
    unfold granted at hshort ⊢
    rw [decide_eq_false_iff_not] at hshort ⊢
    intro hone
    exact hshort (hone.trans hlevel)
  · rw [← hshort]
    unfold short
    rw [hsame p.2, hbuckets, if_neg htarget]

theorem throttled_of_refusal {r' : Runtime} {rate : ℚ}
    (hrate : rateOf r.world.store m = some rate)
    (hrefused : (decision rate (r.world.store.getRateBucket m.tenant m.endpointId)
      r.clock).allowed = false)
    (hpending : r'.world.pending = r.world.pending ++ [(r.clock + lang.handling.throttleWait
      (decision rate (r.world.store.getRateBucket m.tenant m.endpointId) r.clock).retryAfterMs, m)])
    (hendpoints : ∀ t e, r'.world.store.getEndpoint t e = r.world.store.getEndpoint t e)
    (hbuckets : ∀ t e, r'.world.store.getRateBucket t e = if m.target = (t, e) then
      some (decision rate (r.world.store.getRateBucket m.tenant m.endpointId) r.clock).bucket
      else r.world.store.getRateBucket t e)
    (hcircuits : ∀ t e, r'.world.store.getCircuit t e = r.world.store.getCircuit t e)
    (hposts : r'.world.posts = r.world.posts) : Throttled lang m r r' where
  was := by
    rw [short, hrate, Option.any_some, hrefused]
    rfl
  waits := by
    have hpos : 0 < rate := of_decide_eq_true (Option.filter_eq_some_iff.mp hrate).2
    have hrate' : rateOf r'.world.store m = some rate := by
      rw [← hrate]
      unfold rateOf
      rw [hendpoints]
    have hbucket : r'.world.store.getRateBucket m.tenant m.endpointId = _ :=
      (hbuckets m.tenant m.endpointId).trans (if_pos rfl)
    refine ⟨_, hpending, fun hfits => Bool.eq_false_iff.mpr fun h => ?_⟩
    rw [throttleWait_eq hfits hrate hrefused, short_iff hrate', hbucket] at h
    exact Bool.eq_false_iff.mp h (granted_after_refusal hpos hrefused)
  circuits := hcircuits
  others _ hp := refusal_spares hrate hrefused hendpoints hbuckets hp
  posts := hposts

/-- What the rate-limit gate leaves. -/
theorem rateLimitGate_leaves {ep : Endpoint}
    (hep : r.world.store.getEndpoint m.tenant m.endpointId = some ep) :
    Prog.Ends (Runtime.exec env m) (rateLimitGate lang.handling m ep)
      (fun throttled r' => r'.clock = r.clock ∧ if throttled then Throttled lang m r r' else
        r'.world.pending = r.world.pending ∧ r'.world.posts = r.world.posts ∧
          ∀ t e, r'.world.store.getCircuit t e = r.world.store.getCircuit t e) r := by
  have hpass : r.clock = r.clock ∧ (r.world.pending = r.world.pending ∧
      r.world.posts = r.world.posts ∧
      ∀ t e, r.world.store.getCircuit t e = r.world.store.getCircuit t e) :=
    ⟨rfl, rfl, rfl, fun _ _ => rfl⟩
  unfold rateLimitGate
  cases hlimit : ep.rateLimit with
  | none => exact Prog.ends_pure hpass
  | some rate =>
    dsimp only
    by_cases hpos : rate > 0
    · rw [if_pos hpos]
      have hrate : rateOf r.world.store m = some rate := by
        simp [rateOf, hep, hlimit, hpos]
      refine ends_runtime (ends_runtime (ends_runtime ?_))
      cases hallowed : (decision rate (r.world.store.getRateBucket m.tenant m.endpointId)
          r.clock).allowed with
      | true =>
        refine (if_pos hallowed).symm ▸ Prog.ends_pure ⟨rfl, rfl, rfl, ?_⟩
        intro t e
        exact exec_getCircuit (some m) (r.answer env) (.putRateBucket m.tenant m.endpointId _)
          r.world t e
      | false =>
        refine (if_neg (Bool.eq_false_iff.mp hallowed)).symm ▸ ?_
        refine ends_runtime (ends_runtime (Prog.ends_pure ⟨rfl, ?_⟩))
        refine throttled_of_refusal hrate hallowed rfl ?_ ?_ ?_ rfl
        · intro t e
          exact (exec_getEndpoint (some m) (r.answer env) (.putMessage _) _ t e).trans
            (exec_getEndpoint (some m) (r.answer env) (.putRateBucket ..) r.world t e)
        · intro t e
          exact (exec_getRateBucket (some m) (r.answer env) (.putMessage _) _ t e).trans
            (exec_getRateBucket (some m) (r.answer env) (.putRateBucket ..) r.world t e)
        · intro t e
          exact (exec_getCircuit (some m) (r.answer env) (.putMessage _) _ t e).trans
            (exec_getCircuit (some m) (r.answer env) (.putRateBucket ..) r.world t e)
    · rw [if_neg hpos]
      exact Prog.ends_pure hpass

/-- A circuit that lets a message through does so at every later time. -/
theorem shut_of_later {store : MemoryStateStore} {t u : Time} (htu : t ≤ u)
    (h : shut en store (u, m) = true) : shut en store (t, m) = true := by
  unfold shut canAttempt at h ⊢
  cases hstate : (store.getCircuit m.tenant m.endpointId).state with
  | closed => simp [hstate] at h
  | halfOpen => simp [hstate] at h
  | opened =>
    simp only [hstate] at h ⊢
    split at h
    · cases h
    · rename_i hwait
      rw [if_neg]
      · rfl
      · intro ht
        exact hwait (by linarith)

theorem canAttempt_late {circuit : CircuitRecord} {now : Time}
    (h : circuit.openedAt.getD 0 + circuit.cooldownMs ≤ now) :
    (canAttempt circuit now).allow = true := by
  unfold canAttempt
  cases circuit.state with
  | closed => rfl
  | halfOpen => rfl
  | opened =>
    dsimp only
    rw [if_pos (by linarith)]

/-- A message parked at `r.clock` wakes when its cooldown is over. -/
theorem wakeAt_late (hdraw : ∀ n, 0 ≤ (env n).draw ∧ (env n).draw < 1)
    {circuit : CircuitRecord} (hcooldown : 0 ≤ circuit.cooldownMs)
    (hfits : lang = .go → circuit.cooldownMs < 2 ^ 63) (hclock : 0 ≤ r.clock) :
    Prog.Ends (Runtime.exec env m) (lang.handling.wakeAt circuit)
      (fun atMs r' => r'.world = r.world ∧ r'.clock = r.clock ∧
        circuit.openedAt.getD 0 + circuit.cooldownMs ≤ atMs) r := by
  have hopened : circuit.openedAt.getD 0 ≤ circuit.openedAt.getD r.clock := by
    cases circuit.openedAt with
    | none => exact hclock
    | some o => exact le_rfl
  have hjitter : ∀ n, 0 ≤ circuit.cooldownMs * (env n).draw :=
    fun n => mul_nonneg hcooldown (hdraw n).1
  cases lang with
  | ts =>
    show Prog.Ends _ (Core.wakeAt circuit) _ _
    cases ho : circuit.openedAt with
    | none =>
      simp only [Core.wakeAt, openingTime, ho, Core.fullJitter, bind_assoc, pure_bind]
      refine ends_runtime (ends_runtime (Prog.ends_pure ⟨rfl, rfl, ?_⟩))
      have h := hjitter (r.made + 1)
      show (0 : ℚ) + circuit.cooldownMs ≤ r.clock + circuit.cooldownMs +
        circuit.cooldownMs * (env (r.made + 1)).draw
      linarith
    | some o =>
      simp only [Core.wakeAt, openingTime, ho, Core.fullJitter, bind_assoc, pure_bind]
      refine ends_runtime (Prog.ends_pure ⟨rfl, rfl, ?_⟩)
      have h := hjitter r.made
      show o + circuit.cooldownMs ≤ o + circuit.cooldownMs +
        circuit.cooldownMs * (env r.made).draw
      linarith
  | go =>
    show Prog.Ends _ (Go.wakeAt circuit) _ _
    simp only [Go.wakeAt, Go.fullJitter, bind_assoc, pure_bind]
    refine ends_runtime (ends_runtime (Prog.ends_pure ⟨rfl, rfl, ?_⟩))
    have h0 := hjitter (r.made + 1)
    have hlt : circuit.cooldownMs * (env (r.made + 1)).draw < 2 ^ 63 :=
      (mul_le_of_le_one_right hcooldown (hdraw _).2.le).trans_lt (hfits rfl)
    have hint : Go.toInt64 (circuit.cooldownMs * (env (r.made + 1)).draw) =
        ⌊circuit.cooldownMs * (env (r.made + 1)).draw⌋ := by
      rw [Go.toInt64_eq (by rwa [abs_of_nonneg h0])]
      exact if_pos h0
    have hnonneg : (0 : ℚ) ≤ ⌊circuit.cooldownMs * (env (r.made + 1)).draw⌋ := by
      exact_mod_cast Int.floor_nonneg.mpr h0
    show circuit.openedAt.getD 0 + circuit.cooldownMs ≤ circuit.openedAt.getD r.clock +
      circuit.cooldownMs + ((Go.toInt64 (circuit.cooldownMs * (env (r.made + 1)).draw) : Int) : ℚ)
    rw [hint]
    linarith

/-- What the circuit gate leaves. -/
theorem circuitGate_leaves (hdraw : ∀ n, 0 ≤ (env n).draw ∧ (env n).draw < 1)
    (hcooldown : 0 ≤ en.circuitCfg.cooldownMs)
    (hfits : lang = .go → en.circuitCfg.cooldownMs < 2 ^ 63) (hclock : 0 ≤ r.clock) :
    Prog.Ends (Runtime.exec env m) (circuitGate lang.handling en m)
      (fun circuit r' => if circuit.isSome then
        r'.world.pending = r.world.pending ∧ r'.world.posts = r.world.posts
        else Parked en m r r') r := by
  unfold circuitGate
  refine ends_runtime (ends_runtime ?_)
  let circuit := { r.world.store.getCircuit m.tenant m.endpointId with
    cooldownMs := en.circuitCfg.cooldownMs }
  cases hallow : (canAttempt circuit r.clock).allow with
  | true =>
    refine (if_pos hallow).symm ▸ ?_
    split
    · exact ends_runtime (Prog.ends_pure ⟨rfl, rfl⟩)
    · exact Prog.ends_pure ⟨rfl, rfl⟩
  | false =>
    refine (if_neg (Bool.eq_false_iff.mp hallow)).symm ▸ ?_
    simp only [park, bind_assoc]
    refine ends_runtime ((wakeAt_late hdraw (by exact hcooldown) (by exact hfits)
      (by exact hclock)).bind ?_)
    intro atMs s hs
    obtain ⟨hworld, -, hwake⟩ := hs
    have hcircuits : ∀ t e, (Runtime.exec env m (.scheduleRetry m atMs) s).2.world.store.getCircuit
        t e = r.world.store.getCircuit t e := by
      intro t e
      refine (exec_getCircuit (some m) (s.answer env) (.scheduleRetry m atMs) s.world t e).trans ?_
      rw [hworld]
      exact exec_getCircuit (some m) (r.answer env) (.putMessage _) r.world t e
    refine ends_runtime (Prog.ends_pure ⟨?_, ⟨atMs, ?_, ?_⟩, hcircuits, ?_⟩)
    · rw [shut, hallow]
      rfl
    · refine (exec_pending (some m) (s.answer env) (.scheduleRetry m atMs) s.world).trans ?_
      rw [hworld]
      rfl
    · rw [shut, hcircuits]
      exact congrArg not (canAttempt_late (hwake.trans (le_max_right r.clock atMs)))
    · show s.world.posts = _
      rw [hworld]
      rfl

end Gates

/-! ## The delivery -/

/-- Stored as delivered or dead. -/
def Final (w : World) (key : String × String) : Prop :=
  ∃ x, w.store.getMessage key.1 key.2 = some x ∧ (x.status = .delivered ∨ x.status = .dead)

/-- The same message, at its next try; `m` was in a slot of the schedule. -/
structure Again (en : Engine) (m next : Message) : Prop where
  same : Same m next
  attemptNo : next.attemptNo = m.attemptNo + 1
  nonneg : 0 ≤ m.attemptNo
  slot : m.attemptNo < en.retry.scheduleMs.length

theorem Again.triesLeft_lt {en : Engine} {m next : Message} (h : Again en m next) :
    triesLeft en next < triesLeft en m := by
  have hno := h.attemptNo
  have hslot := h.slot
  unfold triesLeft
  omega

/-- What a call that tries a delivery has done to schedule and store, by its phase. -/
def Tried (en : Engine) (m : Message) (r : Runtime) (s : Runtime) : Phase → Prop
  | .begun => False
  | .trying | .answered _ => s.world.pending = r.world.pending
  | .failed => s.world.pending = r.world.pending ∧
      0 ≤ m.attemptNo ∧ m.attemptNo < en.retry.scheduleMs.length
  | .waiting x => s.world.pending = r.world.pending ∧ Again en m x
  | .scheduled x => (∃ atMs, s.world.pending = r.world.pending ++ [(atMs, x)]) ∧ Again en m x
  | .accepted | .delivered | .doomed | .mourned | .buried =>
    s.world.pending = r.world.pending ∧ Final s.world m.key

section Delivery
variable {lang : Lang} {en : Engine} {env : Nat → Answer} {m : Message} {r s : Runtime}

theorem Tried.congr {s' : Runtime} {p : Phase} (h : Tried en m r s p)
    (hpending : s'.world.pending = s.world.pending)
    (hstored : s'.world.store.getMessage m.tenant m.messageId =
      s.world.store.getMessage m.tenant m.messageId) : Tried en m r s' p := by
  have hfinal : Final s.world m.key → Final s'.world m.key := by
    intro hf
    obtain ⟨x, hx, hstatus⟩ := hf
    exact ⟨x, hstored.trans hx, hstatus⟩
  cases p with
  | begun => exact h
  | trying => exact hpending.trans h
  | answered o => exact hpending.trans h
  | failed => exact ⟨hpending.trans h.1, h.2⟩
  | waiting x => exact ⟨hpending.trans h.1, h.2⟩
  | scheduled x =>
    obtain ⟨⟨atMs, hat⟩, hagain⟩ := h
    exact ⟨⟨atMs, hpending.trans hat⟩, hagain⟩
  | accepted => exact ⟨hpending.trans h.1, hfinal h.2⟩
  | delivered => exact ⟨hpending.trans h.1, hfinal h.2⟩
  | doomed => exact ⟨hpending.trans h.1, hfinal h.2⟩
  | mourned => exact ⟨hpending.trans h.1, hfinal h.2⟩
  | buried => exact ⟨hpending.trans h.1, hfinal h.2⟩

theorem final_put {a : Answer} {w : World} {x : Message} (hkey : x.key = m.key)
    (hstatus : x.status = .delivered ∨ x.status = .dead) :
    Final (exec (some m) a (.putMessage x) w).2 m.key :=
  ⟨x, (exec_message a (.putMessage x) w m.key.1 m.key.2).trans (if_pos hkey), hstatus⟩

variable (env) in
theorem Tried.exec {p : Phase} {op : Op} (h : Tried en m r s p) (hop : p.allows en m op) :
    Tried en m r (Runtime.exec env m op s).2
      (p.next m op (Testing.exec (some m) (s.answer env) op s.world).1) := by
  cases op with
  | putMessage x =>
    cases p with
    | begun => exact absurd h id
    | answered o =>
      cases o with
      | delivered =>
        obtain rfl : x = _ := hop
        exact ⟨h, final_put (a := s.answer env) rfl (.inl rfl)⟩
      | permanent =>
        obtain rfl : x = _ := hop
        exact ⟨h, final_put (a := s.answer env) rfl (.inr rfl)⟩
      | retryable =>
        obtain rfl : x = _ := hop
        exact ⟨h, final_put (a := s.answer env) rfl (.inr rfl)⟩
    | failed =>
      obtain ⟨t, rfl⟩ := hop
      exact ⟨h.1, ⟨rfl, rfl, rfl⟩, rfl, h.2.1, h.2.2⟩
    | _ => exact absurd hop id
  | appendAttempt a =>
    have hkept : Tried en m r (Runtime.exec env m (.appendAttempt a) s).2 p :=
      h.congr rfl (exec_message (m := m) (s.answer env) (.appendAttempt a) s.world _ _)
    obtain ⟨-, -, -, -, hlogs⟩ := hop
    cases p with
    | doomed => exact hkept
    | accepted => exact hkept
    | answered o =>
      cases o with
      | retryable => exact ⟨hkept, hlogs.2⟩
      | delivered => exact absurd hlogs id
      | permanent => exact absurd hlogs id
    | _ => exact absurd hlogs id
  | addToDlq x reason =>
    have hkept : Tried en m r (Runtime.exec env m (.addToDlq x reason) s).2 p :=
      h.congr rfl (exec_message (m := m) (s.answer env) (.addToDlq x reason) s.world _ _)
    obtain ⟨-, rfl⟩ := hop
    exact hkept
  | scheduleRetry x atMs =>
    obtain rfl : p = .waiting x := hop
    exact ⟨⟨atMs, congrArg (· ++ [(atMs, x)]) h.1⟩, h.2⟩
  | check url =>
    obtain rfl : p = .trying := hop
    dsimp only [Phase.next]
    split
    · exact h
    · exact h
  | post url body headers timeoutMs =>
    obtain rfl : p = .trying := hop
    exact h
  | recordEvent t eventId idemKey => exact absurd hop id
  | finalizeEvent t idemKey eventId n => exact absurd hop id
  | matchEndpoints t ty => exact absurd hop id
  | transportSend x => exact absurd hop id
  | _ => exact h.congr rfl (exec_message (s.answer env) _ s.world _ _)

/-- At most `n` POSTs were made, all for `m`. -/
def Posted (m : Message) (n : Nat) (r s : Runtime) : Prop :=
  ∃ more, s.world.posts = r.world.posts ++ more ∧ more.length ≤ n ∧ ∀ x ∈ more, x.message = some m

theorem Posted.none {n : Nat} (h : s.world.posts = r.world.posts) : Posted m n r s :=
  ⟨[], h.trans (List.append_nil _).symm, Nat.zero_le n, fun _ hx => by cases hx⟩

/-- A try makes one POST at most, before it is answered. -/
def PostedOnce (m : Message) (r s : Runtime) (p : Phase) : Prop :=
  Posted m (if p = .trying then 0 else 1) r s

/-- A phase does not come back to `trying`. -/
theorem Phase.trying_of_next {p : Phase} {op : Op} {res : Res op} (hbegun : p ≠ .begun)
    (h : p.next m op res = .trying) : p = .trying := by
  cases op with
  | putMessage x =>
    cases p with
    | answered o => cases o <;> cases h
    | begun => exact absurd rfl hbegun
    | _ => first | exact h | cases h
  | appendAttempt a =>
    cases p with
    | answered o => cases o <;> cases h
    | _ => first | exact h | cases h
  | addToDlq x reason => cases p <;> first | exact h | cases h
  | scheduleRetry x atMs => cases p <;> first | exact h | cases h
  | check url =>
    dsimp only [Phase.next] at h
    split at h
    · exact h
    · cases h
  | post url body headers timeoutMs => cases h
  | _ => exact h

variable (env) in
theorem PostedOnce.exec {p : Phase} {op : Op} (h : PostedOnce m r s p) (hbegun : p ≠ .begun)
    (hop : p.allows en m op) :
    PostedOnce m r (Runtime.exec env m op s).2
      (p.next m op (Testing.exec (some m) (s.answer env) op s.world).1) := by
  obtain ⟨more, hmore, hfew, hmine⟩ := h
  by_cases hpost : ∃ url body headers timeoutMs, op = .post url body headers timeoutMs
  · obtain ⟨url, body, headers, timeoutMs, rfl⟩ := hpost
    obtain rfl : p = .trying := hop
    obtain rfl : more = [] := List.eq_nil_of_length_eq_zero (Nat.le_zero.mp hfew)
    rw [List.append_nil] at hmore
    refine ⟨[_], congrArg (· ++ [_]) hmore, Nat.le_refl 1, ?_⟩
    intro x hx
    obtain rfl := List.mem_singleton.mp hx
    rfl
  · have hsame : (Runtime.exec env m op s).2.world.posts = s.world.posts := by
      refine (exec_posts (some m) (s.answer env) op s.world).trans ?_
      cases op with
      | post url body headers timeoutMs => exact absurd ⟨_, _, _, _, rfl⟩ hpost
      | _ => rfl
    refine ⟨more, hsame.trans hmore, hfew.trans ?_, hmine⟩
    by_cases hp : p = .trying
    · rw [if_pos hp]
      exact Nat.zero_le _
    · rw [if_neg hp, if_neg fun hnext => hp (Phase.trying_of_next hbegun hnext)]

/-- How a call of the handler ends. -/
inductive Handled (lang : Lang) (en : Engine) (m : Message) (r r' : Runtime) : Prop
  | settled (pending : r'.world.pending = r.world.pending) (final : Final r'.world m.key)
    (posts : Posted m 1 r r')
  | retried (atMs : Time) (next : Message)
    (pending : r'.world.pending = r.world.pending ++ [(atMs, next)]) (again : Again en m next)
    (posts : Posted m 1 r r')
  | throttled (h : Throttled lang m r r')
  | parked (h : Parked en m r r')

theorem runtime_ends {α : Type} {p : Eng α} (hp : Prog.Total p) (r : Runtime) :
    ∃ a r', p.run (Runtime.exec env m) r = (.ok a, r') :=
  hp.run_ok (Runtime.exec env m) (fun _ _ => ⟨_, _, rfl⟩) r

theorem attemptDelivery_leaves (d : Dialect) (ep : Endpoint) (circuit : CircuitRecord)
    (hpending : s.world.pending = r.world.pending) (hposts : s.world.posts = r.world.posts) :
    Prog.Ends (Runtime.exec env m) (attemptDelivery d en m ep circuit)
      (fun _ r' => Handled lang en m r r') s := by
  have hobeys := attemptDelivery_obeys d en m ep circuit
  have htotal := attemptDelivery_total d en m ep circuit
  -- From the first write on the phases are those of a try.
  refine ends_runtime ?_
  let s0 := (Runtime.exec env m (.putMessage { m with status := .delivering }) s).2
  have hstart : Tried en m r s0 .trying := hpending
  have hnone : PostedOnce m r s0 .trying := .none hposts
  obtain ⟨a, r', hrun⟩ := runtime_ends (m := m) (htotal ()) s0
  have hinv := (hobeys.2 ()).run_inv (Runtime.exec env m)
    (I := fun (g : Message × Phase) t => g.1 = m ∧ Tried en m r t g.2 ∧ PostedOnce m r t g.2)
    (E := fun _ => True) ?_ (fun _ _ _ _ _ _ _ _ => trivial) (fun _ _ _ => trivial) (s := s0)
    ⟨rfl, hstart, hnone⟩
  · refine ⟨a, r', hrun, ?_⟩
    rw [hrun] at hinv
    obtain ⟨⟨x, phase⟩, hsettled, rfl, htried, honce⟩ := hinv
    cases phase with
    | scheduled x =>
      obtain ⟨⟨atMs, hpending⟩, hagain⟩ := htried
      exact .retried atMs x hpending hagain honce
    | delivered => exact .settled htried.1 htried.2 honce
    | buried => exact .settled htried.1 htried.2 honce
    | _ => exact absurd hsettled id
  · intro g op t res t' hi hallowed hx
    obtain ⟨x, phase⟩ := g
    obtain ⟨rfl, htried, honce⟩ := hi
    have hbegun : phase ≠ .begun := by
      rintro rfl
      exact htried
    have hnext := htried.exec env hallowed
    have hposted := honce.exec env hbegun hallowed
    cases hx
    exact ⟨rfl, hnext, hposted⟩

theorem endpointGone_leaves (hpending : s.world.pending = r.world.pending)
    (hposts : s.world.posts = r.world.posts) :
    Prog.Ends (Runtime.exec env m) (endpointGone m) (fun _ r' => Handled lang en m r r') s := by
  refine ends_runtime (ends_runtime ?_)
  obtain ⟨x, hx, hstatus⟩ := final_put (a := (Runtime.exec env m .now s).2.answer env)
    (w := s.world) (x := { m with status := .dead }) (m := m) rfl (.inr rfl)
  refine ⟨(), _, rfl, .settled hpending ⟨x, ?_, hstatus⟩ ?_⟩
  · exact (exec_message (m := m) (s.answer env) (.addToDlq m .endpointGone) _ _ _).trans
      ((exec_message (m := m) (s.answer env) (.appendAttempt _) _ _ _).trans hx)
  · exact .none hposts

theorem Throttled.since {r' : Runtime} (h : Throttled lang m s r') (hclock : s.clock = r.clock)
    (hworld : s.world = r.world) : Throttled lang m r r' := by
  obtain ⟨hwas, hwaits, hcircuits, hothers, hposts⟩ := h
  have hfits : Fits lang s ↔ Fits lang r := by
    unfold Fits
    rw [hworld]
  rw [hclock, hworld, hfits] at hwaits
  rw [hclock, hworld] at hwas hothers
  rw [hworld] at hcircuits hposts
  exact ⟨hwas, hwaits, hcircuits, hothers, hposts⟩

theorem Parked.since {r' : Runtime} (h : Parked en m s r') (hclock : s.clock = r.clock)
    (hpending : s.world.pending = r.world.pending) (hposts : s.world.posts = r.world.posts)
    (hcircuits : ∀ t e, s.world.store.getCircuit t e = r.world.store.getCircuit t e) :
    Parked en m r r' := by
  obtain ⟨hwas, hwaits, hkept, hnone⟩ := h
  rw [hclock, hpending] at hwaits
  refine ⟨?_, hwaits, fun t e => (hkept t e).trans (hcircuits t e), hnone.trans hposts⟩
  unfold shut at hwas ⊢
  rw [← hcircuits, ← hclock]
  exact hwas

end Delivery

/-! ## The handler -/

/-- What the handler relies on: draws of the random source, and a cooldown that is one. -/
structure Regular (lang : Lang) (en : Engine) (env : Nat → Answer) : Prop where
  draws : ∀ n, 0 ≤ (env n).draw ∧ (env n).draw < 1
  cooldown : 0 ≤ en.circuitCfg.cooldownMs
  fits : lang = .go → en.circuitCfg.cooldownMs < 2 ^ 63

section Handler
variable {lang : Lang} {en : Engine} {env : Nat → Answer} {r : Runtime}

/-- **Every call of the handler returns, and pays for what it leaves.** -/
theorem handle_leaves (hregular : Regular lang en env) (hclock : 0 ≤ r.clock) (m : Message) :
    ∃ r', r.handle lang en env m = (.ok (), r') ∧ Spares m r r' ∧ Handled lang en m r r' := by
  have hends : Prog.Ends (Runtime.exec env m) (processWith lang.handling en m)
      (fun _ r' => Handled lang en m r r') r := by
    refine ends_runtime ?_
    let s := (Runtime.exec env m (.getEndpoint m.tenant m.endpointId) r).2
    cases hep : r.world.store.getEndpoint m.tenant m.endpointId with
    | none =>
      have hnone : (exec (some m) (r.answer env) (.getEndpoint m.tenant m.endpointId)
        r.world).1 = none := hep
      rw [hnone]
      exact endpointGone_leaves rfl rfl
    | some ep =>
      have hsome : (exec (some m) (r.answer env) (.getEndpoint m.tenant m.endpointId)
        r.world).1 = some ep := hep
      rw [hsome]
      dsimp only
      split
      · exact endpointGone_leaves rfl rfl
      · refine (rateLimitGate_leaves (r := s) hep).bind ?_
        intro throttled s1 hs1
        obtain ⟨hclock1, hs1⟩ := hs1
        cases throttled with
        | true => exact Prog.ends_pure (.throttled (hs1.since rfl rfl))
        | false =>
          obtain ⟨hpending1, hposts1, hcircuits1⟩ := hs1
          refine (circuitGate_leaves hregular.draws hregular.cooldown hregular.fits
            (hclock1.symm ▸ hclock)).bind ?_
          intro circuit s2 hs2
          cases circuit with
          | none =>
            exact Prog.ends_pure (.parked (hs2.since hclock1 hpending1 hposts1 hcircuits1))
          | some circuit =>
            exact attemptDelivery_leaves lang.handling ep circuit (hs2.1.trans hpending1)
              (hs2.2.trans hposts1)
  obtain ⟨a, r', hrun, hhandled⟩ := hends
  have hspares := obeys_spares env (process_obeys lang.handling en m) (r := r)
  rw [hrun] at hspares
  exact ⟨r', hrun, hspares, hhandled⟩

end Handler

end Anyhook.Delivery
