import Anyhook.Delivery.Machine
import Anyhook.Lib.Run
import Anyhook.Lib.TokenBucket

/-! The rate limit of one endpoint whose messages are processed one after another, by
either engine: the stored bucket is a token bucket drawn from once a call, so every
window of gate times lets through the capacity and what flows in while it lasts. -/
namespace Anyhook.RateLimit
open Anyhook.Core Anyhook.Testing Anyhook.Delivery Anyhook.Lib.Program Anyhook.Lib.Run
open Anyhook.Lib.TokenBucket

/-! ## The bucket of the policy -/

/-- The stored bucket as a token bucket in milliseconds; none is stored before the first
call, which finds it full. -/
def bucketOf (rate : ℚ) : Option RateBucket → Bucket ℚ
  | some b => { level := b.tokens, last := b.lastRefillMs }
  | none => { level := capacityFor rate, last := 0 }

/-- What a gate decides at `now` over the bucket it read. -/
def decision (rate : ℚ) (stored : Option RateBucket) (now : Time) : RateDecision :=
  consumeToken (stored.getD (initialBucket rate now)) rate now

theorem capacityFor_nonneg (rate : ℚ) : 0 ≤ capacityFor rate :=
  zero_le_one.trans (le_max_left 1 rate)

theorem refilled_eq {rate : ℚ} (hrate : 0 ≤ rate) (stored : Option RateBucket) (now : Time) :
    min (capacityFor rate) ((stored.getD (initialBucket rate now)).tokens +
        max 0 ((now - (stored.getD (initialBucket rate now)).lastRefillMs) / 1000) * rate) =
      refilled (capacityFor rate) (rate / 1000) (bucketOf rate stored) now := by
  cases stored with
  | some b =>
    have hflow : max 0 ((now - b.lastRefillMs) / 1000) * rate =
        rate / 1000 * max 0 (now - b.lastRefillMs) := by
      rcases le_total 0 (now - b.lastRefillMs) with h | h
      · rw [max_eq_right h, max_eq_right (by positivity)]
        ring
      · rw [max_eq_left h, max_eq_left (div_nonpos_of_nonpos_of_nonneg h (by norm_num))]
        ring
    simp only [Option.getD_some, refilled, bucketOf, hflow]
  | none =>
    have hflow : 0 ≤ rate / 1000 * max 0 (now - 0) :=
      mul_nonneg (by positivity) (le_max_left 0 _)
    simp only [Option.getD_none, refilled, bucketOf, initialBucket, sub_self, zero_div, max_self,
      zero_mul, add_zero, min_self]
    rw [min_eq_left (by linarith)]

/-- A gate draws a token. -/
theorem decision_drawn {rate : ℚ} (hrate : 0 ≤ rate) (stored : Option RateBucket) (now : Time) :
    (decision rate stored now).allowed =
        granted (capacityFor rate) (rate / 1000) (bucketOf rate stored) now ∧
      bucketOf rate (some (decision rate stored now).bucket) =
        drawn (capacityFor rate) (rate / 1000) (bucketOf rate stored) now := by
  unfold decision consumeToken granted drawn
  simp only [refilled_eq hrate stored now]
  split
  · next h =>
    have hone : 1 ≤ refilled (capacityFor rate) (rate / 1000) (bucketOf rate stored) now := h
    exact ⟨by simp [hone], by simp [bucketOf]⟩
  · next h =>
    have hnone : ¬ 1 ≤ refilled (capacityFor rate) (rate / 1000) (bucketOf rate stored) now := h
    exact ⟨by simp [hnone], by simp [bucketOf]⟩

/-! ## One call after another -/

/-- A call for the endpoint, and what happened before it. -/
structure Visit (tenant endpointId : String) where
  changes : List Change
  job : Job
  target : job.message.target = (tenant, endpointId)
  answers : Nat → Answer

/-- Port call 0 asks for the endpoint; at the gate, port call 1 reads the clock. -/
def Visit.gateTime {tenant endpointId : String} (v : Visit tenant endpointId) : Time :=
  (v.answers 1).now

/-- The runtime, and for each call that came to the rate-limit gate when it came and
whether it passed. -/
structure Course where
  world : World
  gates : List (Time × Bool)

def Course.begin (w : World) : Course where
  world := w
  gates := []

section Calls
variable (en : Engine) {tenant endpointId : String}

def Course.visit (c : Course) (v : Visit tenant endpointId) : Course where
  world := processed v.job.lang en (c.world.changed v.changes) v.job.message v.answers
  gates := c.gates ++
    match passOf v.job.lang en (c.world.changed v.changes) v.job.message v.answers with
    | .ok .throttled => [(v.gateTime, false)]
    | .ok .blocked => [(v.gateTime, true)]
    | .ok (.admitted ..) => [(v.gateTime, true)]
    | .ok .gone => []
    | .error _ => []

/-- The endpoint, if the call finds it, is limited to `rate`. -/
def LimitIs (rate : ℚ) (c : Course) (v : Visit tenant endpointId) : Prop :=
  ∀ ep, (c.world.changed v.changes).store.getEndpoint tenant endpointId = some ep →
    ep.rateLimit = some rate

end Calls

/-! ## One call -/

section Call
variable {d : Dialect} {en : Engine} {m : Message} {answers : Nat → Answer} {rate : ℚ}

def bucketAt (m : Message) (s : World × Nat) : Option RateBucket :=
  s.1.store.getRateBucket m.tenant m.endpointId

def NoBucket : Op → Prop
  | .putRateBucket .. => False
  | _ => True

theorem ends_port {α : Type} {op : Op} {k : Res op → Eng α} {Q : α → World × Nat → Prop}
    {s : World × Nat}
    (h : Prog.Ends (execSeq (some m) (unfailing answers))
      (k (exec (some m) (answers s.2) op s.1).1) Q
      ((exec (some m) (answers s.2) op s.1).2, s.2 + 1)) :
    Prog.Ends (execSeq (some m) (unfailing answers)) (port op >>= k) Q s :=
  Prog.ends_call rfl h

theorem bucketAt_exec (op : Op) (s : World × Nat) :
    bucketAt m ((exec (some m) (answers s.2) op s.1).2, s.2 + 1) = match op with
      | .putRateBucket t e b => if (t, e) = m.target then some b else bucketAt m s
      | _ => bucketAt m s :=
  exec_getRateBucket (some m) (answers s.2) op s.1 m.tenant m.endpointId

/-- Whatever else a call does leaves the bucket alone. -/
theorem bucket_kept {α : Type} {p : Eng α} (hp : Prog.Only NoBucket p) (s : World × Nat) :
    Prog.Ends (execSeq (some m) (unfailing answers)) p
      (fun _ s' => bucketAt m s' = bucketAt m s) s := by
  refine (hp.ends (R := fun s s' => bucketAt m s' = bucketAt m s) (I := fun _ => True)
    (fun _ => rfl) (fun _ _ _ h h' => h'.trans h) ?_ trivial).mono fun _ _ h => h.1
  intro op s hop _
  refine ⟨_, _, rfl, (bucketAt_exec op s).trans ?_, trivial⟩
  cases op with
  | putRateBucket t e b => exact absurd hop id
  | _ => rfl

theorem record_only (a : Attempt) : Prog.Only NoBucket (record a) :=
  ⟨trivial, fun _ => ⟨trivial, fun _ => trivial⟩⟩

theorem dlq_only (m : Message) (a : Attempt) (reason : DlqReason) :
    Prog.Only NoBucket (dlq m a reason) :=
  Prog.only_call trivial fun _ =>
    Prog.only_bind (record_only _) fun _ => ⟨trivial, fun _ => trivial⟩

theorem circuitGate_only : Prog.Only NoBucket (circuitGate d en m) := by
  refine Prog.only_call trivial fun stored => Prog.only_call trivial fun now => ?_
  dsimp only
  split
  · split
    · exact ⟨trivial, fun _ => trivial⟩
    · trivial
  · refine Prog.only_bind ?_ fun _ => trivial
    exact Prog.only_call trivial fun _ =>
      Prog.only_bind ((d.wakeAt_reads _).only trivial trivial) fun _ => ⟨trivial, fun _ => trivial⟩

theorem deliverWith_only (ep : Endpoint) : Prog.Only NoBucket (deliverWith d en m ep) := by
  refine Prog.only_call trivial fun ssrf => ?_
  split
  · exact ⟨trivial, fun _ => ⟨trivial, fun _ => ⟨trivial, fun _ => ⟨trivial, fun _ => trivial⟩⟩⟩⟩
  · trivial

theorem attemptDelivery_only (ep : Endpoint) (circuit : CircuitRecord) :
    Prog.Only NoBucket (attemptDelivery d en m ep circuit) := by
  refine Prog.only_call trivial fun _ => Prog.only_bind (deliverWith_only ep) fun result =>
    Prog.only_call trivial fun ts => ?_
  cases result.outcome with
  | delivered => exact ⟨trivial, fun _ => ⟨trivial, fun _ => record_only _⟩⟩
  | permanent => exact ⟨trivial, fun _ => ⟨trivial, fun _ => dlq_only m _ _⟩⟩
  | retryable =>
    refine Prog.only_call trivial fun now => Prog.only_call trivial fun _ =>
      Prog.only_bind ((d.nextDelayMs_reads _ _ _).only trivial trivial) fun delay => ?_
    cases delay with
    | none => exact dlq_only m _ _
    | some delay =>
      exact Prog.only_bind (record_only _) fun _ => ⟨trivial, fun _ => ⟨trivial, fun _ =>
        ⟨trivial, fun _ => trivial⟩⟩⟩

theorem afterGates_only (pass : Pass) : Prog.Only NoBucket (afterGates d en m pass) := by
  cases pass with
  | gone => exact ⟨trivial, fun _ => dlq_only m _ _⟩
  | throttled => trivial
  | blocked => trivial
  | admitted ep circuit => exact attemptDelivery_only ep circuit

/-- The gate decides over the stored bucket and stores what is left of it. -/
theorem rateLimitGate_ends {ep : Endpoint} (hlimit : ep.rateLimit = some rate) (hrate : 0 < rate)
    (s : World × Nat) :
    Prog.Ends (execSeq (some m) (unfailing answers)) (rateLimitGate d m ep)
      (fun throttled s' =>
        throttled = !(decision rate (bucketAt m s) (answers s.2).now).allowed ∧
        bucketAt m s' = some (decision rate (bucketAt m s) (answers s.2).now).bucket) s := by
  unfold rateLimitGate
  simp only [hlimit, if_pos (show rate > 0 from hrate)]
  refine ends_port (ends_port (ends_port ?_))
  -- Past the three calls the state is the one before with the new bucket in it.
  have hput : ∀ b, bucketAt m ((exec (some m) (answers (s.2 + 1 + 1))
      (.putRateBucket m.tenant m.endpointId b)
      (exec (some m) (answers (s.2 + 1)) (.getRateBucket m.tenant m.endpointId)
        (exec (some m) (answers s.2) .now s.1).2).2).2, s.2 + 1 + 1 + 1) = some b := by
    intro b
    exact (bucketAt_exec (.putRateBucket m.tenant m.endpointId b) (s.1, s.2 + 1 + 1)).trans
      (if_pos rfl)
  change Prog.Ends _ (if (decision rate (bucketAt m s) (answers s.2).now).allowed = true
    then _ else _) _ _
  split
  · next h => exact Prog.ends_pure ⟨by rw [h]; rfl, hput _⟩
  · next h =>
    have hfalse : (decision rate (bucketAt m s) (answers s.2).now).allowed = false := by
      simpa using h
    refine ends_port (ends_port (Prog.ends_pure ⟨by rw [hfalse]; rfl, ?_⟩))
    refine (bucketAt_exec (.scheduleRetry m _) (_, _)).trans ?_
    exact (bucketAt_exec (.putMessage _) (_, _)).trans (hput _)

/-- How a call and the bucket fare: the endpoint is gone, or the gate at `now` decided. -/
inductive Gated (rate : ℚ) (now : Time) (stored : Option RateBucket) (pass : Pass)
    (left : Option RateBucket) : Prop
  | gone (hpass : pass = .gone) (hleft : left = stored)
  | throttled (hpass : pass = .throttled) (h : (decision rate stored now).allowed = false)
    (hleft : left = some (decision rate stored now).bucket)
  | passed (hpass : pass = .blocked ∨ ∃ ep circuit, pass = .admitted ep circuit)
    (h : (decision rate stored now).allowed = true)
    (hleft : left = some (decision rate stored now).bucket)

theorem gates_ends {w : World} (hrate : 0 < rate)
    (hlimit : ∀ ep, w.store.getEndpoint m.tenant m.endpointId = some ep →
      ep.rateLimit = some rate) :
    Prog.Ends (execSeq (some m) (unfailing answers)) (gates d en m)
      (fun pass s' => Gated rate (answers 1).now (bucketAt m (w, 0)) pass (bucketAt m s'))
      (w, 0) := by
  refine ends_port ?_
  dsimp only [exec]
  cases hep : w.store.getEndpoint m.tenant m.endpointId with
  | none => exact Prog.ends_pure (.gone rfl rfl)
  | some ep =>
    dsimp only
    split
    · exact Prog.ends_pure (.gone rfl rfl)
    · refine (rateLimitGate_ends (hlimit ep hep) hrate (w, 1)).bind ?_
      intro throttled s hs
      obtain ⟨hthrottled, hbucket⟩ := hs
      cases hallowed : (decision rate (bucketAt m (w, 1)) (answers 1).now).allowed with
      | false =>
        rw [hallowed] at hthrottled
        subst hthrottled
        exact Prog.ends_pure (.throttled rfl hallowed hbucket)
      | true =>
        rw [hallowed] at hthrottled
        subst hthrottled
        refine (bucket_kept circuitGate_only s).bind fun circuit s' hs' => ?_
        have hkept := hs'.trans hbucket
        cases circuit with
        | none => exact Prog.ends_pure (.passed (.inl rfl) hallowed hkept)
        | some circuit => exact Prog.ends_pure (.passed (.inr ⟨ep, circuit, rfl⟩) hallowed hkept)

/-- What the gates do to the bucket, the whole call does. -/
theorem call_gated (lang : Lang) (en : Engine) (answers : Nat → Answer) {w : World} (hrate : 0 < rate)
    (hlimit : ∀ ep, w.store.getEndpoint m.tenant m.endpointId = some ep →
      ep.rateLimit = some rate) :
    ∃ pass, passOf lang en w m answers = .ok pass ∧
      Gated rate (answers 1).now (w.store.getRateBucket m.tenant m.endpointId) pass
        ((processed lang en w m answers).store.getRateBucket m.tenant m.endpointId) := by
  have hgates : Prog.Ends (execSeq (some m) (unfailing answers)) (gates lang.dialect en m) _ (w, 0) :=
    gates_ends hrate hlimit
  obtain ⟨pass, s, hrun, hg⟩ := hgates
  have hafter : Prog.Ends (execSeq (some m) (unfailing answers))
      (afterGates lang.dialect en m pass) _ s := bucket_kept (afterGates_only pass) s
  obtain ⟨u, s', hrest, hkept⟩ := hafter
  refine ⟨pass, by rw [passOf, runSeq, hrun], ?_⟩
  have hworld : processed lang en w m answers = s'.1 := by
    unfold processed
    rw [Job.process_eq, processWith_eq]
    simp only [runSeq, Prog.run_bind, hrun, hrest]
  rw [hworld]
  show Gated _ _ (bucketAt m (w, 0)) pass (bucketAt m s')
  rw [hkept]
  exact hg

end Call

/-! ## Any sequence of calls -/

section Calls
variable {en : Engine} {tenant endpointId : String} {rate : ℚ} {w : World} {c : Course}

def Course.bucket (c : Course) (tenant endpointId : String) : Option RateBucket :=
  c.world.store.getRateBucket tenant endpointId

/-- The calls so far were draws from the bucket of the start. -/
def Drawn (tenant endpointId : String) (rate : ℚ) (b : Bucket ℚ) (c : Course) : Prop :=
  ∃ ts, c.gates = draws (capacityFor rate) (rate / 1000) b ts ∧
    bucketOf rate (c.bucket tenant endpointId) = after (capacityFor rate) (rate / 1000) b ts

theorem Drawn.visit {b : Bucket ℚ} (h : Drawn tenant endpointId rate b c) (hrate : 0 < rate)
    {v : Visit tenant endpointId} (hlimit : LimitIs rate c v) :
    Drawn tenant endpointId rate b (c.visit en v) := by
  obtain ⟨ts, hgates, hbucket⟩ := h
  have htarget := v.target
  unfold Message.target at htarget
  obtain ⟨ht, he⟩ := Prod.mk.inj htarget
  have hlimit' : ∀ ep, (c.world.changed v.changes).store.getEndpoint v.job.message.tenant
      v.job.message.endpointId = some ep → ep.rateLimit = some rate := by
    rw [ht, he]
    exact hlimit
  obtain ⟨pass, hpass, hg⟩ := call_gated v.job.lang en v.answers hrate hlimit'
  have hstored : (c.world.changed v.changes).store.getRateBucket tenant endpointId =
      c.bucket tenant endpointId := by
    obtain ⟨endpoints, hsame⟩ := c.world.changed_tenants v.changes tenant
    unfold Course.bucket MemoryStateStore.getRateBucket
    rw [hsame]
  rw [ht, he, hstored] at hg
  have hg' : Gated rate v.gateTime (c.bucket tenant endpointId) pass
      ((c.visit en v).bucket tenant endpointId) := hg
  obtain ⟨hallowed, hnext⟩ := decision_drawn hrate.le (c.bucket tenant endpointId) v.gateTime
  -- A decision at the gate is one more draw.
  have hdraw : ∀ allowed, (decision rate (c.bucket tenant endpointId) v.gateTime).allowed =
      allowed → (c.visit en v).gates = c.gates ++ [(v.gateTime, allowed)] →
      (c.visit en v).bucket tenant endpointId =
        some (decision rate (c.bucket tenant endpointId) v.gateTime).bucket →
      Drawn tenant endpointId rate b (c.visit en v) := by
    intro allowed ha hvisit hsome
    refine ⟨ts ++ [v.gateTime], ?_, ?_⟩
    · rw [hvisit, hgates, draws_concat, ← ha, hallowed, hbucket]
    · rw [hsome, hnext, after_concat, hbucket]
  cases hg' with
  | gone hgone hleft =>
    refine ⟨ts, ?_, ?_⟩
    · simp only [Course.visit, hpass, hgone, List.append_nil]
      exact hgates
    · rw [hleft]
      exact hbucket
  | throttled hthrottled hfalse hleft =>
    refine hdraw false hfalse ?_ hleft
    simp only [Course.visit, hpass, hthrottled]
  | passed hpassed htrue hleft =>
    refine hdraw true htrue ?_ hleft
    rcases hpassed with hblocked | ⟨ep, circuit, hadmitted⟩
    · simp only [Course.visit, hpass, hblocked]
    · simp only [Course.visit, hpass, hadmitted]

theorem Drawn.visits {b : Bucket ℚ} (h : Drawn tenant endpointId rate b c) (hrate : 0 < rate)
    {visits : List (Visit tenant endpointId)}
    (hlimit : Along (Course.visit en) (LimitIs rate) c visits) :
    Drawn tenant endpointId rate b (visits.foldl (Course.visit en) c) := by
  induction visits generalizing c with
  | nil => exact h
  | cons v visits ih => exact ih (h.visit hrate hlimit.1) hlimit.2

/-- **The rate limit.** Over any sequence of calls for an endpoint that is limited to `rate`
whenever a call finds it, with gate times that do not go back, from no bucket or any bucket
within bounds: no window of gate times lets more calls through than the capacity and what
flows in, and the stored tokens stay within bounds. -/
theorem rate_limit_window (en : Engine) (tenant endpointId : String) (rate : ℚ) (hrate : 0 < rate)
    (w : World)
    (hstart : ∀ b, w.store.getRateBucket tenant endpointId = some b →
      0 ≤ b.tokens ∧ b.tokens ≤ max 1 rate)
    (visits : List (Visit tenant endpointId))
    (hlimit : Along (Course.visit en) (LimitIs rate) (Course.begin w) visits)
    (hclock : ((visits.foldl (Course.visit en) (Course.begin w)).gates.map Prod.fst).Pairwise
      (· ≤ ·)) :
    (∀ t1 t2, t1 ≤ t2 →
      (grants t1 t2 (visits.foldl (Course.visit en) (Course.begin w)).gates : ℚ) ≤
        max 1 rate + rate * (t2 - t1) / 1000) ∧
    ∀ b, (visits.foldl (Course.visit en) (Course.begin w)).world.store.getRateBucket tenant
        endpointId = some b → 0 ≤ b.tokens ∧ b.tokens ≤ max 1 rate := by
  have hcap : 0 ≤ capacityFor rate := capacityFor_nonneg rate
  have hflow : 0 ≤ rate / 1000 := by positivity
  have hwithin : Within (capacityFor rate)
      (bucketOf rate (w.store.getRateBucket tenant endpointId)) := by
    cases hb : w.store.getRateBucket tenant endpointId with
    | none => exact ⟨hcap, le_rfl⟩
    | some b => exact ⟨(hstart b hb).1, (hstart b hb).2⟩
  have hbegin : Drawn tenant endpointId rate
      (bucketOf rate (w.store.getRateBucket tenant endpointId)) (Course.begin w) :=
    ⟨[], rfl, rfl⟩
  obtain ⟨ts, hgates, hbucket⟩ := hbegin.visits hrate hlimit
  refine ⟨fun t1 t2 hw => ?_, fun b hb => ?_⟩
  · rw [hgates, draws_times] at hclock
    rw [hgates]
    calc (grants t1 t2 (draws (capacityFor rate) (rate / 1000)
            (bucketOf rate (w.store.getRateBucket tenant endpointId)) ts) : ℚ)
        ≤ capacityFor rate + rate / 1000 * (t2 - t1) := grants_window hcap hflow hwithin hw hclock
      _ = max 1 rate + rate * (t2 - t1) / 1000 := by rw [capacityFor]; ring
  · have hlast := hwithin.after hcap hflow ts
    rw [← hbucket, Course.bucket, hb] at hlast
    exact ⟨hlast.empty, hlast.full⟩

end Calls

/-- One delivery a second. -/
def slowEndpoint : World where
  store := MemoryStateStore.empty.createEndpoint { anyEvent with rateLimit := some 1 } "ep_1"
    "whsec_1" 0
  queue := []
  pending := []
  posts := []

def visitAt (messageId : String) (now : Time) : Visit "acme" "ep_1" where
  changes := []
  job := { lang := .ts, message := messageFor messageId }
  target := rfl
  answers := fun _ => answering now (.response 200 "" none)

/-- Of three calls within a second, the first and the one a second later pass. -/
theorem slow_endpoint_window :
    ([visitAt "msg_a" 0, visitAt "msg_b" 1, visitAt "msg_c" 1000].foldl
        (Course.visit (plainEngine 5)) (Course.begin slowEndpoint)).gates =
      [(0, true), (1, false), (1000, true)] ∧
    (grants 0 1000 ([visitAt "msg_a" 0, visitAt "msg_b" 1, visitAt "msg_c" 1000].foldl
        (Course.visit (plainEngine 5)) (Course.begin slowEndpoint)).gates : ℚ) ≤
      max 1 1 + 1 * (1000 - 0) / 1000 := by
  have hgates : ([visitAt "msg_a" 0, visitAt "msg_b" 1, visitAt "msg_c" 1000].foldl
      (Course.visit (plainEngine 5)) (Course.begin slowEndpoint)).gates =
        [(0, true), (1, false), (1000, true)] := by decide +kernel
  have hlimit : ∀ (c : Course) (v : Visit "acme" "ep_1"),
      (c.world.changed v.changes).store.getEndpoint "acme" "ep_1" =
        slowEndpoint.store.getEndpoint "acme" "ep_1" → LimitIs 1 c v := by
    intro c v hsame ep hep
    rw [hsame] at hep
    revert hep
    generalize hx : slowEndpoint.store.getEndpoint "acme" "ep_1" = x
    have hr : (slowEndpoint.store.getEndpoint "acme" "ep_1").map Endpoint.rateLimit =
        some (some 1) := by decide +kernel
    intro hep
    rw [hx, hep] at hr
    exact Option.some.inj hr
  refine ⟨hgates, (rate_limit_window (plainEngine 5) "acme" "ep_1" 1 one_pos slowEndpoint ?_ _ ?_
    ?_).1 0 1000 (by norm_num)⟩
  · intro b hb
    have hnone : slowEndpoint.store.getRateBucket "acme" "ep_1" = none := by decide +kernel
    rw [hnone] at hb
    cases hb
  · refine ⟨hlimit _ _ ?_, hlimit _ _ ?_, hlimit _ _ ?_, trivial⟩
    · rfl
    · decide +kernel
    · decide +kernel
  · rw [hgates]
    decide +kernel

end Anyhook.RateLimit
