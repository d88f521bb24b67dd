import Anyhook.RateLimit.Polls
import Anyhook.Testing.Harness

/-! The wait of a throttled message in Go. `ConsumeToken` returns it as an int64, and a wait
beyond that turns into one in the past: the message would be due again at once. Where no
endpoint's limit is so low and no bucket in debt, no call of the handler brings that about. -/
namespace Anyhook.Delivery
open Anyhook.Core Anyhook.Testing Anyhook.RateLimit Anyhook.Lib.Program Anyhook.Lib.OrderedMap

/-- The limit on a message's endpoint, if it has one. -/
def rateOf (store : MemoryStateStore) (m : Message) : Option ℚ :=
  ((store.getEndpoint m.tenant m.endpointId).bind Endpoint.rateLimit).filter fun rate => 0 < rate

/-- The wait at every gate over the store is one of an int64. -/
structure WaitsFit (store : MemoryStateStore) : Prop where
  rates : ∀ t e ep rate, store.getEndpoint t e = some ep → ep.rateLimit = some rate → 0 < rate →
    1000 / rate ≤ 2 ^ 63 - 1
  tokens : ∀ t e b, store.getRateBucket t e = some b → 0 ≤ b.tokens

theorem waitsFit_empty : WaitsFit .empty where
  rates _ _ _ _ hep := by cases hep
  tokens _ _ _ hb := by cases hb

/-- A limit that is not too low may be set. -/
theorem WaitsFit.createEndpoint {store : MemoryStateStore} (h : WaitsFit store)
    {e : MemoryStateStore.CreateInput} {endpointId secret : String} {now : Time}
    (hrate : ∀ rate, e.rateLimit = some rate → 0 < rate → 1000 / rate ≤ 2 ^ 63 - 1) :
    WaitsFit (store.createEndpoint e endpointId secret now) where
  rates t i ep rate hep hlimit hpos := by
    unfold MemoryStateStore.getEndpoint MemoryStateStore.createEndpoint at hep
    rw [modify_tenants] at hep
    split at hep
    · have hget : ((store.tenants t).endpoints.toOMap.set endpointId
          (e.endpoint endpointId secret now)).get i = some ep := hep
      rw [OMap.get_set] at hget
      split at hget
      · obtain rfl := Option.some.inj hget
        exact hrate rate hlimit hpos
      · exact h.rates t i ep rate hget hlimit hpos
    · exact h.rates t i ep rate hep hlimit hpos
  tokens t i b hb := by
    refine h.tokens t i b (Eq.trans ?_ hb)
    unfold MemoryStateStore.getRateBucket MemoryStateStore.createEndpoint
    rw [modify_tenants]
    split <;> rfl

/-- The waits fit where they have to, in Go. -/
def Fits (lang : Lang) (r : Runtime) : Prop := lang = .go → WaitsFit r.world.store

/-! ## One decision -/

section Decision
variable {rate : ℚ} {stored : Option RateBucket} {now : Time}

theorem decision_tokens_nonneg (hrate : 0 ≤ rate) (hstored : ∀ b, stored = some b → 0 ≤ b.tokens) :
    0 ≤ (decision rate stored now).bucket.tokens := by
  have hbefore : 0 ≤ (stored.getD (initialBucket rate now)).tokens := by
    cases stored with
    | none => exact capacityFor_nonneg rate
    | some b => exact hstored b rfl
  have htokens : 0 ≤ min (capacityFor rate) ((stored.getD (initialBucket rate now)).tokens +
      max 0 ((now - (stored.getD (initialBucket rate now)).lastRefillMs) / 1000) * rate) :=
    le_min (capacityFor_nonneg rate) (add_nonneg hbefore (mul_nonneg (le_max_left 0 _) hrate))
  unfold decision consumeToken
  dsimp only
  split
  · rename_i hone
    exact sub_nonneg.mpr hone
  · exact htokens

/-- A wait that fits is the same in an int64. -/
theorem toInt64_wait (hrate : 0 < rate) (hfits : 1000 / rate ≤ 2 ^ 63 - 1)
    (hstored : ∀ b, stored = some b → 0 ≤ b.tokens)
    (hrefused : (decision rate stored now).allowed = false) :
    (Go.toInt64 (decision rate stored now).retryAfterMs : ℚ) =
      (decision rate stored now).retryAfterMs := by
  obtain ⟨hless, -, hwait⟩ := refusal hrefused
  have hwait' : (decision rate stored now).retryAfterMs =
      ⌈(1 - (decision rate stored now).bucket.tokens) / rate * 1000⌉ := hwait
  have htokens : 0 ≤ (decision rate stored now).bucket.tokens :=
    decision_tokens_nonneg hrate.le hstored
  have hless' : (decision rate stored now).bucket.tokens < 1 := hless
  have hlow : 0 ≤ (1 - (decision rate stored now).bucket.tokens) / rate * 1000 := by
    have hmissing : 0 ≤ 1 - (decision rate stored now).bucket.tokens := by linarith
    positivity
  have hhigh : (1 - (decision rate stored now).bucket.tokens) / rate * 1000 ≤ 2 ^ 63 - 1 := by
    refine le_trans ?_ hfits
    rw [div_mul_eq_mul_div]
    exact div_le_div_of_nonneg_right (by linarith) hrate.le
  have hceil : ⌈(1 - (decision rate stored now).bucket.tokens) / rate * 1000⌉ ≤ 2 ^ 63 - 1 :=
    Int.ceil_le.mpr (by exact_mod_cast hhigh)
  have hnonneg : 0 ≤ ⌈(1 - (decision rate stored now).bucket.tokens) / rate * 1000⌉ :=
    Int.ceil_nonneg hlow
  rw [hwait']
  generalize ⌈(1 - (decision rate stored now).bucket.tokens) / rate * 1000⌉ = wait at hceil hnonneg
  have hsmall : |(wait : ℚ)| < 2 ^ 63 := by
    rw [abs_of_nonneg (by exact_mod_cast hnonneg)]
    exact_mod_cast (by omega : wait < 2 ^ 63)
  rw [Go.toInt64_eq hsmall, roundToZero_intCast]

end Decision

/-- Where the waits fit, the handler takes the wait of a refusal as it is. -/
theorem throttleWait_eq {lang : Lang} {r : Runtime} {m : Message} {rate : ℚ}
    {now : Time} (hfits : Fits lang r) (hrate : rateOf r.world.store m = some rate)
    (hrefused : (decision rate (r.world.store.getRateBucket m.tenant m.endpointId) now).allowed =
      false) :
    lang.handling.throttleWait
        (decision rate (r.world.store.getRateBucket m.tenant m.endpointId) now).retryAfterMs =
      (decision rate (r.world.store.getRateBucket m.tenant m.endpointId) now).retryAfterMs := by
  cases lang with
  | ts => rfl
  | go =>
    obtain ⟨hlimit, hpos⟩ := Option.filter_eq_some_iff.mp hrate
    obtain ⟨ep, hep, hlimit⟩ := Option.bind_eq_some_iff.mp hlimit
    have hpos' : 0 < rate := of_decide_eq_true hpos
    exact toInt64_wait hpos' ((hfits rfl).rates _ _ ep rate hep hlimit hpos')
      ((hfits rfl).tokens _ _) hrefused

/-! ## One call of the handler -/

/-- The monitor remembers the bucket that was read; what is put is not in debt if that was not. -/
def debtMonitor : Monitor Op Res (Option RateBucket) where
  allows stored
    | .putRateBucket _ _ b => (∀ x, stored = some x → 0 ≤ x.tokens) → 0 ≤ b.tokens
    | _ => True
  next stored
    | .getRateBucket .., found => found
    | _, _ => stored

section Handler
variable {d : Dialect} {en : Engine} {m : Message}

theorem debt_of_only {α : Type} {p : Eng α} (hp : Prog.Only NoBucket p)
    (stored : Option RateBucket) : Obeys debtMonitor (fun _ _ => True) stored p := by
  induction p generalizing stored with
  | pure a => trivial
  | throw e => trivial
  | call op k ih =>
    refine ⟨?_, fun r => ih r (hp.2 r) _⟩
    cases op with
    | putRateBucket t e b => exact absurd hp.1 id
    | _ => trivial

theorem rateLimitGate_debt (ep : Endpoint) (stored : Option RateBucket) :
    Obeys debtMonitor (fun _ _ => True) stored (rateLimitGate d m ep) := by
  unfold rateLimitGate
  cases ep.rateLimit with
  | none => trivial
  | some rate =>
    dsimp only
    split
    · rename_i hpos
      refine obeys_perform_bind.mpr ⟨trivial, fun now => obeys_perform_bind.mpr
        ⟨trivial, fun found => obeys_perform_bind.mpr ⟨?_, fun _ => ?_⟩⟩⟩
      · exact fun hfound => decision_tokens_nonneg (le_of_lt hpos) hfound
      · refine debt_of_only ?_ _
        split
        · trivial
        · exact Prog.only_call trivial fun _ => Prog.only_call trivial fun _ => trivial
    · trivial

theorem process_debt : Obeys debtMonitor (fun _ _ => True) none (processWith d en m) := by
  have honly : Prog.Only NoBucket (afterGates d en m .gone) := afterGates_only .gone
  have hgone : ∀ stored, Obeys debtMonitor (fun _ _ => True) stored (endpointGone m) :=
    fun stored => debt_of_only honly stored
  refine obeys_perform_bind.mpr ⟨trivial, fun endpoint => ?_⟩
  cases endpoint with
  | none => exact hgone _
  | some ep =>
    dsimp only
    split
    · exact hgone _
    · rw [obeys_bind]
      refine (rateLimitGate_debt ep _).mono fun stored throttled _ => ?_
      cases throttled with
      | true => trivial
      | false =>
        refine debt_of_only (Prog.only_bind circuitGate_only fun circuit => ?_) _
        cases circuit with
        | none => trivial
        | some circuit => exact attemptDelivery_only ep circuit

variable {lang : Lang} {env : Nat → Answer} {r : Runtime}

/-- **A call of the handler leaves waits that fit.** -/
theorem handle_waitsFit (h : WaitsFit r.world.store) :
    WaitsFit (r.handle lang en env m).2.world.store := by
  have hdebt : Obeys debtMonitor (fun _ _ => True) none (processWith lang.handling en m) :=
    process_debt
  have hkept : ∃ stored : Option RateBucket,
      WaitsFit (r.handle lang en env m).2.world.store ∧ ∀ b, stored = some b → 0 ≤ b.tokens := by
    refine hdebt.run_kept (Runtime.exec env m)
      (I := fun stored s => WaitsFit s.world.store ∧ ∀ b, stored = some b → 0 ≤ b.tokens) ?_
      ⟨h, fun _ hb => by cases hb⟩
    intro stored op s hi hallowed
    obtain ⟨hs, hstored⟩ := hi
    have hendpoints := exec_getEndpoint (some m) (s.answer env) op s.world
    have hbuckets := exec_getRateBucket (some m) (s.answer env) op s.world
    refine ⟨_, rfl, ⟨fun t e ep rate hep => hs.rates t e ep rate ((hendpoints t e).symm.trans hep),
      fun t e b hb => ?_⟩, ?_⟩
    · have hleft := (hbuckets t e).symm.trans hb
      cases op with
      | putRateBucket t' e' b' =>
        dsimp only at hleft
        split at hleft
        · obtain rfl := Option.some.inj hleft
          exact hallowed hstored
        · exact hs.tokens t e b hleft
      | _ => exact hs.tokens t e b hleft
    · cases op with
      | getRateBucket t e => exact fun b hb => hs.tokens t e b hb
      | _ => exact hstored
  obtain ⟨_, hs, -⟩ := hkept
  exact hs

end Handler

end Anyhook.Delivery
