import Anyhook.RateLimit.Window
import Mathlib.Data.Fintype.Prod

/-! Rate-limit gates for one endpoint that run at the same time, their reads and writes of
the bucket interleaved. The write is a plain put, so a gate that was slow puts back what it
read less one token, and with it every token spent since. The excess over gates that run
one after another is one grant for each overtaken put as long as no put finds the bucket
more than one token below what its gate had read. -/
namespace Anyhook.RateLimit
open Anyhook.Core Anyhook.Testing Anyhook.Delivery Anyhook.Lib.Program Anyhook.Lib.Interleave
open Anyhook.Lib.TokenBucket

/-- Gates for messages of one limited endpoint, all at the clock time `now`. -/
structure Gates (ι : Type) where
  dialect : Dialect
  message : ι → Message
  endpoint : Endpoint
  target : ∀ i, (message i).target = (endpoint.tenant, endpoint.endpointId)
  rate : ℚ
  limited : endpoint.rateLimit = some rate
  pos : 0 < rate
  now : Time

/-- How far a gate has come. -/
inductive Held where
  | begun
  | timed (now : Time)
  /-- It has read the bucket, and will put it back less its token. -/
  | read (now : Time) (stored : Option RateBucket)
  | granted
  | refused
  deriving DecidableEq

def Held.after (rate : ℚ) : Held → Held
  | .read now stored => if (decision rate stored now).allowed then .granted else .refused
  | h => h

def gateMonitor (rate : ℚ) (target : String × String) : Monitor Op Res Held where
  allows h
    | .now => h = .begun
    | .getRateBucket t e => (t, e) = target ∧ ∃ now, h = .timed now
    | .putRateBucket t e b => (t, e) = target ∧
        ∃ now stored, h = .read now stored ∧ b = (decision rate stored now).bucket
    | .putMessage _ | .scheduleRetry .. => h = .refused
    | _ => False
  next h
    | .now, t => .timed t
    | .getRateBucket .., stored => match h with
      | .timed now => .read now stored
      | h => h
    | .putRateBucket .., _ => h.after rate
    | _, _ => h

/-- A gate returns whether it throttled its message. -/
def gateDone (h : Held) (throttled : Bool) : Prop :=
  h = if throttled then .refused else .granted

theorem rateLimitGate_obeys {d : Dialect} {m : Message} {ep : Endpoint} {rate : ℚ}
    (hlimit : ep.rateLimit = some rate) (hrate : 0 < rate) :
    Obeys (gateMonitor rate m.target) gateDone .begun (rateLimitGate d m ep) := by
  unfold rateLimitGate
  simp only [hlimit, if_pos (show rate > 0 from hrate)]
  refine obeys_perform_bind.mpr ⟨rfl, fun now => ?_⟩
  refine obeys_perform_bind.mpr ⟨⟨rfl, now, rfl⟩, fun stored => ?_⟩
  refine obeys_perform_bind.mpr ⟨⟨rfl, now, stored, rfl, rfl⟩, fun _ => ?_⟩
  cases hallowed : (decision rate stored now).allowed with
  | true =>
    have hafter : Held.after rate (.read now stored) = .granted := by simp [Held.after, hallowed]
    rw [decision] at hallowed
    rw [if_pos hallowed]
    exact hafter
  | false =>
    have hafter : Held.after rate (.read now stored) = .refused := by simp [Held.after, hallowed]
    rw [decision] at hallowed
    rw [if_neg (by simp [hallowed])]
    refine obeys_perform_bind.mpr ⟨hafter, fun _ => ?_⟩
    exact obeys_perform_bind.mpr ⟨hafter, fun _ => hafter⟩

abbrev GateConf (ι : Type) := Conf Op Res String Bool World ι Held

section Pool
variable {ι : Type} (g : Gates ι)

/-- Nothing fails; every reading of the clock is `now`. -/
def Gates.system : System Op Res String World Unit ι Held where
  exec i _ op w :=
    (.ok (exec (some (g.message i)) (answering g.now .network) op w).1,
      (exec (some (g.message i)) (answering g.now .network) op w).2)
  monitor := gateMonitor g.rate (g.endpoint.tenant, g.endpoint.endpointId)

def Gates.start (w : World) : GateConf ι where
  shared := w
  rest i := rateLimitGate g.dialect (g.message i) g.endpoint
  view _ := .begun

def Gates.bucket (w : World) : Option RateBucket :=
  w.store.getRateBucket g.endpoint.tenant g.endpoint.endpointId

/-- The tokens a gate would find in a stored bucket. -/
def Gates.level (stored : Option RateBucket) : ℚ :=
  refilled (capacityFor g.rate) (g.rate / 1000) (bucketOf g.rate stored) g.now

/-- The gate has read, so its next step is the put; the bucket is no longer the one it read. -/
def Gates.overtaken (c : GateConf ι) (e : ι × Unit) : Bool :=
  match c.view e.1 with
  | .read _ stored => g.bucket c.shared ≠ stored
  | _ => false

/-- A put that takes a token finds the bucket at most one token below what its gate read. -/
def Gates.Close (c : GateConf ι) (e : ι × Unit) : Prop :=
  ∀ now stored, c.view e.1 = .read now stored → (decision g.rate stored now).allowed = true →
    g.level stored - 1 ≤ g.level (g.bucket c.shared)

instance (c : GateConf ι) (e : ι × Unit) : Decidable (g.Close c e) :=
  match hv : c.view e.1 with
  | .read now stored => decidable_of_iff ((decision g.rate stored now).allowed = true →
      g.level stored - 1 ≤ g.level (g.bucket c.shared)) (by simp [Gates.Close, hv])
  | .begun | .timed _ | .granted | .refused => .isTrue (by simp [Gates.Close, hv])

variable [DecidableEq ι]

/-- How many puts of a run overwrite a bucket other than the one their gate had read. -/
def Gates.overwrites (w : World) (es : List (ι × Unit)) : Nat :=
  g.system.noted (fun n c e => if g.overtaken c e then n + 1 else n) 0 (g.start w) es

/-- The gates that let their message through. -/
def Gates.grantedIn [Fintype ι] (w : World) (es : List (ι × Unit)) : Nat :=
  (Finset.univ.filter fun i => ((g.system.run (g.start w) es).rest i).result? = some false).card

end Pool

/-- The grants of `n` gates that run one after another. -/
def serialGrants (rate : ℚ) (now : Time) : Nat → Option RateBucket → Nat
  | 0, _ => 0
  | n + 1, stored =>
    (if (decision rate stored now).allowed then 1 else 0) +
      serialGrants rate now n (some (decision rate stored now).bucket)

/-! ## Whole tokens -/

section Tokens
variable {ι : Type} {g : Gates ι}

theorem Gates.allowed_iff (stored : Option RateBucket) :
    (decision g.rate stored g.now).allowed = true ↔ 1 ≤ g.level stored := by
  rw [(decision_drawn g.pos.le stored g.now).1]
  simp [granted, Gates.level]

/-- What a put leaves for the next gate. -/
theorem Gates.level_put (stored : Option RateBucket) :
    g.level (some (decision g.rate stored g.now).bucket) =
      g.level stored - if (decision g.rate stored g.now).allowed = true then 1 else 0 := by
  unfold Gates.level
  rw [(decision_drawn g.pos.le stored g.now).2, refilled_drawn, drawn_level,
    (decision_drawn g.pos.le stored g.now).1]

/-- One gate after another takes a token as long as there is a whole one. -/
theorem Gates.serialGrants_eq (n : Nat) (stored : Option RateBucket) :
    serialGrants g.rate g.now n stored = min n ⌊g.level stored⌋₊ := by
  induction n generalizing stored with
  | zero => simp [serialGrants]
  | succ n ih =>
    rw [serialGrants, ih, g.level_put]
    by_cases h : (decision g.rate stored g.now).allowed = true
    · have hone : 1 ≤ ⌊g.level stored⌋₊ := Nat.le_floor (by simpa using g.allowed_iff stored |>.mp h)
      rw [if_pos h, if_pos h, Nat.floor_sub_one]
      omega
    · have hnone : ⌊g.level stored⌋₊ = 0 :=
        Nat.floor_eq_zero.mpr (not_le.mp fun hl => h ((g.allowed_iff stored).mpr hl))
      rw [if_neg h, if_neg h, sub_zero, hnone]
      simp

end Tokens

/-! ## The interleaved run -/

section Run
variable {ι : Type} {g : Gates ι} {w : World}

theorem Gates.bucket_exec (g : Gates ι) (i : ι) (op : Op) (w : World) :
    g.bucket (exec (some (g.message i)) (answering g.now .network) op w).2 = match op with
      | .putRateBucket t e b =>
        if (t, e) = (g.endpoint.tenant, g.endpoint.endpointId) then some b else g.bucket w
      | _ => g.bucket w :=
  exec_getRateBucket _ _ op w _ _

variable [Fintype ι]

def grantedViews (c : GateConf ι) : Nat := (Finset.univ.filter fun i => c.view i = .granted).card

/-- Grants and whole tokens left, against the tokens of the start and the overtaken puts. -/
structure Budget (g : Gates ι) (w : World) (n : Nat) (c : GateConf ι) : Prop where
  obeyed : g.system.Obeyed gateDone c
  clock : ∀ i now, (c.view i = .timed now ∨ ∃ stored, c.view i = .read now stored) → now = g.now
  tokens : grantedViews c + ⌊g.level (g.bucket c.shared)⌋₊ ≤ ⌊g.level (g.bucket w)⌋₊ + n

theorem budget_start (g : Gates ι) (w : World) : Budget g w 0 (g.start w) where
  obeyed i := by
    have h := rateLimitGate_obeys (d := g.dialect) (m := g.message i) g.limited g.pos
    rw [g.target i] at h
    exact h
  clock i now h := by
    rcases h with h | ⟨stored, h⟩ <;> cases h
  tokens := by
    have hnone : grantedViews (g.start w) = 0 :=
      Finset.card_eq_zero.mpr (Finset.filter_eq_empty_iff.mpr fun i _ h => by cases h)
    rw [hnone, zero_add]
    exact le_rfl

variable [DecidableEq ι]

/-- A gate that moves to another view adds at most itself to the grants. -/
theorem grantedViews_update {c c' : GateConf ι} {i : ι} {h : Held}
    (hview : c'.view = Function.update c.view i h) :
    grantedViews c' ≤ grantedViews c + if h = .granted then 1 else 0 := by
  unfold grantedViews
  by_cases hg : h = .granted
  · rw [if_pos hg]
    refine (Finset.card_le_card ?_).trans (Finset.card_insert_le i _)
    intro j hj
    by_cases hji : j = i
    · simp [hji]
    · have hj' := (Finset.mem_filter.mp hj).2
      rw [hview, Function.update_of_ne hji] at hj'
      simp [hj']
  · rw [if_neg hg, add_zero]
    refine Finset.card_le_card fun j hj => ?_
    have hj' := (Finset.mem_filter.mp hj).2
    rw [hview] at hj'
    by_cases hji : j = i
    · subst hji
      rw [Function.update_self] at hj'
      exact absurd hj' hg
    · rw [Function.update_of_ne hji] at hj'
      simp [hj']

/-- A step that moves one gate and leaves the bucket alone. -/
theorem Budget.idle {n : Nat} {c c' : GateConf ι} (h : Budget g w n c)
    (hobeyed : g.system.Obeyed gateDone c') {i : ι} {held : Held}
    (hview : c'.view = Function.update c.view i held) (hgranted : held ≠ .granted)
    (hclock : ∀ now, (held = .timed now ∨ ∃ stored, held = .read now stored) → now = g.now)
    (hbucket : g.bucket c'.shared = g.bucket c.shared) : Budget g w n c' := by
  refine ⟨hobeyed, fun j now hj => ?_, ?_⟩
  · rw [hview] at hj
    by_cases hji : j = i
    · subst hji
      rw [Function.update_self] at hj
      exact hclock now hj
    · rw [Function.update_of_ne hji] at hj
      exact h.clock j now hj
  · have hle := grantedViews_update hview
    rw [if_neg hgranted, add_zero] at hle
    rw [hbucket]
    have := h.tokens
    omega

/-- The put of a gate. -/
theorem Budget.put {n : Nat} {c c' : GateConf ι} (h : Budget g w n c)
    (hobeyed : g.system.Obeyed gateDone c') {i : ι} {stored : Option RateBucket}
    (hread : c.view i = .read g.now stored)
    (hview : c'.view = Function.update c.view i (Held.after g.rate (.read g.now stored)))
    (hbucket : g.bucket c'.shared = some (decision g.rate stored g.now).bucket)
    (hclose : g.Close c (i, ())) :
    Budget g w (if g.overtaken c (i, ()) then n + 1 else n) c' := by
  have hafter : Held.after g.rate (.read g.now stored) =
      if (decision g.rate stored g.now).allowed = true then .granted else .refused := rfl
  refine ⟨hobeyed, fun j now hj => ?_, ?_⟩
  · rw [hview] at hj
    by_cases hji : j = i
    · subst hji
      rw [Function.update_self, hafter] at hj
      split at hj <;> rcases hj with hj | ⟨_, hj⟩ <;> cases hj
    · rw [Function.update_of_ne hji] at hj
      exact h.clock j now hj
  · have hle := grantedViews_update hview
    have htokens := h.tokens
    have hover : g.overtaken c (i, ()) = (g.bucket c.shared ≠ stored : Bool) := by
      simp only [Gates.overtaken, hread]
    rw [hbucket, g.level_put]
    rw [hafter] at hle
    by_cases hallowed : (decision g.rate stored g.now).allowed = true
    · rw [if_pos hallowed, if_pos rfl] at hle
      rw [if_pos hallowed, Nat.floor_sub_one]
      have hone : 1 ≤ ⌊g.level stored⌋₊ :=
        Nat.le_floor (by simpa using (g.allowed_iff stored).mp hallowed)
      by_cases hsame : g.bucket c.shared = stored
      · rw [hsame] at htokens
        have hfresh : g.overtaken c (i, ()) = false := by simp [hover, hsame]
        rw [hfresh]
        simp only [Bool.false_eq_true, if_false]
        omega
      · have hstale : g.overtaken c (i, ()) = true := by simp [hover, hsame]
        have hnear : ⌊g.level stored - 1⌋₊ ≤ ⌊g.level (g.bucket c.shared)⌋₊ :=
          Nat.floor_mono (hclose g.now stored hread hallowed)
        rw [Nat.floor_sub_one] at hnear
        rw [hstale]
        simp only [if_true]
        omega
    · rw [if_neg hallowed, if_neg (by simp)] at hle
      have hnone : ⌊g.level stored⌋₊ = 0 :=
        Nat.floor_eq_zero.mpr (not_le.mp fun hl => hallowed ((g.allowed_iff stored).mpr hl))
      rw [if_neg hallowed, sub_zero, hnone]
      split <;> omega

theorem Budget.step {n : Nat} {c : GateConf ι} (h : Budget g w n c) (e : ι × Unit)
    (hclose : g.Close c e) :
    Budget g w (if g.overtaken c e then n + 1 else n) (g.system.step c e) := by
  obtain ⟨i, u⟩ := e
  have hobeyed := h.obeyed.step (e := (i, u))
  -- Noting an overtaken put only widens the budget.
  have hwiden : ∀ {c' : GateConf ι}, Budget g w n c' →
      Budget g w (if g.overtaken c (i, u) then n + 1 else n) c' := by
    intro c' h'
    refine ⟨h'.obeyed, h'.clock, h'.tokens.trans ?_⟩
    split <;> omega
  obtain ⟨hs, -⟩ | ⟨op, k, hc, ⟨r, s, hx, hs⟩ | ⟨x, s, hx, -⟩⟩ := g.system.step_cases c i u
  · rw [hs]
    exact hwiden h
  · have hallows := h.obeyed.allows hc
    obtain ⟨hr, rfl⟩ := Prod.mk.inj hx
    have hview : (g.system.step c (i, u)).view =
        Function.update c.view i (g.system.monitor.next (c.view i) op r) := by rw [hs]
    have hbucket := g.bucket_exec i op c.shared
    have hshared : (g.system.step c (i, u)).shared =
        (exec (some (g.message i)) (answering g.now .network) op c.shared).2 := by rw [hs]
    rw [← hshared] at hbucket
    cases op with
    | now =>
      have hnow : r = g.now := (Except.ok.inj hr).symm
      refine hwiden (h.idle hobeyed hview nofun ?_ hbucket)
      intro now hn
      rcases hn with hn | ⟨stored, hn⟩
      · exact (Held.timed.inj hn).symm.trans hnow
      · cases hn
    | getRateBucket t e =>
      obtain ⟨-, now, hn⟩ := hallows
      have hnext : g.system.monitor.next (c.view i) (.getRateBucket t e) r = .read now r := by
        rw [hn]; rfl
      rw [hnext] at hview
      refine hwiden (h.idle hobeyed hview nofun ?_ hbucket)
      intro now' hn'
      rcases hn' with hn' | ⟨stored, hn'⟩
      · cases hn'
      · rw [← (Held.read.inj hn').1]
        exact h.clock i now (.inl hn)
    | putRateBucket t e b =>
      obtain ⟨htarget, now, stored, hread, rfl⟩ := hallows
      obtain rfl : now = g.now := h.clock i now (.inr ⟨stored, hread⟩)
      have hnext : g.system.monitor.next (c.view i) (.putRateBucket t e _) r =
          Held.after g.rate (.read g.now stored) := by rw [hread]; rfl
      rw [hnext] at hview
      exact h.put hobeyed hread hview (hbucket.trans (if_pos htarget)) hclose
    | putMessage m =>
      have hrefused : c.view i = .refused := hallows
      refine hwiden (h.idle hobeyed hview ?_ ?_ hbucket)
      · rw [hrefused]; nofun
      · rw [hrefused]
        intro now hn
        rcases hn with hn | ⟨stored, hn⟩ <;> cases hn
    | scheduleRetry m t =>
      have hrefused : c.view i = .refused := hallows
      refine hwiden (h.idle hobeyed hview ?_ ?_ hbucket)
      · rw [hrefused]; nofun
      · rw [hrefused]
        intro now hn
        rcases hn with hn | ⟨stored, hn⟩ <;> cases hn
    | _ => exact absurd hallows id
  · cases hx

/-- **Overtaken puts.** Where no put that takes a token finds the bucket more than one token
below what its gate had read, the gates grant no more than gates that run one after another,
and one for each put that overwrote another bucket than its gate had read. -/
theorem overtaken_put_costs_one (g : Gates ι) (w : World) (es : List (ι × Unit))
    (hclose : g.system.Along g.Close (g.start w) es) :
    g.grantedIn w es ≤
      serialGrants g.rate g.now (Fintype.card ι) (g.bucket w) + g.overwrites w es := by
  have hfin : Budget g w (g.overwrites w es) (g.system.run (g.start w) es) :=
    System.Along.noted_invariant (I := Budget g w) (fun n c e h hc => h.step e hc)
      (budget_start g w) hclose
  have hviews : g.grantedIn w es ≤ grantedViews (g.system.run (g.start w) es) := by
    refine Finset.card_le_card fun i hi => ?_
    have hresult := (Finset.mem_filter.mp hi).2
    have hobeys := hfin.obeyed i
    cases hrest : (g.system.run (g.start w) es).rest i with
    | pure a =>
      rw [hrest] at hresult hobeys
      obtain rfl : a = false := Option.some.inj hresult
      exact Finset.mem_filter.mpr ⟨Finset.mem_univ i, hobeys⟩
    | throw x => rw [hrest] at hresult; cases hresult
    | call op k => rw [hrest] at hresult; cases hresult
  have hall : g.grantedIn w es ≤ Fintype.card ι := Finset.card_le_univ _
  have htokens := hfin.tokens
  rw [g.serialGrants_eq]
  omega

end Run

/-! ## Four gates -/

/-- A gate for each message of an endpoint with two deliveries a second. -/
def twoASecond (ι : Type) : Gates ι where
  dialect := Core.dialect
  message _ := messageFor "msg_a"
  endpoint := {
    endpointId := "ep_1", tenant := "acme", url := "https://a/h", eventTypes := ["*"]
    description := none, disabled := false, rateLimit := some 2, createdAt := 0, secrets := [] }
  target _ := rfl
  rate := 2
  limited := rfl
  pos := two_pos
  now := 0

/-- A gate at its own pace: the clock, the bucket, the put. -/
def steps {ι : Type} (i : ι) (n : Nat) : List (ι × Unit) := List.replicate n (i, ())

/-- Both read the full bucket and take a token of it. -/
theorem side_by_side :
    (twoASecond Bool).overwrites World.empty (steps true 2 ++ steps false 3 ++ steps true 1) = 1 ∧
      (twoASecond Bool).grantedIn World.empty (steps true 2 ++ steps false 3 ++ steps true 1) ≤
        serialGrants 2 0 (Fintype.card Bool) ((twoASecond Bool).bucket World.empty) +
          (twoASecond Bool).overwrites World.empty
            (steps true 2 ++ steps false 3 ++ steps true 1) := by
  refine ⟨by decide +kernel, overtaken_put_costs_one (twoASecond Bool) World.empty _ ?_⟩
  decide +kernel

/-- The first gate reads the full bucket, the next two empty it, and the put of the first
restores a token that is gone; the last gate takes it. -/
def slowFirst : List ((Bool × Bool) × Unit) :=
  steps (true, true) 2 ++ steps (true, false) 3 ++ steps (false, true) 3 ++ steps (true, true) 1 ++
    steps (false, false) 3

theorem slow_put_restores_tokens :
    let g := twoASecond (Bool × Bool)
    g.overwrites World.empty slowFirst = 1 ∧ g.grantedIn World.empty slowFirst = 4 ∧
      ¬ g.grantedIn World.empty slowFirst ≤
        serialGrants g.rate g.now (Fintype.card (Bool × Bool)) (g.bucket World.empty) +
          g.overwrites World.empty slowFirst := by
  refine ⟨?_, ?_, ?_⟩
  · decide +kernel
  · decide +kernel
  · decide +kernel

end Anyhook.RateLimit
