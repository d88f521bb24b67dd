import Anyhook.RateLimit.Window
import Mathlib.Algebra.Order.Group.MinMax

/-! Calls of `consumeToken` one after another, each over the bucket the one before it
returned. A refusal says to the millisecond when the next token is there, and calls made
before that change nothing. Calls by clocks that run apart are another matter: the bucket
takes over the time of every call, so what flows in between two times can be counted as
often as the clock goes back. -/
namespace Anyhook.RateLimit
open Anyhook.Core Anyhook.Lib.TokenBucket

/-- The decisions of a sequence of calls. -/
def consumeAll (rate : ℚ) : RateBucket → List Time → List RateDecision
  | _, [] => []
  | b, now :: rest =>
    consumeToken b rate now :: consumeAll rate (consumeToken b rate now).bucket rest

/-- The bucket that a sequence of calls leaves. -/
def leftOver (rate : ℚ) (b : RateBucket) (times : List Time) : RateBucket :=
  times.foldl (fun b now => (consumeToken b rate now).bucket) b

def grantsOf (rate : ℚ) (b : RateBucket) (times : List Time) : Nat :=
  (consumeAll rate b times).countP (·.allowed)

/-! ## The calls are draws -/

section Draws
variable {rate : ℚ} (hrate : 0 < rate)
include hrate

theorem consumeToken_drawn (b : RateBucket) (now : Time) :
    (consumeToken b rate now).allowed =
        granted (capacityFor rate) (rate / 1000) (bucketOf rate (some b)) now ∧
      bucketOf rate (some (consumeToken b rate now).bucket) =
        drawn (capacityFor rate) (rate / 1000) (bucketOf rate (some b)) now :=
  decision_drawn hrate.le (some b) now

theorem consumeAll_draws (b : RateBucket) (times : List Time) :
    (consumeAll rate b times).map (·.allowed) =
      (draws (capacityFor rate) (rate / 1000) (bucketOf rate (some b)) times).map (·.2) := by
  induction times generalizing b with
  | nil => rfl
  | cons now rest ih =>
    obtain ⟨hallowed, hbucket⟩ := consumeToken_drawn hrate b now
    rw [consumeAll, draws, List.map_cons, List.map_cons, ih, hallowed, hbucket]

theorem leftOver_after (b : RateBucket) (times : List Time) :
    bucketOf rate (some (leftOver rate b times)) =
      after (capacityFor rate) (rate / 1000) (bucketOf rate (some b)) times := by
  induction times generalizing b with
  | nil => rfl
  | cons now rest ih =>
    have hnext := ih (consumeToken b rate now).bucket
    rw [(consumeToken_drawn hrate b now).2] at hnext
    exact hnext

theorem grantsOf_draws (b : RateBucket) (times : List Time) :
    grantsOf rate b times =
      (draws (capacityFor rate) (rate / 1000) (bucketOf rate (some b)) times).countP (·.2) := by
  have hmap := congrArg (List.countP id) (consumeAll_draws hrate b times)
  rw [List.countP_map, List.countP_map] at hmap
  exact hmap

end Draws

/-! ## The wait -/

section Wait
variable {rate : ℚ} {b b' : RateBucket} {now : Time}

/-- A decision depends on the level it sees. -/
theorem consumeToken_congr (hrate : 0 < rate)
    (h : refilled (capacityFor rate) (rate / 1000) (bucketOf rate (some b)) now =
      refilled (capacityFor rate) (rate / 1000) (bucketOf rate (some b')) now) :
    consumeToken b rate now = consumeToken b' rate now := by
  have hb := refilled_eq hrate.le (some b) now
  have hb' := refilled_eq hrate.le (some b') now
  simp only [Option.getD_some] at hb hb'
  unfold consumeToken
  simp only [hb, hb', h]

/-- What a refusal leaves, and the wait it asks for. -/
theorem refusal (hrefused : (consumeToken b rate now).allowed = false) :
    (consumeToken b rate now).bucket.tokens < 1 ∧
      (consumeToken b rate now).bucket.lastRefillMs = now ∧
      (consumeToken b rate now).retryAfterMs =
        ⌈(1 - (consumeToken b rate now).bucket.tokens) / rate * 1000⌉ := by
  unfold consumeToken at hrefused ⊢
  dsimp only at hrefused ⊢
  split
  · rename_i h
    rw [if_pos h] at hrefused
    cases hrefused
  · rename_i h
    exact ⟨not_le.mp h, rfl, rfl⟩

/-- The bucket of a refusal is ready where its wait ends, to the millisecond. -/
theorem ready_refusal {z t : Int}
    (hrefused : (consumeToken b rate z).allowed = false) :
    ready (rate / 1000) (bucketOf rate (some (consumeToken b rate z).bucket)) ≤ t ↔
      z + ⌈(1 - (consumeToken b rate z).bucket.tokens) / rate * 1000⌉ ≤ t := by
  obtain ⟨-, hlast, -⟩ := refusal hrefused
  have hwait : ready (rate / 1000) (bucketOf rate (some (consumeToken b rate z).bucket)) =
      z + (1 - (consumeToken b rate z).bucket.tokens) / rate * 1000 := by
    simp only [ready, bucketOf, hlast]
    rw [div_div_eq_mul_div]
    ring
  rw [hwait, ← le_sub_iff_add_le', ← le_sub_iff_add_le', Int.ceil_le]
  push_cast
  exact Iff.rfl

/-- **The wait is exact and polling is harmless.** A refusal at `now` asks for a wait of a
positive whole number of milliseconds. Calls after it are refused until the wait is over and
the first one then is granted; it leaves the bucket that it leaves where none of the refused
calls was made. -/
theorem throttle_wait_exact (rate : ℚ) (hrate : 0 < rate) (b : RateBucket) (now : Int)
    (hnow : b.lastRefillMs ≤ now) (hrefused : (consumeToken b rate now).allowed = false) :
    ∃ w : Int, 0 < w ∧ (consumeToken b rate now).retryAfterMs = w ∧
      ∀ (early : List Int) (t : Int), (now :: (early ++ [t])).Pairwise (· ≤ ·) →
        (∀ u ∈ early, u < now + w) →
        (∀ d ∈ consumeAll rate (consumeToken b rate now).bucket (early.map Int.cast),
          d.allowed = false) ∧
        ((consumeToken (leftOver rate (consumeToken b rate now).bucket (early.map Int.cast)) rate
          t).allowed = true ↔ now + w ≤ t) ∧
        consumeToken (leftOver rate (consumeToken b rate now).bucket (early.map Int.cast)) rate t =
          consumeToken (consumeToken b rate now).bucket rate t ∧
        consumeToken (leftOver rate (consumeToken b rate now).bucket (early.map Int.cast)) rate t =
          consumeToken b rate t := by
  obtain ⟨hless, hlast, hwait⟩ := refusal hrefused
  have hcap : 1 ≤ capacityFor rate := le_max_left 1 rate
  have hflow : 0 < rate / 1000 := by positivity
  refine ⟨_, Int.ceil_pos.mpr (by positivity [sub_pos.mpr hless]), hwait, ?_⟩
  intro early t hsorted hearly
  have hbucket : (bucketOf rate (some (consumeToken b rate now).bucket)).last = now := hlast
  have hcast := hsorted.map (Int.cast : Int → ℚ) fun _ _ h => Int.cast_le.mpr h
  rw [List.map_cons, List.map_append, ← hbucket, ← List.cons_append] at hcast
  obtain ⟨hpolls, -, hle⟩ := List.pairwise_append.mp hcast
  obtain ⟨hnone, hready, hlook⟩ := early_draws hcap hflow hpolls fun u hu => by
    obtain ⟨z, hz, rfl⟩ := List.mem_map.mp hu
    exact not_le.mp fun hr => not_le.mpr (hearly z hz) ((ready_refusal hrefused).mp hr)
  obtain ⟨hbefore, hsame⟩ := hlook t fun u hu => hle u hu t (List.mem_singleton.mpr rfl)
  rw [← leftOver_after hrate] at hready hbefore hsame
  refine ⟨?_, ?_, consumeToken_congr hrate hsame, consumeToken_congr hrate (hsame.trans ?_)⟩
  · intro d hd
    have hmem := List.mem_map_of_mem (f := RateDecision.allowed) hd
    rw [consumeAll_draws hrate] at hmem
    obtain ⟨x, hx, heq⟩ := List.mem_map.mp hmem
    rw [← heq]
    exact hnone x hx
  · rw [(consumeToken_drawn hrate _ _).1, granted_iff_ready hcap hflow hbefore, hready]
    exact ready_refusal hrefused
  · -- The first refusal is a draw like the others.
    have hfirst : ¬ ready (rate / 1000) (bucketOf rate (some b)) ≤ now := by
      rw [← granted_iff_ready hcap hflow hnow, ← (consumeToken_drawn hrate b now).1, hrefused]
      decide
    have hnowt : (now : ℚ) ≤ t := hbucket ▸ hle _ List.mem_cons_self _ (List.mem_singleton.mpr rfl)
    rw [(consumeToken_drawn hrate b now).2]
    exact refilled_drawn_of_early hcap hflow hnow (not_le.mp hfirst) hnowt

/-- Two tokens a second: a call that comes 100 ms after the last token went waits 400 ms, and
a poll in between does not matter. -/
theorem half_second_wait :
    (consumeToken { tokens := 0, lastRefillMs := 0 } 2 100).retryAfterMs = 400 ∧
      ∃ w : Int, 0 < w ∧
        (consumeToken { tokens := 0, lastRefillMs := 0 } 2 (100 : Int)).retryAfterMs = w ∧
        ((consumeToken (leftOver 2 (consumeToken { tokens := 0, lastRefillMs := 0 } 2
          (100 : Int)).bucket [(300 : Int)]) 2 (500 : Int)).allowed = true ↔ 100 + w ≤ 500) := by
  have hrefused : (consumeToken { tokens := 0, lastRefillMs := 0 } 2 (100 : Int)).allowed =
      false := by decide +kernel
  have hwait : (consumeToken { tokens := 0, lastRefillMs := 0 } 2 (100 : Int)).retryAfterMs =
      (400 : Int) := by decide +kernel
  obtain ⟨w, hpos, hw, hpolls⟩ := throttle_wait_exact 2 (by norm_num)
    { tokens := 0, lastRefillMs := 0 } 100 (by norm_num) hrefused
  refine ⟨by decide +kernel, w, hpos, hw, (hpolls [300] 500 (by decide) ?_).2.1⟩
  intro u hu
  have hw' : w = 400 := by
    rw [hwait] at hw
    exact_mod_cast hw.symm
  rw [List.mem_singleton.mp hu, hw']
  decide

end Wait

/-! ## Clocks that run apart -/

/-- The grants of the calls are within the capacity and what flows in up to the latest time. -/
def WithinInflow (rate : ℚ) (b : RateBucket) (times : List Time) : Prop :=
  ∀ latest ∈ times, (∀ now ∈ times, now ≤ latest) →
    (grantsOf rate b times : ℚ) ≤ max 1 rate + rate * max 0 (latest - b.lastRefillMs) / 1000

/-- **Clock skew creates no tokens** where a call comes after the one before it only if that
one, or the start, was the latest so far. -/
theorem skewed_clocks_within_inflow (rate : ℚ) (hrate : 0 < rate) (b : RateBucket)
    (hfull : b.tokens ≤ max 1 rate) (times : List Time)
    (hclock : CountedOnce b.lastRefillMs b.lastRefillMs times) : WithinInflow rate b times := by
  intro latest hmem hlatest
  have hflow : 0 ≤ rate / 1000 := by positivity
  have hcount : ((draws (capacityFor rate) (rate / 1000) (bucketOf rate (some b)) times).countP
      (·.2) : ℚ) ≤ max 0 b.tokens +
        rate / 1000 * (max b.lastRefillMs latest - b.lastRefillMs) :=
    grants_countedOnce hflow le_rfl (le_max_left _ _)
      (fun now hnow => (hlatest now hnow).trans (le_max_right _ _)) hclock
  have hinflow : max b.lastRefillMs latest - b.lastRefillMs = max 0 (latest - b.lastRefillMs) := by
    rw [← max_sub_sub_right, sub_self]
  have hstart : max 0 b.tokens ≤ max 1 rate := max_le (zero_le_one.trans (le_max_left 1 rate)) hfull
  rw [grantsOf_draws hrate]
  calc ((draws (capacityFor rate) (rate / 1000) (bucketOf rate (some b)) times).countP (·.2) : ℚ)
      ≤ max 0 b.tokens + rate / 1000 * max 0 (latest - b.lastRefillMs) := by
        rw [← hinflow]
        exact hcount
    _ ≤ max 1 rate + rate * max 0 (latest - b.lastRefillMs) / 1000 := by
        rw [div_mul_eq_mul_div]
        exact add_le_add_left hstart _

/-- One clock runs a second behind at the end. -/
theorem late_clock_within_inflow :
    CountedOnce (0 : Time) 0 [1000, 2000, 1000] ∧
      WithinInflow 1 { tokens := 1, lastRefillMs := 0 } [1000, 2000, 1000] := by
  have hclock : CountedOnce (0 : Time) 0 [1000, 2000, 1000] := by decide +kernel
  exact ⟨hclock, skewed_clocks_within_inflow 1 one_pos { tokens := 1, lastRefillMs := 0 }
    (le_max_left 1 1) _ hclock⟩

/-- Two clocks a second apart, by turns: the second between them flows in twice. -/
theorem alternating_clocks_exceed :
    grantsOf 1 { tokens := 1, lastRefillMs := 0 } [1000, 0, 1000, 0, 1000] = 3 ∧
      ¬ WithinInflow 1 { tokens := 1, lastRefillMs := 0 } [1000, 0, 1000, 0, 1000] := by
  have hgrants : grantsOf 1 { tokens := 1, lastRefillMs := 0 } [1000, 0, 1000, 0, 1000] = 3 := by
    decide +kernel
  refine ⟨hgrants, fun h => ?_⟩
  have hbound := h 1000 (by decide +kernel) (by decide +kernel)
  rw [hgrants] at hbound
  norm_num at hbound

end Anyhook.RateLimit
