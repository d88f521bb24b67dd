import Mathlib.Algebra.Order.Field.Basic
import Mathlib.Tactic.FieldSimp
import Mathlib.Tactic.Linarith
import Mathlib.Tactic.Ring

/-! Token buckets over an ordered field: a level that refills at a rate up to a capacity,
and draws of one token. However the draws fall, no window sees more grants than the
capacity and what flows in while it lasts. A refused draw moves the level on to its own
time, which no later look can tell. -/
namespace Anyhook.Lib.TokenBucket

variable {K : Type} [Field K] [LinearOrder K]

structure Bucket (K : Type) where
  level : K
  last : K

variable (cap rate : K)

def refilled (b : Bucket K) (now : K) : K := min cap (b.level + rate * max 0 (now - b.last))

/-- Whether a token was there to take. -/
def granted (b : Bucket K) (now : K) : Bool := 1 ≤ refilled cap rate b now

def drawn (b : Bucket K) (now : K) : Bucket K where
  level := if 1 ≤ refilled cap rate b now then refilled cap rate b now - 1
    else refilled cap rate b now
  last := now

/-- Draws at the given times, one after another. -/
def draws : Bucket K → List K → List (K × Bool)
  | _, [] => []
  | b, t :: ts => (t, granted cap rate b t) :: draws (drawn cap rate b t) ts

def after (b : Bucket K) (ts : List K) : Bucket K := ts.foldl (drawn cap rate) b

/-- The grants of a window. -/
def grants (t1 t2 : K) (ds : List (K × Bool)) : Nat :=
  (ds.filter fun d => d.2 = true ∧ t1 ≤ d.1 ∧ d.1 ≤ t2).length

structure Within (b : Bucket K) : Prop where
  empty : 0 ≤ b.level
  full : b.level ≤ cap

variable {cap rate} {b : Bucket K} {t t1 t2 : K} {ts : List K}

theorem refilled_le : refilled cap rate b t ≤ cap := min_le_left _ _

theorem draws_concat (b : Bucket K) (ts : List K) (t : K) :
    draws cap rate b (ts ++ [t]) =
      draws cap rate b ts ++ [(t, granted cap rate (after cap rate b ts) t)] := by
  induction ts generalizing b with
  | nil => rfl
  | cons u ts ih =>
    rw [List.cons_append, draws, ih]
    rfl

theorem after_concat (b : Bucket K) (ts : List K) (t : K) :
    after cap rate b (ts ++ [t]) = drawn cap rate (after cap rate b ts) t := by
  simp [after]

theorem draws_times (b : Bucket K) (ts : List K) : (draws cap rate b ts).map Prod.fst = ts := by
  induction ts generalizing b with
  | nil => rfl
  | cons t ts ih => rw [draws, List.map_cons, ih]

/-- A grant takes one token. -/
theorem drawn_level : (drawn cap rate b t).level =
    refilled cap rate b t - if granted cap rate b t = true then 1 else 0 := by
  unfold drawn granted
  by_cases h : 1 ≤ refilled cap rate b t <;> simp [h]

theorem grants_cons (d : K × Bool) (ds : List (K × Bool)) :
    (grants t1 t2 (d :: ds) : K) =
      (if d.2 = true ∧ t1 ≤ d.1 ∧ d.1 ≤ t2 then 1 else 0) + grants t1 t2 ds := by
  unfold grants
  by_cases h : d.2 = true ∧ t1 ≤ d.1 ∧ d.1 ≤ t2
  · rw [List.filter_cons_of_pos (by simpa using h), if_pos h]
    simp [add_comm]
  · rw [List.filter_cons_of_neg (by simpa using h), if_neg h, zero_add]

/-- Draws after the window count nothing. -/
theorem grants_late (hlate : ∀ t ∈ ts, t2 < t) : grants t1 t2 (draws cap rate b ts) = 0 := by
  induction ts generalizing b with
  | nil => rfl
  | cons t ts ih =>
    have ht : ¬ t ≤ t2 := not_le.mpr (hlate t List.mem_cons_self)
    unfold draws grants
    rw [List.filter_cons_of_neg (by simp [ht])]
    exact ih fun u hu => hlate u (List.mem_cons_of_mem t hu)

variable [IsStrictOrderedRing K]

theorem refilled_le_flow (hlast : b.last ≤ t) :
    refilled cap rate b t ≤ b.level + rate * (t - b.last) := by
  refine (min_le_right _ _).trans ?_
  rw [max_eq_right (by linarith)]

theorem refilled_nonneg (hcap : 0 ≤ cap) (hrate : 0 ≤ rate) (h : 0 ≤ b.level) :
    0 ≤ refilled cap rate b t :=
  le_min hcap (by have := mul_nonneg hrate (le_max_left 0 (t - b.last)); linarith)

/-- No time passes between a draw and the next look. -/
theorem refilled_drawn : refilled cap rate (drawn cap rate b t) t = (drawn cap rate b t).level := by
  have hfull : refilled cap rate b t ≤ cap := refilled_le
  have hlevel : (drawn cap rate b t).level ≤ cap := by
    rw [drawn_level]
    split <;> linarith
  have hlast : (drawn cap rate b t).last = t := rfl
  rw [refilled, hlast, sub_self, max_self, mul_zero, add_zero, min_eq_right hlevel]

theorem Within.drawn (hcap : 0 ≤ cap) (hrate : 0 ≤ rate) (h : Within cap b) (t : K) :
    Within cap (drawn cap rate b t) := by
  have h0 : 0 ≤ refilled cap rate b t := refilled_nonneg hcap hrate h.empty
  have h1 : refilled cap rate b t ≤ cap := refilled_le
  unfold TokenBucket.drawn
  by_cases hg : 1 ≤ refilled cap rate b t
  · exact ⟨by simp only [hg, if_true]; linarith, by simp only [hg, if_true]; linarith⟩
  · exact ⟨by simp only [hg, if_false]; exact h0, by simp only [hg, if_false]; exact h1⟩

theorem Within.after (hcap : 0 ≤ cap) (hrate : 0 ≤ rate) (h : Within cap b) (ts : List K) :
    Within cap (after cap rate b ts) := by
  induction ts generalizing b with
  | nil => exact h
  | cons t ts ih => exact ih (h.drawn hcap hrate t)

/-- From a draw inside the window on, the level and the inflow bound the grants. -/
theorem grants_from (hcap : 0 ≤ cap) (hrate : 0 ≤ rate) (h : Within cap b) (hlast : b.last ≤ t2)
    (hsorted : (b.last :: ts).Pairwise (· ≤ ·)) :
    (grants t1 t2 (draws cap rate b ts) : K) ≤ b.level + rate * (t2 - b.last) := by
  induction ts generalizing b with
  | nil =>
    have := mul_nonneg hrate (sub_nonneg.mpr hlast)
    have := h.empty
    simp only [draws, grants, List.filter_nil, List.length_nil, Nat.cast_zero]
    linarith
  | cons t ts ih =>
    obtain ⟨hhead, htail⟩ := List.pairwise_cons.mp hsorted
    have hbt : b.last ≤ t := hhead t List.mem_cons_self
    by_cases ht : t ≤ t2
    · have hnext := ih (h.drawn hcap hrate t) (b := drawn cap rate b t) ht htail
      have hflow : refilled cap rate b t ≤ b.level + rate * (t - b.last) := refilled_le_flow hbt
      rw [drawn_level] at hnext
      rw [draws, grants_cons]
      have hdt : (drawn cap rate b t).last = t := rfl
      rw [hdt] at hnext
      have hcount : (if granted cap rate b t = true ∧ t1 ≤ t ∧ t ≤ t2 then (1 : K) else 0) ≤
          if granted cap rate b t = true then 1 else 0 := by
        by_cases hg : granted cap rate b t = true
        · simp only [hg, true_and, if_true]
          split <;> simp
        · simp [hg]
      calc (if granted cap rate b t = true ∧ t1 ≤ t ∧ t ≤ t2 then (1 : K) else 0) +
            grants t1 t2 (draws cap rate (drawn cap rate b t) ts)
          ≤ refilled cap rate b t + rate * (t2 - t) := by linarith
        _ ≤ b.level + rate * (t - b.last) + rate * (t2 - t) := by linarith
        _ = b.level + rate * (t2 - b.last) := by ring
    · have hlate : ∀ u ∈ t :: ts, t2 < u := by
        intro u hu
        rcases List.mem_cons.mp hu with rfl | hu
        · exact not_le.mp ht
        · exact (not_le.mp ht).trans_le ((List.pairwise_cons.mp htail).1 u hu)
      rw [grants_late hlate]
      have := mul_nonneg hrate (sub_nonneg.mpr hlast)
      have := h.empty
      simp only [Nat.cast_zero]
      linarith

/-- **The window bound.** -/
theorem grants_window (hcap : 0 ≤ cap) (hrate : 0 ≤ rate) (h : Within cap b) (hw : t1 ≤ t2)
    (hsorted : ts.Pairwise (· ≤ ·)) :
    (grants t1 t2 (draws cap rate b ts) : K) ≤ cap + rate * (t2 - t1) := by
  have hflow := mul_nonneg hrate (sub_nonneg.mpr hw)
  induction ts generalizing b with
  | nil =>
    simp only [draws, grants, List.filter_nil, List.length_nil, Nat.cast_zero]
    linarith
  | cons t ts ih =>
    have hb := h.drawn hcap hrate t
    rw [draws, grants_cons]
    by_cases hin : t1 ≤ t ∧ t ≤ t2
    · have hrest : (grants t1 t2 (draws cap rate (drawn cap rate b t) ts) : K) ≤ _ :=
        grants_from hcap hrate hb hin.2 hsorted
      have hdt : (drawn cap rate b t).last = t := rfl
      have hfull : refilled cap rate b t ≤ cap := refilled_le
      have hinside := mul_le_mul_of_nonneg_left (sub_le_sub_left hin.1 t2) hrate
      rw [drawn_level, hdt] at hrest
      simp only [hin, and_true, and_self]
      linarith
    · rw [if_neg fun hc => hin hc.2, zero_add]
      exact ih hb (List.pairwise_cons.mp hsorted).2

/-! ## Waiting for a token -/

/-- When the next token is there. -/
def ready (rate : K) (b : Bucket K) : K := b.last + (1 - b.level) / rate

section Waiting
variable (hcap : 1 ≤ cap) (hrate : 0 < rate)
include hcap hrate

theorem granted_iff_ready (hlast : b.last ≤ t) :
    granted cap rate b t = true ↔ ready rate b ≤ t := by
  unfold granted refilled ready
  rw [decide_eq_true_iff, max_eq_right (sub_nonneg.mpr hlast), le_min_iff, ← le_sub_iff_add_le',
    div_le_iff₀ hrate, mul_comm (t - b.last)]
  constructor
  · intro h
    linarith [h.2]
  · intro h
    exact ⟨hcap, by linarith⟩

/-- A refused draw moves the level on and nothing else. -/
theorem drawn_of_early (hlast : b.last ≤ t) (hearly : t < ready rate b) :
    drawn cap rate b t = { level := b.level + rate * (t - b.last), last := t } := by
  have hrefused : ¬ 1 ≤ refilled cap rate b t := by
    intro h
    exact not_le.mpr hearly ((granted_iff_ready hcap hrate hlast).mp (decide_eq_true h))
  have hflow : refilled cap rate b t = b.level + rate * (t - b.last) := by
    have hmin := min_choice cap (b.level + rate * max 0 (t - b.last))
    unfold refilled at hrefused ⊢
    rw [max_eq_right (sub_nonneg.mpr hlast)] at hmin hrefused ⊢
    refine hmin.resolve_left fun hfull => hrefused ?_
    rw [hfull]
    exact hcap
  unfold drawn
  rw [if_neg hrefused, hflow]

theorem ready_drawn (hlast : b.last ≤ t) (hearly : t < ready rate b) :
    ready rate (drawn cap rate b t) = ready rate b := by
  rw [drawn_of_early hcap hrate hlast hearly]
  unfold ready
  field_simp
  ring

/-- A later look sees the same level as if the draw had not been made. -/
theorem refilled_drawn_of_early (hlast : b.last ≤ t) (hearly : t < ready rate b) {u : K}
    (hu : t ≤ u) : refilled cap rate (drawn cap rate b t) u = refilled cap rate b u := by
  rw [drawn_of_early hcap hrate hlast hearly]
  unfold refilled
  rw [max_eq_right (sub_nonneg.mpr hu), max_eq_right (sub_nonneg.mpr (hlast.trans hu))]
  congr 1
  ring

/-- A refused draw costs nothing, even by a clock that is behind the bucket's. -/
theorem refilled_le_drawn (hrefused : granted cap rate b t = false) {u : K} (hu : t ≤ u) :
    refilled cap rate b u ≤ refilled cap rate (drawn cap rate b t) u := by
  have hlevel : ¬ 1 ≤ refilled cap rate b t := of_decide_eq_false hrefused
  have hdrawn : drawn cap rate b t = { level := refilled cap rate b t, last := t } := by
    unfold drawn
    rw [if_neg hlevel]
  have hflow : refilled cap rate b t = b.level + rate * max 0 (t - b.last) := by
    have hmin := min_choice cap (b.level + rate * max 0 (t - b.last))
    unfold refilled at hlevel ⊢
    refine hmin.resolve_left fun hfull => hlevel ?_
    rw [hfull]
    exact hcap
  have htime : max 0 (u - b.last) ≤ max 0 (t - b.last) + (u - t) :=
    max_le (by linarith [le_max_left 0 (t - b.last)]) (by linarith [le_max_right 0 (t - b.last)])
  rw [hdrawn]
  refine min_le_min le_rfl ?_
  rw [hflow, max_eq_right (sub_nonneg.mpr hu), add_assoc, ← mul_add]
  exact add_le_add le_rfl (mul_le_mul_of_nonneg_left htime hrate.le)

/-- **Early draws are harmless**: none is granted, and later looks see what they would have
seen without them. -/
theorem early_draws (hsorted : (b.last :: ts).Pairwise (· ≤ ·))
    (hearly : ∀ t ∈ ts, t < ready rate b) :
    (∀ d ∈ draws cap rate b ts, d.2 = false) ∧ ready rate (after cap rate b ts) = ready rate b ∧
      ∀ u, (∀ t ∈ b.last :: ts, t ≤ u) →
        (after cap rate b ts).last ≤ u ∧
        refilled cap rate (after cap rate b ts) u = refilled cap rate b u := by
  induction ts generalizing b with
  | nil =>
    refine ⟨fun d hd => ?_, rfl, fun u hu => ⟨hu _ List.mem_cons_self, rfl⟩⟩
    cases hd
  | cons t ts ih =>
    obtain ⟨hhead, htail⟩ := List.pairwise_cons.mp hsorted
    have hlast : b.last ≤ t := hhead t List.mem_cons_self
    have ht : t < ready rate b := hearly t List.mem_cons_self
    have hready := ready_drawn hcap hrate hlast ht
    obtain ⟨hnone, hsame, hlook⟩ := ih (b := drawn cap rate b t) htail fun u hu => by
      rw [hready]
      exact hearly u (List.mem_cons_of_mem t hu)
    refine ⟨?_, hsame.trans hready, ?_⟩
    · intro d hd
      rcases List.mem_cons.mp hd with rfl | hd
      · refine Bool.eq_false_iff.mpr fun hg => ?_
        exact not_le.mpr ht ((granted_iff_ready hcap hrate hlast).mp hg)
      · exact hnone d hd
    · intro u hu
      obtain ⟨hle, heq⟩ := hlook u fun v hv => hu v (List.mem_cons_of_mem _ hv)
      have htu : t ≤ u := hu t (List.mem_cons_of_mem _ List.mem_cons_self)
      exact ⟨hle, heq.trans (refilled_drawn_of_early hcap hrate hlast ht htu)⟩

end Waiting

/-! ## Clocks that go back -/

/-- A draw comes later than the one before it only where that one was the latest so far.
What flows in is then counted once. -/
def CountedOnce : (latest last : K) → List K → Prop
  | _, _, [] => True
  | latest, last, t :: ts => (t ≤ last ∨ latest ≤ last) ∧ CountedOnce (max latest t) t ts

instance decidableCountedOnce : (latest last : K) → (ts : List K) →
    Decidable (CountedOnce latest last ts)
  | _, _, [] => .isTrue trivial
  | latest, last, t :: ts =>
    have := decidableCountedOnce (max latest t) t ts
    inferInstanceAs (Decidable ((t ≤ last ∨ latest ≤ last) ∧ CountedOnce (max latest t) t ts))

/-- What flows in for a draw is what the latest time moves on. -/
theorem inflow_le (hrate : 0 ≤ rate) {latest : K} (hlast : b.last ≤ latest)
    (h : t ≤ b.last ∨ latest ≤ b.last) :
    rate * max 0 (t - b.last) ≤ rate * (max latest t - latest) := by
  refine mul_le_mul_of_nonneg_left (max_le ?_ ?_) hrate
  · exact sub_nonneg.mpr (le_max_left _ _)
  · rcases h with ht | hlatest
    · exact (sub_nonpos.mpr ht).trans (sub_nonneg.mpr (le_max_left _ _))
    · rw [le_antisymm hlatest hlast]
      exact sub_le_sub_right (le_max_right _ _) _

/-- The grants of draws whose times may go back. -/
theorem grants_countedOnce (hrate : 0 ≤ rate) {latest top : K}
    (hlast : b.last ≤ latest) (hlatest : latest ≤ top) (htop : ∀ t ∈ ts, t ≤ top)
    (h : CountedOnce latest b.last ts) :
    ((draws cap rate b ts).countP (·.2) : K) ≤ max 0 b.level + rate * (top - latest) := by
  induction ts generalizing b latest with
  | nil =>
    simp only [draws, List.countP_nil, Nat.cast_zero]
    exact add_nonneg (le_max_left _ _) (mul_nonneg hrate (sub_nonneg.mpr hlatest))
  | cons t ts ih =>
    have hnext := ih (b := drawn cap rate b t) (le_max_right latest t)
      (max_le hlatest (htop t List.mem_cons_self))
      (fun u hu => htop u (List.mem_cons_of_mem t hu)) h.2
    have hin := inflow_le hrate hlast h.1
    have hflow : refilled cap rate b t ≤ b.level + rate * max 0 (t - b.last) := min_le_right _ _
    have hzero : 0 ≤ rate * max 0 (t - b.last) := mul_nonneg hrate (le_max_left _ _)
    have hlevel := le_max_right 0 b.level
    have hempty := le_max_left 0 b.level
    rw [drawn_level] at hnext
    rw [draws, List.countP_cons, Nat.cast_add]
    by_cases hg : granted cap rate b t = true
    · have hone : 1 ≤ refilled cap rate b t := of_decide_eq_true hg
      simp only [hg, if_true, Nat.cast_one] at hnext ⊢
      rw [max_eq_right (sub_nonneg.mpr hone)] at hnext
      linarith
    · simp only [hg, Bool.false_eq_true, if_false, Nat.cast_zero, add_zero, sub_zero] at hnext ⊢
      have hmax : max 0 (refilled cap rate b t) ≤ max 0 b.level + rate * max 0 (t - b.last) :=
        max_le (by linarith) (by linarith)
      linarith

end Anyhook.Lib.TokenBucket
