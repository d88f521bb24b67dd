import Mathlib.Data.List.Count

/-! Parts of a text joined by a separator, with nothing escaped. The parts can be read back
only as far as the number of separators in them is known. -/
namespace Anyhook.Lib.Joined

variable {α : Type} [DecidableEq α]

/-- A list is cut in one way after a given number of separators. -/
theorem cut_unique {c : α} {xs xs' ys ys' : List α} (h : xs ++ c :: ys = xs' ++ c :: ys')
    (hcount : xs.count c = xs'.count c) : xs = xs' ∧ ys = ys' := by
  induction xs generalizing xs' with
  | nil =>
    cases xs' with
    | nil => exact ⟨rfl, List.cons.inj h |>.2⟩
    | cons x xs' =>
      obtain ⟨rfl, -⟩ := List.cons.inj h
      simp at hcount
  | cons x xs ih =>
    cases xs' with
    | nil =>
      obtain ⟨rfl, -⟩ := List.cons.inj h
      simp at hcount
    | cons x' xs' =>
      obtain ⟨rfl, htail⟩ := List.cons.inj h
      have hrest : xs.count c = xs'.count c := by
        simp only [List.count_cons] at hcount
        omega
      obtain ⟨rfl, rfl⟩ := ih htail hrest
      exact ⟨rfl, rfl⟩

/-- Without separators in them, the first parts are equal and so are the rests. -/
theorem cut_first {c : α} {xs xs' ys ys' : List α} (hxs : c ∉ xs) (hxs' : c ∉ xs')
    (h : xs ++ c :: ys = xs' ++ c :: ys') : xs = xs' ∧ ys = ys' :=
  cut_unique h (by rw [List.count_eq_zero.mpr hxs, List.count_eq_zero.mpr hxs'])

/-- Three parts with a separator between them. -/
def joined (c : α) (xs ys zs : List α) : List α := xs ++ c :: (ys ++ c :: zs)

theorem count_joined (c : α) (xs ys zs : List α) :
    (joined c xs ys zs).count c = xs.count c + ys.count c + zs.count c + 2 := by
  unfold joined
  simp only [List.count_append, List.count_cons_self]
  omega

/-- **Three joined parts can be read back exactly when none of them has a separator.** -/
theorem joined_unique_iff (c : α) (xs ys zs : List α) :
    (∀ xs' ys' zs', joined c xs' ys' zs' = joined c xs ys zs → xs' = xs ∧ ys' = ys ∧ zs' = zs) ↔
      c ∉ xs ∧ c ∉ ys ∧ c ∉ zs := by
  constructor
  · intro h
    -- a separator inside a part moves to the place of the one beside it
    refine ⟨?_, ?_, ?_⟩
    · intro hmem
      obtain ⟨as, bs, rfl⟩ := List.append_of_mem hmem
      obtain ⟨hxs, -⟩ := h as (bs ++ c :: ys) zs (by simp [joined])
      simpa using congrArg List.length hxs
    · intro hmem
      obtain ⟨as, bs, rfl⟩ := List.append_of_mem hmem
      obtain ⟨hxs, -⟩ := h (xs ++ c :: as) bs zs (by simp [joined])
      simpa using congrArg List.length hxs
    · intro hmem
      obtain ⟨as, bs, rfl⟩ := List.append_of_mem hmem
      obtain ⟨-, hys, -⟩ := h xs (ys ++ c :: as) bs (by simp [joined])
      simpa using congrArg List.length hys
  · intro ⟨hxs, hys, hzs⟩ xs' ys' zs' h
    have hcount := congrArg (List.count c) h
    rw [count_joined, count_joined, List.count_eq_zero.mpr hxs, List.count_eq_zero.mpr hys,
      List.count_eq_zero.mpr hzs] at hcount
    have hxs' : xs'.count c = 0 := by omega
    have hys' : ys'.count c = 0 := by omega
    obtain ⟨rfl, hrest⟩ := cut_first (List.count_eq_zero.mp hxs') hxs h
    obtain ⟨rfl, rfl⟩ := cut_first (List.count_eq_zero.mp hys') hys hrest
    exact ⟨rfl, rfl, rfl⟩

end Anyhook.Lib.Joined
