import Mathlib.Logic.Function.Basic
import Mathlib.Data.List.Forall2
import Mathlib.Order.Nat

/-! Logs that many append to at once. An appender takes a number from the counter of its
log, then writes its entry under that number; either step may take effect and its answer
be lost. No number is taken twice, so no entry is overwritten. -/
namespace Anyhook.Lib.Tickets

variable {κ β ι : Type}

/-- The counters and the entries of all logs. -/
@[ext] structure Book (κ β : Type) where
  count : κ → Nat
  rows : κ → Nat → Option β

/-- How far an appender is. -/
inductive Stage (κ β : Type) where
  | idle
  | begun (l : κ) (a : β)
  | numbered (l : κ) (a : β) (seq : Nat)
  | written (l : κ) (a : β) (seq : Nat)

namespace Stage

def entry : Stage κ β → Option (κ × β)
  | .idle => none
  | .begun l a | .numbered l a _ | .written l a _ => some (l, a)

/-- The appender has this number for this entry. -/
inductive Took (l : κ) (a : β) (seq : Nat) : Stage κ β → Prop
  | numbered : Took l a seq (.numbered l a seq)
  | written : Took l a seq (.written l a seq)

theorem Took.entry {g : Stage κ β} {l : κ} {a : β} {seq : Nat} (h : g.Took l a seq) :
    g.entry = some (l, a) := by
  cases h <;> rfl

end Stage

section Steps
variable [DecidableEq κ]

namespace Book

def take (b : Book κ β) (l : κ) : Book κ β :=
  { b with count := Function.update b.count l (b.count l + 1) }

def put (b : Book κ β) (l : κ) (seq : Nat) (a : β) : Book κ β :=
  { b with rows := Function.update b.rows l (Function.update (b.rows l) seq (some a)) }

/-- What one appender can do; it stays where it is when its answer is lost. -/
inductive Step (b : Book κ β) : Stage κ β → Book κ β → Stage κ β → Prop
  | rest (g : Stage κ β) : Step b g b g
  | take (l : κ) (a : β) (g : Stage κ β)
      (hg : g = .begun l a ∨ g = .numbered l a (b.count l + 1)) :
      Step b (.begun l a) (b.take l) g
  | put (l : κ) (a : β) (seq : Nat) (g : Stage κ β)
      (hg : g = .numbered l a seq ∨ g = .written l a seq) :
      Step b (.numbered l a seq) (b.put l seq a) g

theorem take_count (b : Book κ β) (l l' : κ) :
    (b.take l).count l' = if l' = l then b.count l + 1 else b.count l' := by
  simp [take, Function.update_apply]

theorem put_rows (b : Book κ β) (l : κ) (seq : Nat) (a : β) (l' : κ) (seq' : Nat) :
    (b.put l seq a).rows l' seq' =
      if l' = l ∧ seq' = seq then some a else b.rows l' seq' := by
  by_cases hl : l' = l
  · subst hl
    simp [put, Function.update_apply]
  · simp [put, hl]

end Book

/-! ## The invariant -/

/-- Numbers come from the counter, one appender each; what stands under a number is the
entry of its appender. -/
structure Kept (b : Book κ β) (v : ι → Stage κ β) : Prop where
  below : ∀ i l a seq, (v i).Took l a seq → seq ≤ b.count l
  apart : ∀ i j l a a' seq, (v i).Took l a seq → (v j).Took l a' seq → i = j
  owned : ∀ l seq a, b.rows l seq = some a → ∃ i, (v i).Took l a seq
  kept : ∀ i l a seq, v i = .written l a seq → b.rows l seq = some a

/-- What a later state owes an earlier one: numbers taken stay taken, new ones are higher
than every earlier one. -/
structure Advances (b : Book κ β) (v : ι → Stage κ β) (b' : Book κ β) (v' : ι → Stage κ β) :
    Prop where
  grows : ∀ l, b.count l ≤ b'.count l
  keeps : ∀ i l a seq, (v i).Took l a seq → (v' i).Took l a seq
  later : ∀ i l a seq, (v' i).Took l a seq → (v i).Took l a seq ∨ b.count l < seq

omit [DecidableEq κ] in
theorem Advances.refl (b : Book κ β) (v : ι → Stage κ β) : Advances b v b v where
  grows _ := le_rfl
  keeps _ _ _ _ h := h
  later _ _ _ _ h := .inl h

omit [DecidableEq κ] in
theorem Advances.trans {b b' b'' : Book κ β} {v v' v'' : ι → Stage κ β}
    (h : Advances b v b' v') (h' : Advances b' v' b'' v'') : Advances b v b'' v'' where
  grows l := (h.grows l).trans (h'.grows l)
  keeps i l a seq ht := h'.keeps i l a seq (h.keeps i l a seq ht)
  later i l a seq ht := by
    obtain ht | hlt := h'.later i l a seq ht
    · exact h.later i l a seq ht
    · exact .inr ((h.grows l).trans_lt hlt)

variable [DecidableEq ι] {b b' : Book κ β} {v : ι → Stage κ β} {i : ι} {g : Stage κ β}

omit [DecidableEq κ] in
/-- The appender that took the next number, against all others. -/
theorem took_update_take {l : κ} {a : β} {n : Nat} (hv : v i = .begun l a)
    (hg : g = .begun l a ∨ g = .numbered l a n) {j : ι} {l' : κ} {a' : β} {seq : Nat}
    (h : (Function.update v i g j).Took l' a' seq) :
    (j ≠ i ∧ (v j).Took l' a' seq) ∨ (j = i ∧ l' = l ∧ seq = n) := by
  by_cases hj : j = i
  · subst hj
    rw [Function.update_self] at h
    obtain rfl | rfl := hg
    · cases h
    · cases h
      exact .inr ⟨rfl, rfl, rfl⟩
  · rw [Function.update_of_ne hj] at h
    exact .inl ⟨hj, h⟩

omit [DecidableEq κ] in
/-- Writing an entry takes no number. -/
theorem took_update_put {l : κ} {a : β} {n : Nat} (hv : v i = .numbered l a n)
    (hg : g = .numbered l a n ∨ g = .written l a n) (j : ι) (l' : κ) (a' : β) (seq : Nat) :
    (Function.update v i g j).Took l' a' seq ↔ (v j).Took l' a' seq := by
  by_cases hj : j = i
  · subst hj
    rw [Function.update_self, hv]
    obtain rfl | rfl := hg
    · exact Iff.rfl
    · constructor
      · intro h
        cases h
        exact .numbered
      · intro h
        cases h
        exact .written
  · rw [Function.update_of_ne hj]

theorem Kept.take (h : Kept b v) {l : κ} {a : β} (hv : v i = .begun l a)
    (hg : g = .begun l a ∨ g = .numbered l a (b.count l + 1)) :
    Kept (b.take l) (Function.update v i g) := by
  -- A number in use is at most the counter; the new one is above it.
  have hstays : ∀ j l' a' seq, (v j).Took l' a' seq → (Function.update v i g j).Took l' a' seq := by
    intro j l' a' seq ht
    have hj : j ≠ i := by
      rintro rfl
      rw [hv] at ht
      cases ht
    rwa [Function.update_of_ne hj]
  refine ⟨?_, ?_, ?_, ?_⟩
  · intro j l' a' seq ht
    rw [Book.take_count]
    obtain ⟨-, ht⟩ | ⟨-, rfl, rfl⟩ := took_update_take hv hg ht
    · have hle := h.below j l' a' seq ht
      split
      · rename_i hl
        rw [hl] at hle
        omega
      · exact hle
    · simp
  · intro j k l' a' a'' seq hj hk
    obtain ⟨-, hj'⟩ | ⟨hji, rfl, rfl⟩ := took_update_take hv hg hj
    · obtain ⟨-, hk'⟩ | ⟨-, rfl, rfl⟩ := took_update_take hv hg hk
      · exact h.apart j k l' a' a'' seq hj' hk'
      · have hle := h.below j _ a' _ hj'
        omega
    · obtain ⟨-, hk'⟩ | ⟨hki, -, -⟩ := took_update_take hv hg hk
      · have hle := h.below k _ a'' _ hk'
        omega
      · rw [hji, hki]
  · intro l' seq a' hrow
    obtain ⟨j, hj⟩ := h.owned l' seq a' hrow
    exact ⟨j, hstays j l' a' seq hj⟩
  · intro j l' a' seq hj
    by_cases hji : j = i
    · subst hji
      rw [Function.update_self] at hj
      obtain rfl | rfl := hg <;> cases hj
    · rw [Function.update_of_ne hji] at hj
      exact h.kept j l' a' seq hj

theorem Kept.put (h : Kept b v) {l : κ} {a : β} {n : Nat} (hv : v i = .numbered l a n)
    (hg : g = .numbered l a n ∨ g = .written l a n) :
    Kept (b.put l n a) (Function.update v i g) := by
  have hown : (v i).Took l a n := hv ▸ .numbered
  refine ⟨?_, ?_, ?_, ?_⟩
  · intro j l' a' seq ht
    exact h.below j l' a' seq ((took_update_put hv hg j l' a' seq).mp ht)
  · intro j k l' a' a'' seq hj hk
    exact h.apart j k l' a' a'' seq ((took_update_put hv hg j l' a' seq).mp hj)
      ((took_update_put hv hg k l' a'' seq).mp hk)
  · intro l' seq a' hrow
    rw [Book.put_rows] at hrow
    split at hrow
    · rename_i heq
      obtain ⟨rfl, rfl⟩ := heq
      obtain rfl := Option.some.inj hrow
      exact ⟨i, (took_update_put hv hg i _ _ _).mpr hown⟩
    · obtain ⟨j, hj⟩ := h.owned l' seq a' hrow
      exact ⟨j, (took_update_put hv hg j _ _ _).mpr hj⟩
  · intro j l' a' seq hj
    rw [Book.put_rows]
    by_cases hji : j = i
    · subst hji
      rw [Function.update_self] at hj
      obtain rfl | rfl := hg
      · cases hj
      · cases hj
        rw [if_pos ⟨rfl, rfl⟩]
    · rw [Function.update_of_ne hji] at hj
      -- Another appender's number is another number.
      have hne : ¬ (l' = l ∧ seq = n) := by
        rintro ⟨rfl, rfl⟩
        exact hji (h.apart j i _ a' a _ (hj ▸ .written) hown)
      rw [if_neg hne]
      exact h.kept j l' a' seq hj

theorem Kept.step (h : Kept b v) (hstep : b.Step (v i) b' g) :
    Kept b' (Function.update v i g) ∧ Advances b v b' (Function.update v i g) ∧
      ∀ l, b'.count l ≤ b.count l + 1 := by
  generalize hv : v i = g₀ at hstep
  cases hstep with
  | rest =>
    rw [← hv, Function.update_eq_self]
    exact ⟨h, .refl b v, fun l => Nat.le_succ _⟩
  | take l a g hg =>
    refine ⟨h.take hv hg, ⟨?_, ?_, ?_⟩, ?_⟩
    · intro l'
      rw [Book.take_count]
      split
      · rename_i hl
        rw [hl]
        omega
      · exact le_rfl
    · intro j l' a' seq ht
      have hj : j ≠ i := by
        rintro rfl
        rw [hv] at ht
        cases ht
      rwa [Function.update_of_ne hj]
    · intro j l' a' seq ht
      obtain ⟨-, ht⟩ | ⟨-, rfl, rfl⟩ := took_update_take hv hg ht
      · exact .inl ht
      · exact .inr (Nat.lt_succ_self _)
    · intro l'
      rw [Book.take_count]
      split
      · rename_i hl
        exact hl ▸ le_rfl
      · exact Nat.le_succ _
  | put l a n g hg =>
    refine ⟨h.put hv hg, ⟨fun _ => le_rfl, ?_, ?_⟩, fun _ => Nat.le_succ _⟩
    · intro j l' a' seq ht
      exact (took_update_put hv hg j l' a' seq).mpr ht
    · intro j l' a' seq ht
      exact .inl ((took_update_put hv hg j l' a' seq).mp ht)

end Steps

/-! ## Listings -/

end Anyhook.Lib.Tickets
