import Mathlib.Data.List.Sort
import Mathlib.Data.List.Perm.Basic
import Mathlib.Order.Basic

/-! Lists sorted by a key. With distinct keys there is one sorted order, whatever order the
elements came in; with repeated keys a selection from the top of the order is one of
several, and `Top` says which ones. Selections from the parts of a list can be merged: the
sort is stable, so the merge is the selection from the whole, ties included. -/
namespace Anyhook.Lib.Sorted

variable {α κ : Type} [LinearOrder κ] (key : α → κ)

local instance totalUp : Std.Total fun a b : α => key a ≤ key b :=
  ⟨fun a b => le_total (key a) (key b)⟩

local instance transUp : IsTrans α fun a b => key a ≤ key b := ⟨fun _ _ _ => le_trans⟩

local instance totalDown : Std.Total fun a b : α => key b ≤ key a :=
  ⟨fun a b => le_total (key b) (key a)⟩

local instance transDown : IsTrans α fun a b => key b ≤ key a := ⟨fun _ _ _ h h' => h'.trans h⟩

/-! ## Distinct keys -/

section Distinct
variable {key} {rows l : List α}

/-- Sorting rows of distinct keys. -/
theorem sort_pairwise (hnodup : (rows.map key).Nodup) :
    (rows.insertionSort fun a b => key a ≤ key b).Pairwise fun a b => key a < key b := by
  have hle := List.pairwise_insertionSort (fun a b => key a ≤ key b) rows
  have hne : ((rows.insertionSort fun a b => key a ≤ key b).map key).Nodup :=
    ((List.perm_insertionSort _ rows).map key).nodup_iff.mpr hnodup
  rw [List.Nodup, List.pairwise_map] at hne
  exact hle.imp₂ (fun a b h hne => lt_of_le_of_ne h hne) hne

/-- The sorted list is the only one with these elements that is strictly sorted. -/
theorem sort_eq (hnodup : (rows.map key).Nodup) (hl : l.Pairwise fun a b => key a < key b)
    (hmem : ∀ a, a ∈ rows ↔ a ∈ l) : rows.insertionSort (fun a b => key a ≤ key b) = l := by
  have hsort := sort_pairwise hnodup
  have hperm : (rows.insertionSort fun a b => key a ≤ key b).Perm l := by
    refine (List.perm_ext_iff_of_nodup ?_ ?_).mpr fun a => ?_
    · exact hsort.imp fun h => by rintro rfl; exact lt_irrefl _ h
    · exact hl.imp fun h => by rintro rfl; exact lt_irrefl _ h
    · rw [List.mem_insertionSort, hmem]
  refine hperm.eq_of_pairwise (fun a b _ _ h h' => ?_) hsort hl
  exact absurd (h.trans h') (lt_irrefl _)

/-- What comes after the last of the first `n` is the rest. -/
theorem filter_after_take (hl : l.Pairwise fun a b => key a < key b) {n : Nat} {x : α}
    (hx : (l.take n).getLast? = some x) : l.filter (fun a => decide (key x < key a)) = l.drop n := by
  have hmem : x ∈ l.take n := List.mem_of_getLast? hx
  have hsplit : l.filter (fun a => decide (key x < key a)) =
      (l.take n).filter (fun a => decide (key x < key a)) ++
        (l.drop n).filter (fun a => decide (key x < key a)) := by
    rw [← List.filter_append, List.take_append_drop]
  have hpair := hl
  rw [← List.take_append_drop n l, List.pairwise_append] at hpair
  obtain ⟨htake, -, hcross⟩ := hpair
  have hfirst : (l.take n).filter (fun a => decide (key x < key a)) = [] := by
    rw [List.filter_eq_nil_iff]
    intro a ha
    obtain ⟨ys, hys⟩ := List.getLast?_eq_some_iff.mp hx
    rw [hys, List.pairwise_append] at htake
    rw [hys, List.mem_append] at ha
    obtain ha | ha := ha
    · simpa using (htake.2.2 a ha x (by simp)).le
    · simp [List.mem_singleton.mp ha]
  have hrest : (l.drop n).filter (fun a => decide (key x < key a)) = l.drop n := by
    rw [List.filter_eq_self]
    intro a ha
    simpa using hcross x hmem a ha
  rw [hsplit, hfirst, hrest, List.nil_append]

end Distinct

/-! ## Selections from the top -/

/-- `chosen` is sorted, largest key first, and what it leaves out of `all` has no larger
key than what it takes. -/
def Top (all chosen : List α) : Prop :=
  chosen.Pairwise (fun a b => key b ≤ key a) ∧
    ∃ left, (chosen ++ left).Perm all ∧ ∀ a ∈ chosen, ∀ b ∈ left, key b ≤ key a

section Top
variable {key} {all all' chosen : List α}

theorem Top.perm (h : Top key all chosen) (hperm : all.Perm all') : Top key all' chosen := by
  obtain ⟨hsorted, left, hleft, hle⟩ := h
  exact ⟨hsorted, left, hleft.trans hperm, hle⟩

/-- The first elements of the sorted list. -/
theorem top_take (all : List α) (n : Nat) :
    Top key all ((all.insertionSort fun a b => key b ≤ key a).take n) := by
  have hsorted := List.pairwise_insertionSort (fun a b => key b ≤ key a) all
  have hpair := hsorted
  rw [← List.take_append_drop n (all.insertionSort _), List.pairwise_append] at hpair
  refine ⟨hpair.1, (all.insertionSort fun a b => key b ≤ key a).drop n, ?_, hpair.2.2⟩
  rw [List.take_append_drop]
  exact List.perm_insertionSort _ all

theorem Top.map {β : Type} {key' : β → κ} (h : Top key all chosen) (f : α → β)
    (hf : ∀ a, key' (f a) = key a) : Top key' (all.map f) (chosen.map f) := by
  obtain ⟨hsorted, left, hleft, hle⟩ := h
  refine ⟨List.pairwise_map.mpr (hsorted.imp fun h => by rwa [hf, hf]), left.map f, ?_, ?_⟩
  · rw [← List.map_append]
    exact hleft.map f
  · intro a ha b hb
    obtain ⟨x, hx, rfl⟩ := List.mem_map.mp ha
    obtain ⟨y, hy, rfl⟩ := List.mem_map.mp hb
    rw [hf, hf]
    exact hle x hx y hy

/-- As many elements of the whole as are chosen have at least this key: then so have the
chosen ones. -/
theorem Top.le_of_count (h : Top key all chosen) {v : κ}
    (hcount : chosen.length ≤ all.countP fun a => decide (v ≤ key a)) :
    ∀ a ∈ chosen, v ≤ key a := by
  obtain ⟨-, left, hleft, hle⟩ := h
  intro a ha
  by_contra hlt
  have hnone : left.countP (fun b => decide (v ≤ key b)) = 0 := by
    rw [List.countP_eq_zero]
    intro b hb hvb
    exact hlt ((of_decide_eq_true hvb).trans (hle a ha b hb))
  have hsplit : all.countP (fun b => decide (v ≤ key b)) =
      chosen.countP fun b => decide (v ≤ key b) := by
    rw [← hleft.countP_eq, List.countP_append, hnone, Nat.add_zero]
  rw [hsplit] at hcount
  have hall := List.countP_eq_length.mp (le_antisymm List.countP_le_length hcount)
  exact hlt (of_decide_eq_true (hall a ha))

/-- Elements that enough others match can be left out of a selection. -/
theorem Top.append (h : Top key all chosen) {rest : List α}
    (hrest : ∀ b ∈ rest, chosen.length ≤ all.countP fun a => decide (key b ≤ key a)) :
    Top key (all ++ rest) chosen := by
  have hover : ∀ a ∈ chosen, ∀ b ∈ rest, key b ≤ key a :=
    fun a ha b hb => h.le_of_count (hrest b hb) a ha
  obtain ⟨hsorted, left, hleft, hle⟩ := h
  refine ⟨hsorted, left ++ rest, ?_, ?_⟩
  · rw [← List.append_assoc]
    exact hleft.append_right rest
  · intro a ha b hb
    obtain hb | hb := List.mem_append.mp hb
    · exact hle a ha b hb
    · exact hover a ha b hb

end Top

/-! ## Merging -/

section Merge
variable {key}

/-- Two sorted lists as one, the left one first where keys are equal. -/
def merged (key : α → κ) (l r : List α) : List α := l.merge r fun a b => decide (key b ≤ key a)

theorem orderedInsert_merged (a : α) (l r : List α) :
    (merged key l r).orderedInsert (fun a b => key b ≤ key a) a =
      merged key (l.orderedInsert (fun a b => key b ≤ key a) a) r := by
  unfold merged
  induction l generalizing r with
  | nil =>
    induction r with
    | nil => simp
    | cons y r ih =>
      by_cases hay : key y ≤ key a
      · simp [hay]
      · have ih' : List.orderedInsert (fun a b => key b ≤ key a) a r =
            [a].merge r fun a b => decide (key b ≤ key a) := by simpa using ih
        simp [hay, ih']
  | cons x l ihl =>
    induction r with
    | nil => simp
    | cons y r ihr =>
      by_cases hxy : key y ≤ key x
      · rw [List.cons_merge_cons_pos _ _ _ (decide_eq_true hxy)]
        by_cases hax : key x ≤ key a
        · have hay : key y ≤ key a := hxy.trans hax
          simp [hax, hay, hxy]
        · simp [hax, hxy, ihl]
      · rw [List.cons_merge_cons_neg _ _ _ (by simpa using hxy)]
        by_cases hax : key x ≤ key a
        · simp only [List.orderedInsert_cons, if_pos hax] at ihr ⊢
          by_cases hay : key y ≤ key a
          · simp [hay, hxy]
          · simp [hay, ihr]
        · have hay : ¬ key y ≤ key a := fun hay => hax ((not_le.mp hxy).le.trans hay)
          simpa [hax, hay, hxy] using ihr

/-- Sorting two lists after one another merges the sorted lists. -/
theorem sort_append (l r : List α) :
    ((l ++ r).insertionSort fun a b => key b ≤ key a) =
      merged key (l.insertionSort fun a b => key b ≤ key a)
        (r.insertionSort fun a b => key b ≤ key a) := by
  induction l with
  | nil => simp [merged]
  | cons a l ih =>
    rw [List.cons_append, List.insertionSort_cons, ih, orderedInsert_merged, List.insertionSort_cons]

/-- The first `n` of a merge come from the first `n` of either side. -/
theorem take_merged {n a b : Nat} (ha : n ≤ a) (hb : n ≤ b) (l r : List α) :
    (merged key (l.take a) (r.take b)).take n = (merged key l r).take n := by
  unfold merged
  induction n generalizing l r a b with
  | zero => rw [List.take_zero, List.take_zero]
  | succ n ih =>
    obtain ⟨a, rfl⟩ : ∃ a', a = a' + 1 := ⟨a - 1, by omega⟩
    obtain ⟨b, rfl⟩ : ∃ b', b = b' + 1 := ⟨b - 1, by omega⟩
    cases l with
    | nil => simp [List.take_take, hb]
    | cons x l =>
      cases r with
      | nil => simp [List.take_take, Nat.le_of_succ_le_succ ha]
      | cons y r =>
        rw [List.take_succ_cons, List.take_succ_cons, List.cons_merge_cons, List.cons_merge_cons]
        split
        · exact congrArg (x :: ·) (ih (a := a) (b := b + 1) (by omega) (by omega) l (y :: r))
        · exact congrArg (y :: ·) (ih (a := a + 1) (b := b) (by omega) (by omega) (x :: l) r)

/-- Sorting and cutting the parts first does not change the first `n` of the sorted whole, ties
included. -/
theorem take_sort_flatMap (key : α → κ) (parts : List (List α)) (n : Nat) :
    ((parts.flatMap fun l => (l.insertionSort fun a b => key b ≤ key a).take n).insertionSort
      fun a b => key b ≤ key a).take n =
        (parts.flatten.insertionSort fun a b => key b ≤ key a).take n := by
  induction parts with
  | nil => rfl
  | cons l parts ih =>
    have hsorted : ((l.insertionSort fun a b => key b ≤ key a).take n).insertionSort
        (fun a b => key b ≤ key a) = (l.insertionSort fun a b => key b ≤ key a).take n :=
      (List.pairwise_insertionSort (fun a b => key b ≤ key a) l).take.insertionSort_eq
    rw [List.flatMap_cons, List.flatten_cons, sort_append, sort_append, hsorted]
    rw [← take_merged le_rfl le_rfl, List.take_take, min_self, ih, take_merged le_rfl le_rfl]

theorem sort_flatMap (key : α → κ) (parts : List (List α)) :
    (parts.flatMap fun l => l.insertionSort fun a b => key b ≤ key a).insertionSort
      (fun a b => key b ≤ key a) = parts.flatten.insertionSort fun a b => key b ≤ key a := by
  induction parts with
  | nil => rfl
  | cons l parts ih =>
    rw [List.flatMap_cons, List.flatten_cons, sort_append, sort_append, ih,
      (List.pairwise_insertionSort (fun a b => key b ≤ key a) l).insertionSort_eq]

end Merge
/-! ## Parts -/

section Parts
variable {key}

/-- A list, cut into parts by a function of its elements. -/
theorem perm_parts {β : Type} [DecidableEq β] (f : α → β) {ks : List β} (hks : ks.Nodup)
    (l : List α) :
    ((ks.flatMap fun k => l.filter fun a => f a = k) ++ l.filter fun a => f a ∉ ks).Perm l := by
  induction ks with
  | nil => simp
  | cons k ks ih =>
    obtain ⟨hk, hks⟩ := List.nodup_cons.mp hks
    have hcut : (l.filter (fun a => f a = k) ++ l.filter fun a => f a ∉ k :: ks).Perm
        (l.filter fun a => f a ∉ ks) := by
      have hsplit := List.filter_append_perm (fun a => decide (f a = k))
        (l.filter fun a => f a ∉ ks)
      rw [List.filter_filter, List.filter_filter] at hsplit
      refine List.Perm.trans (List.Perm.of_eq ?_) hsplit
      congr 1
      · refine List.filter_congr fun a _ => ?_
        by_cases h : f a = k
        · simp [h, hk]
        · simp [h]
      · refine List.filter_congr fun a _ => ?_
        simp [not_or]
    rw [List.flatMap_cons, List.append_assoc]
    refine (List.perm_append_comm_assoc _ _ _).trans ?_
    exact (hcut.append_left _).trans (ih hks)

/-- Selections from the parts, merged and cut again, are a selection from the whole. -/
theorem top_merge (parts : List (List α)) (n : Nat) :
    Top key parts.flatten (((parts.flatMap fun l =>
      (l.insertionSort fun a b => key b ≤ key a).take n).insertionSort
        fun a b => key b ≤ key a).take n) := by
  rw [take_sort_flatMap]
  exact top_take parts.flatten n

theorem length_parts_le (parts : List (List α)) (n : Nat) :
    (parts.flatMap fun l => (l.insertionSort fun a b => key b ≤ key a).take n).length ≤
      parts.flatten.length := by
  induction parts with
  | nil => simp
  | cons l parts ih =>
    rw [List.flatMap_cons, List.length_append, List.length_take, List.length_insertionSort,
      List.flatten_cons, List.length_append]
    omega

/-- Cutting the parts first does not change how many are left of the whole. -/
theorem length_merge (parts : List (List α)) (n : Nat) :
    (((parts.flatMap fun l => (l.insertionSort fun a b => key b ≤ key a).take n).insertionSort
      fun a b => key b ≤ key a).take n).length = min n parts.flatten.length := by
  rw [take_sort_flatMap, List.length_take, List.length_insertionSort]

end Parts
end Anyhook.Lib.Sorted
