import Mathlib.Data.List.Nodup
import Mathlib.Data.List.Sort

/-! Maps that remember insertion order: setting a key already present keeps its
place, a new key goes last. Distinct keys are part of the type, so a lookup and
the list of values cannot disagree about a key. -/
namespace Anyhook.Lib.OrderedMap

variable {κ β : Type} [DecidableEq κ]

def getList (k : κ) : List (κ × β) → Option β
  | [] => none
  | (k', v) :: rest => if k' = k then some v else getList k rest

def setList (k : κ) (v : β) : List (κ × β) → List (κ × β)
  | [] => [(k, v)]
  | (k', v') :: rest => if k' = k then (k, v) :: rest else (k', v') :: setList k v rest

theorem getList_setList (k k' : κ) (v : β) (l : List (κ × β)) :
    getList k' (setList k v l) = if k = k' then some v else getList k' l := by
  induction l with
  | nil => simp [setList, getList]
  | cons p rest ih =>
    obtain ⟨a, b⟩ := p
    by_cases ha : a = k
    · subst ha
      by_cases hk : a = k' <;> simp [setList, getList, hk]
    · by_cases hk : a = k'
      · subst hk
        simp [setList, getList, ha, Ne.symm ha]
      · simp [setList, getList, ha, hk, ih]

theorem mem_keys_setList {k a : κ} {v : β} {l : List (κ × β)} :
    a ∈ (setList k v l).map Prod.fst ↔ a = k ∨ a ∈ l.map Prod.fst := by
  induction l with
  | nil => simp [setList]
  | cons p rest ih =>
    obtain ⟨b, w⟩ := p
    by_cases hb : b = k
    · subst hb; simp [setList]
    · simp only [setList, if_neg hb, List.map_cons, List.mem_cons, ih]
      exact or_left_comm

theorem nodup_setList (k : κ) (v : β) {l : List (κ × β)} (h : (l.map Prod.fst).Nodup) :
    ((setList k v l).map Prod.fst).Nodup := by
  induction l with
  | nil => simp [setList]
  | cons p rest ih =>
    obtain ⟨a, b⟩ := p
    obtain ⟨ha, hr⟩ := List.nodup_cons.mp h
    by_cases hk : a = k
    · subst hk; simpa [setList] using h
    · simp only [setList, if_neg hk, List.map_cons, List.nodup_cons]
      refine ⟨fun hm => ?_, ih hr⟩
      rcases mem_keys_setList.mp hm with rfl | hm
      · exact hk rfl
      · exact ha hm

/-- An insertion-ordered map. -/
structure OMap (κ β : Type) where
  entries : List (κ × β)
  nodup : (entries.map Prod.fst).Nodup

namespace OMap

omit [DecidableEq κ] in
@[ext] theorem ext {a b : OMap κ β} (h : a.entries = b.entries) : a = b := by
  cases a; cases b; simp_all

def empty : OMap κ β := ⟨[], List.nodup_nil⟩

def get (t : OMap κ β) (k : κ) : Option β := getList k t.entries

def set (t : OMap κ β) (k : κ) (v : β) : OMap κ β :=
  ⟨setList k v t.entries, nodup_setList k v t.nodup⟩

/-- Forget a key. -/
def delete (t : OMap κ β) (k : κ) : OMap κ β :=
  ⟨t.entries.filter fun p => p.1 ≠ k, t.nodup.sublist (List.filter_sublist.map _)⟩

def values (t : OMap κ β) : List β := t.entries.map Prod.snd

/-- The part of the map whose keys satisfy `P`, in the same order. -/
def restrict (P : κ → Bool) (t : OMap κ β) : OMap κ β :=
  ⟨t.entries.filter fun p => P p.1, t.nodup.sublist (List.filter_sublist.map _)⟩

theorem get_set (t : OMap κ β) (k k' : κ) (v : β) :
    (t.set k v).get k' = if k = k' then some v else t.get k' := getList_setList k k' v t.entries

@[simp] theorem get_set_self (t : OMap κ β) (k : κ) (v : β) : (t.set k v).get k = some v := by
  rw [get_set, if_pos rfl]

theorem get_set_of_ne (t : OMap κ β) {k k' : κ} (h : k ≠ k') (v : β) :
    (t.set k v).get k' = t.get k' := by
  rw [get_set, if_neg h]

theorem get_delete (t : OMap κ β) (k k' : κ) :
    (t.delete k).get k' = if k = k' then none else t.get k' := by
  obtain ⟨l, hl⟩ := t
  simp only [get, delete]
  clear hl
  induction l with
  | nil => simp [getList]
  | cons p rest ih =>
    obtain ⟨a, b⟩ := p
    by_cases ha : a = k
    · subst ha
      by_cases hk : a = k'
      · simpa [getList, hk] using ih
      · simpa [getList, hk] using ih
    · by_cases hk : a = k'
      · subst hk
        simp [getList, ha, Ne.symm ha]
      · simpa [getList, ha, hk] using ih

/-- What is listed under a key is what a lookup finds. -/
theorem get_of_mem {t : OMap κ β} {k : κ} {v : β} (h : (k, v) ∈ t.entries) : t.get k = some v := by
  obtain ⟨l, hl⟩ := t
  simp only [get] at h ⊢
  induction l with
  | nil => cases h
  | cons p rest ih =>
    obtain ⟨a, b⟩ := p
    obtain ⟨ha, hr⟩ := List.nodup_cons.mp hl
    rcases List.mem_cons.mp h with heq | hm
    · cases heq; simp [getList]
    · have hne : a ≠ k := by
        rintro rfl
        exact ha (List.mem_map.mpr ⟨(a, v), hm, rfl⟩)
      simpa [getList, hne] using ih hr hm

theorem mem_of_get {t : OMap κ β} {k : κ} {v : β} (h : t.get k = some v) : (k, v) ∈ t.entries := by
  obtain ⟨l, hl⟩ := t
  simp only [get] at h ⊢
  clear hl
  induction l with
  | nil => cases h
  | cons p rest ih =>
    obtain ⟨a, b⟩ := p
    by_cases ha : a = k
    · subst ha
      rw [getList, if_pos rfl] at h
      cases h
      exact List.mem_cons_self
    · rw [getList, if_neg ha] at h
      exact List.mem_cons_of_mem _ (ih h)

theorem mem_values {t : OMap κ β} {v : β} : v ∈ t.values ↔ ∃ k, t.get k = some v := by
  constructor
  · intro h
    obtain ⟨⟨k, _⟩, hmem, rfl⟩ := List.mem_map.mp h
    exact ⟨k, get_of_mem hmem⟩
  · intro ⟨k, h⟩
    exact List.mem_map.mpr ⟨(k, v), mem_of_get h, rfl⟩

theorem get_restrict (P : κ → Bool) (t : OMap κ β) (k : κ) :
    (t.restrict P).get k = if P k = true then t.get k else none := by
  cases hget : (t.restrict P).get k with
  | none =>
    split
    · rename_i hk
      cases hall : t.get k with
      | none => rfl
      | some v =>
        have hmem : (k, v) ∈ (t.restrict P).entries :=
          List.mem_filter.mpr ⟨mem_of_get hall, hk⟩
        rw [get_of_mem hmem] at hget
        cases hget
    · rfl
  | some v =>
    obtain ⟨hmem, hk⟩ := List.mem_filter.mp (mem_of_get hget)
    rw [if_pos hk, get_of_mem hmem]

/-- A write inside the part is a write to the part. -/
theorem restrict_set_of_pos {P : κ → Bool} (t : OMap κ β) {k : κ} (h : P k = true) (v : β) :
    (t.set k v).restrict P = (t.restrict P).set k v := by
  obtain ⟨l, hl⟩ := t
  apply ext
  simp only [set, restrict]
  clear hl
  induction l with
  | nil => simp [setList, h]
  | cons p rest ih =>
    obtain ⟨a, b⟩ := p
    by_cases ha : a = k
    · subst ha; simp [setList, h]
    · by_cases hp : P a = true <;> simp [setList, ha, hp, ih]

/-- A write outside the part leaves it alone. -/
theorem restrict_set_of_neg {P : κ → Bool} (t : OMap κ β) {k : κ} (h : P k ≠ true) (v : β) :
    (t.set k v).restrict P = t.restrict P := by
  obtain ⟨l, hl⟩ := t
  apply ext
  simp only [set, restrict]
  clear hl
  induction l with
  | nil => simp [setList, h]
  | cons p rest ih =>
    obtain ⟨a, b⟩ := p
    by_cases ha : a = k
    · subst ha; simp [setList, h]
    · by_cases hp : P a = true <;> simp [setList, ha, hp, ih]

theorem mem_setList {k : κ} {v : β} {l : List (κ × β)} {p : κ × β} (h : p ∈ setList k v l) :
    p = (k, v) ∨ p ∈ l := by
  induction l with
  | nil => exact .inl (by simpa [setList] using h)
  | cons q rest ih =>
    obtain ⟨a, b⟩ := q
    by_cases ha : a = k
    · simp only [setList, if_pos ha, List.mem_cons] at h
      exact h.imp_right (List.mem_cons_of_mem _)
    · simp only [setList, if_neg ha, List.mem_cons] at h
      rcases h with rfl | h
      · exact .inr List.mem_cons_self
      · exact (ih h).imp_right (List.mem_cons_of_mem _)

/-! ### Changing every value -/

section Map
variable {γ : Type} (f : β → γ)

def map (t : OMap κ β) : OMap κ γ :=
  ⟨t.entries.map fun p => (p.1, f p.2), by
    rw [List.map_map]
    exact t.nodup⟩

theorem get_map (t : OMap κ β) (k : κ) : (t.map f).get k = (t.get k).map f := by
  obtain ⟨l, hl⟩ := t
  simp only [get, map]
  clear hl
  induction l with
  | nil => rfl
  | cons p rest ih =>
    obtain ⟨a, b⟩ := p
    by_cases ha : a = k
    · simp [getList, ha]
    · simpa [getList, ha] using ih

omit [DecidableEq κ] in
theorem values_map (t : OMap κ β) : (t.map f).values = t.values.map f := by
  simp only [values, map, List.map_map]
  rfl

theorem map_set (t : OMap κ β) (k : κ) (v : β) : (t.set k v).map f = (t.map f).set k (f v) := by
  obtain ⟨l, hl⟩ := t
  apply ext
  simp only [set, map]
  clear hl
  induction l with
  | nil => rfl
  | cons p rest ih =>
    obtain ⟨a, b⟩ := p
    by_cases ha : a = k
    · simp [setList, ha]
    · simp [setList, ha, ih]

theorem map_delete (t : OMap κ β) (k : κ) : (t.delete k).map f = (t.map f).delete k := by
  apply ext
  simp only [delete, map, List.filter_map]
  rfl

end Map

end OMap

/-! ## Maps of values that know their own key -/

/-- An insertion-ordered map in which every value stands under its own key. -/
structure KMap {κ β : Type} (key : β → κ) extends OMap κ β where
  keyed : ∀ p ∈ entries, key p.2 = p.1

namespace KMap
variable {key : β → κ}

def empty : KMap key := ⟨.empty, nofun⟩

def set (t : KMap key) (k : κ) (v : β) (h : key v = k) : KMap key :=
  ⟨t.toOMap.set k v, fun p hp => by
    rcases OMap.mem_setList hp with rfl | hp
    · exact h
    · exact t.keyed p hp⟩

/-- Forget a key. -/
def delete (t : KMap key) (k : κ) : KMap key :=
  ⟨t.toOMap.delete k, fun p hp => t.keyed p (List.mem_of_mem_filter hp)⟩

theorem key_of_get {t : KMap key} {k : κ} {v : β} (h : t.get k = some v) : key v = k := by
  have hk := t.keyed
  simp only [OMap.get] at h
  generalize t.entries = l at h hk
  induction l with
  | nil => cases h
  | cons p rest ih =>
    obtain ⟨a, b⟩ := p
    by_cases ha : a = k
    · subst ha
      rw [getList, if_pos rfl] at h
      cases h
      exact hk (a, v) List.mem_cons_self
    · rw [getList, if_neg ha] at h
      exact ih h fun p hp => hk p (List.mem_cons_of_mem _ hp)

omit [DecidableEq κ] in
/-- No two values of the map have one key. -/
theorem nodup_keys (t : KMap key) : (t.values.map key).Nodup := by
  have h : t.values.map key = t.entries.map Prod.fst := by
    rw [OMap.values, List.map_map]
    exact List.map_congr_left fun p hp => t.keyed p hp
  rw [h]
  exact t.nodup

/-! ### In the order of the keys -/

section Sorted
variable {ι : Type} [LinearOrder ι] [DecidableEq ι] {key : β → ι}

/-- The same map, its keys in order. -/
def sorted (t : KMap key) : KMap key where
  entries := t.entries.insertionSort fun p q => p.1 ≤ q.1
  nodup := ((List.perm_insertionSort _ t.entries).map Prod.fst).nodup_iff.mpr t.nodup
  keyed p hp := t.keyed p ((List.mem_insertionSort _).mp hp)

theorem get_sorted (t : KMap key) (k : ι) : t.sorted.get k = t.get k := by
  have hmem : ∀ p, p ∈ t.sorted.entries ↔ p ∈ t.entries := fun p => List.mem_insertionSort _
  cases hget : t.get k with
  | some v => exact OMap.get_of_mem ((hmem _).mpr (OMap.mem_of_get hget))
  | none =>
    cases hsorted : t.sorted.get k with
    | none => rfl
    | some v =>
      have hfound := OMap.get_of_mem ((hmem _).mp (OMap.mem_of_get hsorted))
      rw [hget] at hfound
      cases hfound

omit [DecidableEq ι] in
theorem sorted_pairwise (t : KMap key) :
    t.sorted.entries.Pairwise fun p q => p.1 < q.1 := by
  have hle : (t.entries.insertionSort fun p q => p.1 ≤ q.1).Pairwise fun p q => p.1 ≤ q.1 := by
    have htotal : Std.Total fun p q : ι × β => p.1 ≤ q.1 := ⟨fun p q => le_total p.1 q.1⟩
    have htrans : IsTrans (ι × β) fun p q => p.1 ≤ q.1 := ⟨fun _ _ _ => le_trans⟩
    exact List.pairwise_insertionSort _ _
  have hne : t.sorted.entries.Pairwise fun p q => p.1 ≠ q.1 :=
    List.pairwise_map.mp t.sorted.nodup
  exact hle.imp₂ (fun p q h hne => lt_of_le_of_ne h hne) hne

end Sorted

end KMap
end Anyhook.Lib.OrderedMap
