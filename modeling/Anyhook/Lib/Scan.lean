import Anyhook.Lib.OrderedMap
import Anyhook.Lib.Sorted
import Mathlib.Algebra.GroupWithZero.Nat
import Mathlib.Data.String.Basic

/-! Scans of a store with text keys. A key starts with the tag of its family of rows; a scan
finds the rows whose key starts with a given text, in no order or in the order of keys.
The rows found stand for the entries of a map, or for a sequence kept by number. -/
namespace Anyhook.Lib.Scan
open Anyhook.Lib.OrderedMap Anyhook.Lib.Sorted

/-! ## Keys -/

/-- Where no tag starts another, a text that starts with two tags has one. -/
theorem tag_eq_of_prefix {R : Type} {tag : R → List Char}
    (hfree : ∀ r r', tag r <+: tag r' → tag r = tag r') {r r' : R} {text : List Char}
    (h : tag r <+: text) (h' : tag r' <+: text) : tag r = tag r' := by
  obtain hle | hge := List.prefix_or_prefix_of_prefix h h'
  · exact hfree r r' hle
  · exact (hfree r' r hge).symm

/-- Where the first part's weight is known, the two parts of a text can be told apart. -/
theorem append_inj_of_sum {w : Char → Nat} (hw : ∀ c, 0 < w c) {a a' b b' : List Char}
    (h : a ++ b = a' ++ b') (hsum : (a.map w).sum = (a'.map w).sum) : a = a' ∧ b = b' := by
  induction a generalizing a' with
  | nil =>
    cases a' with
    | nil => exact ⟨rfl, h⟩
    | cons c a' =>
      have hc := hw c
      simp only [List.map_nil, List.sum_nil, List.map_cons, List.sum_cons] at hsum
      omega
  | cons c a ih =>
    cases a' with
    | nil =>
      have hc := hw c
      simp only [List.map_nil, List.sum_nil, List.map_cons, List.sum_cons] at hsum
      omega
    | cons c' a' =>
      obtain ⟨rfl, htail⟩ := List.cons.inj h
      simp only [List.map_cons, List.sum_cons] at hsum
      obtain ⟨rfl, rfl⟩ := ih htail (by omega)
      exact ⟨rfl, rfl⟩

/-- Texts with one beginning are ordered by what follows. -/
theorem append_lt_append_iff (p a b : List Char) : p ++ a < p ++ b ↔ a < b := by
  induction p with
  | nil => rfl
  | cons c p ih =>
    rw [List.cons_append, List.cons_append, List.cons_lt_cons_iff]
    simp [ih]

/-- Of two beginnings of one length the smaller decides. -/
theorem append_lt_append {a a' : List Char} (b b' : List Char) (hlen : a.length = a'.length)
    (h : a < a') : a ++ b < a' ++ b' := by
  induction a generalizing a' with
  | nil =>
    obtain rfl : a' = [] := List.length_eq_zero_iff.mp hlen.symm
    exact absurd h (lt_irrefl _)
  | cons c a ih =>
    cases a' with
    | nil => cases hlen
    | cons c' a' =>
      rw [List.cons_append, List.cons_append, List.cons_lt_cons_iff]
      obtain hc | ⟨rfl, htail⟩ := List.cons_lt_cons_iff.mp h
      · exact Or.inl hc
      · exact Or.inr ⟨rfl, ih (by simpa using hlen) htail⟩

/-! ## What a scan finds -/

section Found
variable {β γ : Type} {pairs : List (String × γ)}

/-- The rows of a map's entries. -/
theorem perm_entries (hnodup : (pairs.map Prod.fst).Nodup) {m : OMap String β}
    {f : String → String} (hf : ∀ id id', f id = f id' → id = id') {g : β → γ}
    (hmem : ∀ k a, (k, a) ∈ pairs ↔ ∃ id x, m.get id = some x ∧ f id = k ∧ g x = a) :
    (pairs.map Prod.snd).Perm (m.values.map g) := by
  have hperm : pairs.Perm (m.entries.map fun p => (f p.1, g p.2)) := by
    refine (List.perm_ext_iff_of_nodup hnodup.of_map ?_).mpr ?_
    · refine List.Nodup.of_map Prod.fst ?_
      rw [List.map_map]
      have hentries : (m.entries.map Prod.fst).Nodup := m.nodup
      rw [List.Nodup, List.pairwise_map] at hentries ⊢
      exact hentries.imp fun hne heq => hne (hf _ _ heq)
    · intro p
      obtain ⟨k, a⟩ := p
      rw [hmem]
      constructor
      · rintro ⟨id, x, hget, rfl, rfl⟩
        exact List.mem_map.mpr ⟨(id, x), OMap.mem_of_get hget, rfl⟩
      · intro hp
        obtain ⟨⟨id, x⟩, hx, heq⟩ := List.mem_map.mp hp
        obtain ⟨rfl, rfl⟩ := Prod.mk.inj heq
        exact ⟨id, x, OMap.get_of_mem hx, rfl, rfl⟩
  have hvalues : m.values.map g = (m.entries.map fun p => (f p.1, g p.2)).map Prod.snd := by
    rw [OMap.values, List.map_map, List.map_map]
    rfl
  rw [hvalues]
  exact hperm.map _

/-- The rows of a map's entries, sorted by key, where the map has its entries in that order. -/
theorem sort_entries (hnodup : (pairs.map Prod.fst).Nodup) {m : OMap String β}
    {f : String → String} (hsorted : m.entries.Pairwise fun p q => f p.1 < f q.1) {g : β → γ}
    (hmem : ∀ k a, (k, a) ∈ pairs ↔ ∃ id x, m.get id = some x ∧ f id = k ∧ g x = a) :
    (pairs.insertionSort fun a b => a.1 ≤ b.1).map Prod.snd = m.values.map g := by
  have hsort : pairs.insertionSort (fun a b => a.1 ≤ b.1) =
      m.entries.map fun p => (f p.1, g p.2) := by
    refine sort_eq hnodup ?_ ?_
    · rw [List.pairwise_map]
      exact hsorted
    · intro p
      obtain ⟨k, a⟩ := p
      rw [hmem]
      constructor
      · rintro ⟨id, x, hget, rfl, rfl⟩
        exact List.mem_map.mpr ⟨(id, x), OMap.mem_of_get hget, rfl⟩
      · intro hp
        obtain ⟨⟨id, x⟩, hx, heq⟩ := List.mem_map.mp hp
        obtain ⟨rfl, rfl⟩ := Prod.mk.inj heq
        exact ⟨id, x, OMap.get_of_mem hx, rfl, rfl⟩
  rw [hsort, OMap.values, List.map_map, List.map_map]
  rfl

/-- The `seq`-th of a list of rows; sequence numbers start at 1. -/
def nth {α : Type} (rows : List α) : Nat → Option α
  | 0 => none
  | n + 1 => rows[n]?

theorem nth_concat {α : Type} (rows : List α) (x : α) (seq : Nat) :
    nth (rows ++ [x]) seq = if seq = rows.length + 1 then some x else nth rows seq := by
  cases seq with
  | zero => simp [nth]
  | succ n =>
    simp only [nth, Nat.add_right_cancel_iff]
    rw [List.getElem?_append]
    by_cases hlt : n < rows.length
    · rw [if_pos hlt, if_neg (by omega)]
    · rw [if_neg hlt]
      by_cases heq : n = rows.length
      · simp [heq]
      · rw [if_neg heq, List.getElem?_eq_none (by simp; omega), List.getElem?_eq_none (by omega)]

theorem mem_zipIdx_iff {α : Type} {rows : List α} {x : α} {seq : Nat} :
    (x, seq) ∈ rows.zipIdx 1 ↔ nth rows seq = some x := by
  rw [List.mk_mem_zipIdx_iff_le_and_getElem?_sub]
  cases seq with
  | zero => simp [nth]
  | succ n => simp [nth]

/-- The rows of a sequence, sorted by key, are in the order of their numbers. -/
theorem sort_numbered (hnodup : (pairs.map Prod.fst).Nodup) {l : List β}
    {f : Nat → β → String} {g : β → γ}
    (hmem : ∀ k a, (k, a) ∈ pairs ↔ ∃ seq x, nth l seq = some x ∧ f seq x = k ∧ g x = a)
    (hlt : ∀ i j x y, i < j → j ≤ l.length → f i x < f j y) :
    (pairs.insertionSort fun a b => a.1 ≤ b.1).map Prod.snd = l.map g := by
  have hsort : pairs.insertionSort (fun a b => a.1 ≤ b.1) =
      (l.zipIdx 1).map fun p => (f p.2 p.1, g p.1) := by
    refine sort_eq hnodup ?_ ?_
    · rw [List.pairwise_map, List.pairwise_iff_getElem]
      intro i j hi hj hij
      simp only [List.length_zipIdx] at hi hj
      simp only [List.getElem_zipIdx]
      exact hlt _ _ _ _ (by omega) (by omega)
    · intro p
      obtain ⟨k, a⟩ := p
      rw [hmem]
      constructor
      · rintro ⟨seq, x, hx, rfl, rfl⟩
        exact List.mem_map.mpr ⟨(x, seq), mem_zipIdx_iff.mpr hx, rfl⟩
      · intro hp
        obtain ⟨⟨x, seq⟩, hx, heq⟩ := List.mem_map.mp hp
        obtain ⟨rfl, rfl⟩ := Prod.mk.inj heq
        exact ⟨seq, x, mem_zipIdx_iff.mp hx, rfl, rfl⟩
  rw [hsort, List.map_map]
  show (l.zipIdx 1).map (fun p => g p.1) = l.map g
  rw [show (fun p : β × Nat => g p.1) = g ∘ Prod.fst from rfl, ← List.map_map,
    List.zipIdx_map_fst]

end Found
end Anyhook.Lib.Scan
