import Anyhook.Cloudflare.Slots

/-! Storage operations, one at a time, on objects that hold given slots. Reads and writes of
the two classes are then reads and writes of slots, and a listing finds one family of one
object. -/
namespace Anyhook.Cloudflare.Store
open Anyhook.Core Anyhook.Testing Anyhook.Lib Anyhook.Lib.Program Anyhook.Lib.OrderedMap
open Anyhook.Lib.Sorted Anyhook.Lib.Scan Anyhook.Lib.Padded

structure Holds (c : Cloud) (C : Slot → Option Val) : Prop where
  found : ∀ r : Slot, (c r.stub).get r.key = C r
  known : ∀ o, ∀ p ∈ (c o).entries, ∃ r : Slot, r.stub = o ∧ r.key = p.1

theorem holds_empty : Holds .empty fun _ => none where
  found _ := rfl
  known := by
    intro o p hp
    cases hp

section Slots
variable {c : Cloud} {C : Slot → Option Val} {r : Slot}

theorem Holds.put (h : Holds c C) (r : Slot) (v : Val) :
    Holds (c.put r.stub r.key v) (Function.update C r (some v)) where
  found := by
    intro r'
    unfold Cloud.put
    rw [Function.update_apply C]
    by_cases hr : r' = r
    · rw [hr, if_pos rfl, Function.update_self, OMap.get_set_self]
    · rw [if_neg hr, ← h.found r']
      by_cases hstub : r'.stub = r.stub
      · rw [hstub, Function.update_self, OMap.get_set_of_ne]
        exact fun hkey => hr (Slot.place_injective hstub hkey.symm)
      · rw [Function.update_of_ne hstub]
  known := by
    intro o p hp
    unfold Cloud.put at hp
    by_cases ho : o = r.stub
    · subst ho
      rw [Function.update_self] at hp
      obtain rfl | hp := OMap.mem_setList hp
      · exact ⟨r, rfl, rfl⟩
      · exact h.known _ p hp
    · rw [Function.update_of_ne ho] at hp
      exact h.known o p hp

theorem Holds.delete (h : Holds c C) (r : Slot) :
    Holds (c.delete r.stub r.key) (Function.update C r none) where
  found := by
    intro r'
    unfold Cloud.delete
    rw [Function.update_apply C]
    by_cases hr : r' = r
    · rw [hr, if_pos rfl, Function.update_self, OMap.get_delete, if_pos rfl]
    · rw [if_neg hr, ← h.found r']
      by_cases hstub : r'.stub = r.stub
      · rw [hstub, Function.update_self, OMap.get_delete, if_neg]
        exact fun hkey => hr (Slot.place_injective hstub hkey.symm)
      · rw [Function.update_of_ne hstub]
  known := by
    intro o p hp
    unfold Cloud.delete at hp
    by_cases ho : o = r.stub
    · subst ho
      rw [Function.update_self] at hp
      exact h.known _ p (List.mem_of_mem_filter hp)
    · rw [Function.update_of_ne ho] at hp
      exact h.known o p hp

theorem storagePut_ends (h : Holds c C) (r : Slot) (v : Val) :
    Prog.Ends cloudExec (storage (.put r.stub r.key v))
      (fun _ c' => Holds c' (Function.update C r (some v))) c :=
  ⟨(), _, rfl, h.put r v⟩

/-- A value of the right family is taken for what it is. -/
theorem storageGet_stored {α : Type} {pick : Val → Option α} {x : Option α} {g : α → Val}
    (h : Holds c C) (r : Slot) (hC : C r = x.map g) (hpick : ∀ a, pick (g a) = some a) :
    Prog.Ends cloudExec (storageGet pick r.stub r.key) (fun found c' => found = x ∧ c' = c) c := by
  refine Prog.Ends.bind (P := fun v c' => v = C r ∧ c' = c) ⟨_, _, rfl, h.found r, rfl⟩ ?_
  intro v c' ⟨hv, hc'⟩
  subst hv hc'
  rw [hC]
  cases x with
  | none => exact Prog.ends_pure ⟨rfl, rfl⟩
  | some a =>
    have htyped : typed pick (g a) = pure a := by
      unfold typed
      rw [hpick]
    dsimp only [Option.map_some]
    rw [htyped]
    exact Prog.ends_pure ⟨rfl, rfl⟩

end Slots

/-! ## Listings -/

/-- The values of a listing. -/
def Cloud.values {α : Type} (c : Cloud) (pick : Val → Option α) (o : Stub) (f : Family) : List α :=
  (c.list o f.tag).filterMap fun p => pick p.2

section Listings
variable {c : Cloud} {C : Slot → Option Val} {o : Stub} {f : Family}

theorem typedAll_eq {α : Type} {pick : Val → Option α} :
    ∀ {rows : List (String × Val)}, (∀ p ∈ rows, ∃ x, pick p.2 = some x) →
      typedAll pick rows = pure (rows.filterMap fun p => pick p.2)
  | [], _ => rfl
  | p :: rows, h => by
    obtain ⟨x, hx⟩ := h p List.mem_cons_self
    have htyped : typed pick p.2 = pure x := by
      unfold typed
      rw [hx]
    unfold typedAll
    rw [htyped, typedAll_eq fun p hp => h p (List.mem_cons_of_mem _ hp), List.filterMap_cons, hx]
    rfl

theorem storageList_ends {α : Type} {pick : Val → Option α}
    (hpick : ∀ p ∈ c.list o f.tag, ∃ x, pick p.2 = some x) :
    Prog.Ends cloudExec (storageList pick o f.tag)
      (fun xs c' => xs = c.values pick o f ∧ c' = c) c := by
  refine Prog.Ends.bind (P := fun rows c' => rows = c.list o f.tag ∧ c' = c)
    ⟨_, _, rfl, rfl, rfl⟩ ?_
  intro rows c' ⟨hrows, hc'⟩
  rw [hrows, typedAll_eq hpick]
  exact Prog.ends_pure ⟨rfl, hc'⟩

/-- The entries of a listing before they are sorted. -/
def Cloud.pairs (c : Cloud) (o : Stub) (f : Family) : List (String × Val) :=
  (c o).entries.filter fun p => f.tag.toList.isPrefixOf p.1.toList

theorem pairs_nodup (c : Cloud) (o : Stub) (f : Family) :
    ((c.pairs o f).map Prod.fst).Nodup :=
  (c o).nodup.sublist (List.filter_sublist.map _)

/-- A listing finds the slots of one family of the object. -/
theorem Holds.mem_pairs (h : Holds c C) {k : String} {v : Val} :
    (k, v) ∈ c.pairs o f ↔
      ∃ r : Slot, r.stub = o ∧ r.family = f ∧ r.key = k ∧ C r = some v := by
  unfold Cloud.pairs
  rw [List.mem_filter]
  constructor
  · intro ⟨hmem, hpre⟩
    obtain ⟨r, rfl, hk⟩ := h.known o _ hmem
    obtain rfl : r.key = k := hk
    exact ⟨r, rfl, (r.tag_prefix_iff f).mp hpre, rfl, by rw [← h.found, OMap.get_of_mem hmem]⟩
  · rintro ⟨r, rfl, rfl, rfl, hv⟩
    refine ⟨OMap.mem_of_get ?_, (r.tag_prefix_iff r.family).mpr rfl⟩
    rw [h.found, hv]

/-- The slots of one family stand for the entries of a map. -/
theorem Holds.list_entries (h : Holds c C) {β : Type} {m : OMap String β} {g : β → Val}
    {k : String → Slot} (hk : ∀ r : Slot, r.stub = o → r.family = f → ∃ id, r = k id)
    (hstub : ∀ id, (k id).stub = o) (hfamily : ∀ id, (k id).family = f)
    (hinj : ∀ id id', k id = k id' → id = id') (hC : ∀ id, C (k id) = (m.get id).map g) :
    ((c.list o f.tag).map Prod.snd).Perm (m.values.map g) := by
  refine ((List.perm_insertionSort _ _).map _).trans ?_
  refine perm_entries (pairs_nodup c o f) (f := fun id => (k id).key) ?_ ?_
  · intro id id' hkey
    exact hinj _ _ (Slot.place_injective ((hstub id).trans (hstub id').symm) hkey)
  · intro text v
    rw [show (text, v) ∈ _ ↔ _ from h.mem_pairs (o := o) (f := f)]
    constructor
    · rintro ⟨r, ho, hf, rfl, hv⟩
      obtain ⟨id, rfl⟩ := hk r ho hf
      rw [hC] at hv
      obtain ⟨x, hx, rfl⟩ := Option.map_eq_some_iff.mp hv
      exact ⟨id, x, hx, rfl, rfl⟩
    · rintro ⟨id, x, hx, rfl, rfl⟩
      refine ⟨k id, hstub id, hfamily id, rfl, ?_⟩
      rw [hC, hx]
      rfl

/-- Values that are all of one family, in some order. -/
theorem values_perm {α : Type} {pick : Val → Option α} {g : α → Val}
    (hpick : ∀ x, pick (g x) = some x) {xs : List α}
    (h : ((c.list o f.tag).map Prod.snd).Perm (xs.map g)) :
    (∀ p ∈ c.list o f.tag, ∃ x, pick p.2 = some x) ∧ (c.values pick o f).Perm xs := by
  constructor
  · intro p hp
    obtain ⟨x, -, hx⟩ := List.mem_map.mp (h.subset (List.mem_map_of_mem hp))
    exact ⟨x, by rw [← hx, hpick]⟩
  · have hfilter := h.filterMap pick
    rw [List.filterMap_map, List.filterMap_map, show pick ∘ g = some from funext hpick,
      List.filterMap_some] at hfilter
    exact hfilter

end Listings
end Anyhook.Cloudflare.Store
