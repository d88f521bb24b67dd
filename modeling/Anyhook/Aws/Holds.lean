import Anyhook.Aws.Contents

/-! The table of one store, its commands sent one at a time and its reads consistent. A
page may end anywhere. `Holds` says which logical rows the table holds; the methods of
DynamoStateStore are then reads and writes of logical rows. -/
namespace Anyhook.Aws.Store
open Anyhook.Core Anyhook.Testing Anyhook.Lib.Program Anyhook.Lib.OrderedMap Anyhook.Lib.Sorted
open Anyhook.Lib Anyhook.Lib.Scan

/-- The `n`-th command of all is decided by `answers n`. -/
def serve (answers : Nat → TableAnswer) (op : TableOp) (s : Table × Nat) :
    Except String (TableRes op) × (Table × Nat) :=
  (.ok (tableExec (answers s.2) op s.1).1, ((tableExec (answers s.2) op s.1).2, s.2 + 1))

def Table.size (t : Table) : Nat := t.rows.entries.length

structure Holds (t : Table) (C : Contents) : Prop where
  found : ∀ tenant (r : RowId), r.Plain →
    (t.rows.get (tenantPk tenant, r.sk)).map Row.attrs = C tenant r
  keyed : ∀ p ∈ t.rows.entries, p.2.key = p.1
  known : ∀ p ∈ t.rows.entries, ∃ tenant, ∃ r : RowId, r.Plain ∧ p.1 = (tenantPk tenant, r.sk)

theorem holds_empty : Holds .empty fun _ _ => none where
  found _ _ _ := rfl
  keyed := by
    intro p hp
    cases hp
  known := by
    intro p hp
    cases hp

/-! ## Single rows -/

section Rows
variable {t : Table} {C : Contents} {tenant : String} {r : RowId}

theorem key_eq_iff {tenant' : String} {r' : RowId} (hr : r.Plain) (hr' : r'.Plain) :
    (tenantPk tenant, r.sk) = (tenantPk tenant', r'.sk) ↔ tenant' = tenant ∧ r' = r := by
  constructor
  · intro h
    obtain ⟨hpk, hsk⟩ := Prod.mk.inj h
    exact ⟨(tenantPk_injective hpk).symm, (RowId.sk_injective hr hr' hsk).symm⟩
  · rintro ⟨rfl, rfl⟩
    rfl

theorem setList_length {κ β : Type} [DecidableEq κ] (k : κ) (v : β) (l : List (κ × β)) :
    (setList k v l).length ≤ l.length + 1 := by
  induction l with
  | nil => simp [setList]
  | cons p l ih =>
    obtain ⟨a, b⟩ := p
    unfold setList
    split
    · simp
    · simpa using ih

/-- What a put leaves. -/
def Table.put (t : Table) (tenant : String) (r : RowId) (a : Attrs) (version : Option Nat) :
    Table :=
  t.commit (tenantPk tenant, r.sk) (t.rows.set (tenantPk tenant, r.sk)
    { pk := tenantPk tenant, sk := r.sk, attrs := a, version := version })

theorem put_size (t : Table) (tenant : String) (r : RowId) (a : Attrs) (version : Option Nat) :
    (t.put tenant r a version).size ≤ t.size + 1 := setList_length _ _ _

theorem Holds.put (h : Holds t C) (hr : r.Plain) (a : Attrs) (version : Option Nat) :
    Holds (t.put tenant r a version) (C.set tenant r (some a)) where
  found := by
    intro tenant' r' hr'
    show ((t.rows.set _ _).get (tenantPk tenant', r'.sk)).map Row.attrs = _
    rw [OMap.get_set]
    simp only [key_eq_iff hr hr', Contents.set]
    split
    · rfl
    · exact h.found tenant' r' hr'
  keyed := by
    intro p hp
    obtain rfl | hp := OMap.mem_setList hp
    · rfl
    · exact h.keyed p hp
  known := by
    intro p hp
    obtain rfl | hp := OMap.mem_setList hp
    · exact ⟨tenant, r, hr, rfl⟩
    · exact h.known p hp

theorem Holds.delete (h : Holds t C) (hr : r.Plain) :
    Holds (t.commit (tenantPk tenant, r.sk) (t.rows.delete (tenantPk tenant, r.sk)))
      (C.set tenant r none) where
  found := by
    intro tenant' r' hr'
    show ((t.rows.delete _).get (tenantPk tenant', r'.sk)).map Row.attrs = _
    rw [OMap.get_delete]
    simp only [key_eq_iff hr hr', Contents.set]
    split
    · rfl
    · exact h.found tenant' r' hr'
  keyed p hp := h.keyed p (List.mem_of_mem_filter hp)
  known p hp := h.known p (List.mem_of_mem_filter hp)

end Rows

/-! ## Queries -/

section Queries
variable {t : Table} {C : Contents}

/-- Keys and attributes of the rows a query finds, in no order. -/
def Table.pairs (t : Table) (pk skPrefix : String) : List (String × Attrs) :=
  (t.rows.values.filter fun row => row.pk = pk && skPrefix.toList.isPrefixOf row.sk.toList).map
    fun row => (row.sk, row.attrs)

theorem select_map (t : Table) (pk skPrefix : String) :
    (t.select pk skPrefix).map (fun row => (row.sk, row.attrs)) =
      (t.pairs pk skPrefix).insertionSort fun a b => a.1 ≤ b.1 :=
  List.map_insertionSort _ _ _ _ fun _ _ _ _ => Iff.rfl

theorem Holds.sk_nodup (h : Holds t C) (pk skPrefix : String) :
    ((t.rows.values.filter fun row =>
      row.pk = pk && skPrefix.toList.isPrefixOf row.sk.toList).map Row.sk).Nodup := by
  have hkeys : (t.rows.values.map Row.key).Nodup := by
    have heq : t.rows.values.map Row.key = t.rows.entries.map Prod.fst := by
      rw [OMap.values, List.map_map]
      exact List.map_congr_left fun p hp => h.keyed p hp
    rw [heq]
    exact t.rows.nodup
  have hsub := hkeys.sublist (List.filter_sublist (p := fun row =>
    row.pk = pk && skPrefix.toList.isPrefixOf row.sk.toList).map Row.key)
  rw [List.Nodup, List.pairwise_map] at hsub ⊢
  refine List.Pairwise.imp_of_mem ?_ hsub
  intro a b ha hb hne hsk
  have hpa := List.mem_filter.mp ha
  have hpb := List.mem_filter.mp hb
  simp only [Bool.and_eq_true, decide_eq_true_eq] at hpa hpb
  exact hne (Prod.ext (hpa.2.1.trans hpb.2.1.symm) hsk)

/-- A query finds the rows of the tenant whose key begins so. -/
theorem Holds.mem_pairs (h : Holds t C) {tenant skPrefix sk : String} {a : Attrs} :
    (sk, a) ∈ t.pairs (tenantPk tenant) skPrefix ↔ ∃ r : RowId, r.Plain ∧ r.sk = sk ∧
      skPrefix.toList.isPrefixOf r.sk.toList = true ∧ C tenant r = some a := by
  unfold Table.pairs
  simp only [List.mem_map, List.mem_filter, Bool.and_eq_true, decide_eq_true_eq, Prod.mk.injEq]
  constructor
  · rintro ⟨row, ⟨hmem, hpk, hpre⟩, rfl, rfl⟩
    obtain ⟨⟨k, row'⟩, hp, rfl⟩ := List.mem_map.mp hmem
    obtain ⟨tenant', r, hr, hk⟩ := h.known _ hp
    obtain rfl : k = (tenantPk tenant', r.sk) := hk
    obtain ⟨hpk', hsk'⟩ := Prod.mk.inj (h.keyed _ hp)
    have htenant : tenant' = tenant := tenantPk_injective (hpk'.symm.trans hpk)
    subst htenant
    have hsk : row'.sk = r.sk := hsk'
    refine ⟨r, hr, hsk.symm, by rw [← hsk]; exact hpre, ?_⟩
    rw [← h.found _ r hr, OMap.get_of_mem hp]
    rfl
  · rintro ⟨r, hr, rfl, hpre, hc⟩
    rw [← h.found tenant r hr] at hc
    obtain ⟨row, hget, rfl⟩ := Option.map_eq_some_iff.mp hc
    have hp := OMap.mem_of_get hget
    obtain ⟨hpk, hsk⟩ := Prod.mk.inj (h.keyed _ hp)
    have hpk' : row.pk = tenantPk tenant := hpk
    have hsk' : row.sk = r.sk := hsk
    exact ⟨row, ⟨List.mem_map.mpr ⟨_, hp, rfl⟩, hpk', hsk' ▸ hpre⟩, hsk', rfl⟩

theorem Holds.pairs_nodup (h : Holds t C) (pk skPrefix : String) :
    ((t.pairs pk skPrefix).map Prod.fst).Nodup := by
  rw [Table.pairs, List.map_map]
  exact h.sk_nodup pk skPrefix

theorem Holds.select_sorted (h : Holds t C) (pk skPrefix : String) :
    (t.select pk skPrefix).Pairwise fun a b => a.sk < b.sk := sort_pairwise (h.sk_nodup pk skPrefix)

theorem select_length (t : Table) (pk skPrefix : String) :
    (t.select pk skPrefix).length ≤ t.size := by
  unfold Table.select
  rw [List.length_insertionSort]
  refine (List.length_filter_le _ _).trans ?_
  simp [OMap.values, Table.size]

variable {answers : Nat → TableAnswer} {n : Nat}

/-- The rows after a start key. -/
def after (start : Option String) (rows : List Row) : List Row :=
  rows.filter fun row => start.all fun key => decide (key < row.sk)

/-- What comes after the last row of a page is what the page left. -/
theorem after_page {rows : List Row} (hsorted : rows.Pairwise fun a b => a.sk < b.sk)
    {start : Option String} {k : Nat} {x : Row}
    (hx : ((after start rows).take k).getLast? = some x) :
    after (some x.sk) rows = (after start rows).drop k := by
  have hmem : x ∈ after start rows := List.mem_of_mem_take (List.mem_of_getLast? hx)
  have hstart : start.all (fun key => decide (key < x.sk)) = true := (List.mem_filter.mp hmem).2
  have hdrop : (after start rows).filter (fun a => decide (x.sk < a.sk)) =
      (after start rows).drop k := filter_after_take (hsorted.filter _) hx
  rw [← hdrop]
  unfold after
  rw [List.filter_filter]
  refine List.filter_congr fun row _ => ?_
  cases start with
  | none => simp
  | some key =>
    have hlt : key < x.sk := of_decide_eq_true hstart
    simp only [Option.all_some]
    by_cases hrow : x.sk < row.sk
    · rw [decide_eq_true hrow, decide_eq_true (hlt.trans hrow)]
      rfl
    · rw [decide_eq_false hrow]
      rfl

/-- A page without a last key is the rest. -/
theorem pageOf_items {a : TableAnswer} {rows : List Row} {start : Option String}
    (h : (pageOf a rows start).lastEvaluatedKey = none) :
    (pageOf a rows start).items = after start rows := by
  show (after start rows).take (a.size + 1) = after start rows
  change (if a.size + 1 < (after start rows).length ∨ a.more then
    ((after start rows).take (a.size + 1)).getLast?.map Row.sk else none) = none at h
  split at h
  · have htake := List.getLast?_eq_none_iff.mp (Option.map_eq_none_iff.mp h)
    cases hleft : after start rows with
    | nil => rfl
    | cons x left => simp [hleft] at htake
  · exact List.take_of_length_le (by omega)

/-- After the last key of a page comes what the page left, and the page was not empty. -/
theorem pageOf_lastEvaluatedKey {a : TableAnswer} {rows : List Row}
    (hsorted : rows.Pairwise fun a b => a.sk < b.sk) {start : Option String} {key : String}
    (h : (pageOf a rows start).lastEvaluatedKey = some key) :
    after (some key) rows = (after start rows).drop (a.size + 1) ∧ after start rows ≠ [] := by
  change (if a.size + 1 < (after start rows).length ∨ a.more then
    ((after start rows).take (a.size + 1)).getLast?.map Row.sk else none) = some key at h
  split at h
  · obtain ⟨x, hx, rfl⟩ := Option.map_eq_some_iff.mp h
    refine ⟨after_page hsorted hx, fun hnil => ?_⟩
    rw [hnil] at hx
    cases hx
  · cases h

/-- Paging through a query gives the rows after the start key, wherever pages end. -/
theorem Holds.queryAll_ends (h : Holds t C) (pk skPrefix : String) (pages : Nat) :
    ∀ (start : Option String) (n : Nat),
      (after start (t.select pk skPrefix)).length < pages →
      Prog.Ends (serve answers) (queryAll pk skPrefix pages start)
        (fun items s' => items = after start (t.select pk skPrefix) ∧ s'.1 = t) (t, n) := by
  induction pages with
  | zero =>
    intro start n hlt
    exact absurd hlt (Nat.not_lt_zero _)
  | succ pages ih =>
    intro start n hlt
    refine Prog.Ends.bind (P := fun page s' =>
      page = pageOf (answers n) (t.select pk skPrefix) start ∧ s' = (t, n + 1))
      ⟨_, _, rfl, rfl, rfl⟩ ?_
    intro page s' hpage
    obtain ⟨hpage, rfl⟩ := hpage
    cases hkey : page.lastEvaluatedKey with
    | none =>
      rw [hpage] at hkey
      exact Prog.ends_pure ⟨hpage ▸ pageOf_items hkey, rfl⟩
    | some key =>
      rw [hpage] at hkey
      obtain ⟨hrest, hne⟩ := pageOf_lastEvaluatedKey (h.select_sorted pk skPrefix) hkey
      refine Prog.Ends.bind (ih (some key) (n + 1) ?_) ?_
      · rw [hrest, List.length_drop]
        have := List.length_pos_iff.mpr hne
        omega
      · intro rest s' hr
        refine Prog.ends_pure ⟨?_, hr.2⟩
        rw [hr.1, hrest, hpage]
        exact List.take_append_drop _ _

/-- A whole query, with enough pages. -/
theorem Holds.query_ends (h : Holds t C) (pk skPrefix : String) {pages : Nat}
    (hpages : t.size < pages) (n : Nat) :
    Prog.Ends (serve answers) (queryAll pk skPrefix pages none)
      (fun items s' => items = t.select pk skPrefix ∧ s'.1 = t) (t, n) := by
  have hall : after none (t.select pk skPrefix) = t.select pk skPrefix :=
    List.filter_eq_self.mpr fun _ _ => rfl
  refine (h.queryAll_ends pk skPrefix pages none n ?_).mono ?_
  · rw [hall]
    exact (select_length t pk skPrefix).trans_lt hpages
  · intro items s' hq
    rwa [hall] at hq

theorem select_attrs (t : Table) (pk skPrefix : String) :
    (t.select pk skPrefix).map Row.attrs =
      ((t.pairs pk skPrefix).insertionSort fun a b => a.1 ≤ b.1).map Prod.snd := by
  rw [← select_map, List.map_map]
  rfl

/-- The rows of one family, in some order. -/
theorem Holds.select_entries (h : Holds t C) {β : Type} {tenant skPrefix : String}
    {m : OMap String β} {f : String → RowId} {g : β → Attrs} (hplain : ∀ id, (f id).Plain)
    (hf : ∀ id id', f id = f id' → id = id')
    (hfamily : ∀ r : RowId, r.Plain →
      (skPrefix.toList.isPrefixOf r.sk.toList = true ↔ ∃ id, r = f id))
    (hC : ∀ id, C tenant (f id) = (m.get id).map g) :
    ((t.select (tenantPk tenant) skPrefix).map Row.attrs).Perm (m.values.map g) := by
  rw [select_attrs]
  refine ((List.perm_insertionSort _ _).map _).trans ?_
  refine Scan.perm_entries (h.pairs_nodup _ _) (f := fun id => (f id).sk) ?_ ?_
  · intro id id' hsk
    exact hf _ _ (RowId.sk_injective (hplain _) (hplain _) hsk)
  · intro sk a
    rw [h.mem_pairs]
    constructor
    · rintro ⟨r, hr, rfl, hpre, hc⟩
      obtain ⟨id, rfl⟩ := (hfamily r hr).mp hpre
      rw [hC] at hc
      obtain ⟨x, hx, rfl⟩ := Option.map_eq_some_iff.mp hc
      exact ⟨id, x, hx, rfl, rfl⟩
    · rintro ⟨id, x, hx, rfl, rfl⟩
      refine ⟨f id, hplain id, rfl, (hfamily _ (hplain id)).mpr ⟨id, rfl⟩, ?_⟩
      rw [hC, hx]
      rfl

/-- The rows of one sequence, in the order of their numbers. -/
theorem Holds.select_numbered (h : Holds t C) {β : Type} {tenant skPrefix : String}
    {l : List β} {f : Nat → RowId} {g : β → Attrs} (hplain : ∀ seq, (f seq).Plain)
    (hfamily : ∀ r : RowId, r.Plain →
      (skPrefix.toList.isPrefixOf r.sk.toList = true ↔ ∃ seq, r = f seq))
    (hC : ∀ seq, C tenant (f seq) = (nth l seq).map g)
    (hlt : ∀ i j, i < j → j ≤ l.length → (f i).sk < (f j).sk) :
    (t.select (tenantPk tenant) skPrefix).map Row.attrs = l.map g := by
  rw [select_attrs]
  refine Scan.sort_numbered (h.pairs_nodup _ _) (f := fun seq _ => (f seq).sk) ?_
    fun i j _ _ => hlt i j
  intro sk a
  rw [h.mem_pairs]
  constructor
  · rintro ⟨r, hr, rfl, hpre, hc⟩
    obtain ⟨seq, rfl⟩ := (hfamily r hr).mp hpre
    rw [hC] at hc
    obtain ⟨x, hx, rfl⟩ := Option.map_eq_some_iff.mp hc
    exact ⟨seq, x, hx, rfl, rfl⟩
  · rintro ⟨seq, x, hx, rfl, rfl⟩
    refine ⟨f seq, hplain seq, rfl, (hfamily _ (hplain seq)).mpr ⟨seq, rfl⟩, ?_⟩
    rw [hC, hx]
    rfl

end Queries
end Anyhook.Aws.Store
