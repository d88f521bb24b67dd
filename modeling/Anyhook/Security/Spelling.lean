import Anyhook.Security.Ipv6

/-! The text forms of an IPv6 address: groups of one to four hexadecimal digits of either
case, `::` once for one or more zero pieces, and the last two pieces in dotted form where
one likes. Splitting a spelling at its colons gives the groups back. -/
namespace Anyhook.Security
open Anyhook.Lib.Regex

/-! ## Spellings -/

def IsGroup (g : List Char) : Prop := 1 ≤ g.length ∧ g.length ≤ 4 ∧ ∀ c ∈ g, c ∈ hexDigits

def IsOctets (o : Octets) : Prop := o.a < 256 ∧ o.b < 256 ∧ o.c < 256 ∧ o.d < 256

/-- The dotted form, each number in decimal without leading zeros. -/
def Octets.text (o : Octets) : List Char :=
  ['.'].intercalate ([o.a, o.b, o.c, o.d].map (Nat.toDigits 10))

def Octets.pieces (o : Octets) : List Nat := [o.a * 256 + o.b, o.c * 256 + o.d]

/-- Groups, with a dotted tail or without. -/
structure Part where
  groups : List (List Char)
  tail : Option Octets
  isGroup : ∀ g ∈ groups, IsGroup g
  isOctets : ∀ o ∈ tail, IsOctets o

namespace Part

def tokens (P : Part) : List (List Char) := P.groups ++ P.tail.toList.map Octets.text

def text (P : Part) : List Char := [':'].intercalate P.tokens

def values (P : Part) : List Nat :=
  P.groups.map (parseInt 16) ++ P.tail.toList.flatMap Octets.pieces

end Part

/-- `s` is a text form of `A`. -/
inductive Spells : List Char → Address → Prop where
  | full {A : Address} (P : Part) (h : P.values = A.pieces) : Spells P.text A
  | compressed {A : Address} (L R : Part) (k : Nat) (hk : 1 ≤ k) (hL : L.tail = none)
      (h : L.values ++ List.replicate k 0 ++ R.values = A.pieces) :
      Spells (L.text ++ "::".toList ++ R.text) A

/-! ## Digits -/

theorem digitValue_lt {c : Char} (h : c ∈ hexDigits) : digitValue c < 16 := by
  have hall : ∀ c ∈ hexDigits, digitValue c < 16 :=
    List.all_iff_forall_prop.mp (by decide)
  exact hall c h

theorem toLower_hexDigit {c : Char} (h : c ∈ hexDigits) :
    c.toLower ∈ lowerHexDigits ∧ digitValue c.toLower = digitValue c := by
  have hall : ∀ c ∈ hexDigits,
      c.toLower ∈ lowerHexDigits ∧ digitValue c.toLower = digitValue c :=
    List.all_iff_forall_prop.mp (by decide)
  exact hall c h

theorem mem_hexDigits {c : Char} (h : c ∈ lowerHexDigits) : c ∈ hexDigits := by
  have hall : ∀ c ∈ lowerHexDigits, c ∈ hexDigits :=
    List.all_iff_forall_prop.mp (by decide)
  exact hall c h

/-- The decimal text of a byte: one to three digits, no zero before another digit. -/
structure IsByteText (n : Nat) (s : List Char) : Prop where
  ne_nil : s ≠ []
  length_le : s.length ≤ 3
  digit : ∀ c ∈ s, c ∈ digits
  zero : s.head? = some '0' → s.tail = []
  value : parseInt 10 s = n

theorem isByteText {n : Nat} (h : n < 256) : IsByteText n (Nat.toDigits 10 n) := by
  have hall : ∀ n < 256, Nat.toDigits 10 n ≠ [] ∧ (Nat.toDigits 10 n).length ≤ 3 ∧
      (Nat.toDigits 10 n).all (· ∈ digits) = true ∧
      ((Nat.toDigits 10 n).head? = some '0' → (Nat.toDigits 10 n).tail = []) ∧
      parseInt 10 (Nat.toDigits 10 n) = n := by decide +kernel
  obtain ⟨hne, hlen, hdigit, hzero, hvalue⟩ := hall n h
  exact ⟨hne, hlen, List.all_iff_forall_prop.mp hdigit, hzero, hvalue⟩

/-! ## Tokens -/

theorem IsGroup.ne_nil {g : List Char} (h : IsGroup g) : g ≠ [] := by
  intro he
  rw [he] at h
  exact absurd h.1 (by decide)

theorem IsGroup.not_mem {g : List Char} (h : IsGroup g) {c : Char} (hc : c ∉ hexDigits) :
    c ∉ g := fun hmem => hc (h.2.2 c hmem)

theorem Octets.mem_text {o : Octets} (h : IsOctets o) {c : Char} (hc : c ∈ o.text) :
    c = '.' ∨ c ∈ digits := by
  obtain ⟨ha, hb, hc', hd⟩ := h
  rcases mem_intercalate hc with hc | ⟨l, hl, hc⟩
  · exact .inl (List.mem_singleton.mp hc)
  · obtain ⟨n, hn, rfl⟩ := List.mem_map.mp hl
    refine .inr ((isByteText ?_).digit c hc)
    simp only [List.mem_cons, List.not_mem_nil, or_false] at hn
    omega

theorem Octets.dot_mem_text (o : Octets) : '.' ∈ o.text := by
  simp [Octets.text, List.intercalate]

namespace Part
variable {P : Part}

theorem mem_tokens {t : List Char} (h : t ∈ P.tokens) :
    IsGroup t ∨ ∃ o, P.tail = some o ∧ IsOctets o ∧ t = o.text := by
  rcases List.mem_append.mp h with h | h
  · exact .inl (P.isGroup t h)
  · obtain ⟨o, ho, rfl⟩ := List.mem_map.mp h
    have ho : P.tail = some o := by simpa using ho
    exact .inr ⟨o, ho, P.isOctets o ho, rfl⟩

theorem mem_of_mem_token {t : List Char} (h : t ∈ P.tokens) {c : Char} (hc : c ∈ t) :
    c = '.' ∨ c ∈ hexDigits := by
  obtain hg | ⟨o, -, ho, rfl⟩ := mem_tokens h
  · exact .inr (hg.2.2 c hc)
  · refine (Octets.mem_text ho hc).imp_right fun hd => ?_
    have hsub : ∀ c ∈ digits, c ∈ hexDigits :=
      List.all_iff_forall_prop.mp (by decide)
    exact hsub c hd

theorem nil_not_mem_tokens : [] ∉ P.tokens := by
  intro h
  obtain hg | ⟨o, -, -, ho⟩ := mem_tokens h
  · exact hg.ne_nil rfl
  · have hdot := o.dot_mem_text
    rw [← ho] at hdot
    cases hdot

theorem colon_not_mem_token {t : List Char} (h : t ∈ P.tokens) : ':' ∉ t := by
  intro hc
  rcases mem_of_mem_token h hc with hc | hc
  · exact absurd hc (by decide)
  · exact absurd hc (by decide)

/-- Tokens without a dot are the groups of a part without a tail. -/
theorem values_of_plain (h : ∀ t ∈ P.tokens, '.' ∉ t) : P.values = P.tokens.map (parseInt 16) := by
  cases ht : P.tail with
  | none => simp [values, tokens, ht]
  | some o =>
    have hmem : o.text ∈ P.tokens := by simp [tokens, ht]
    exact absurd o.dot_mem_text (h _ hmem)

theorem values_eq_nil (h : P.tokens = []) : P.values = [] := by
  rw [values_of_plain (by simp [h]), h]
  rfl

end Part

theorem mem_intercalate_of_mem {α : Type} {sep : List α} {ls : List (List α)} {l : List α} {a : α}
    (hl : l ∈ ls) (ha : a ∈ l) : a ∈ sep.intercalate ls := by
  induction ls with
  | nil => cases hl
  | cons m ls ih =>
    cases ls with
    | nil =>
      obtain rfl := List.mem_singleton.mp hl
      rwa [List.intercalate_singleton]
    | cons m' ls =>
      rw [List.intercalate_cons_cons]
      rcases List.mem_cons.mp hl with rfl | hl
      · exact List.mem_append_left _ (List.mem_append_left _ ha)
      · exact List.mem_append_right _ (ih hl)

theorem parseInt_zeros {radix : Nat} {s : List Char} (h : ∀ c ∈ s, c = '0') :
    parseInt radix s = 0 := by
  have hfold : ∀ s : List Char, (∀ c ∈ s, c = '0') →
      s.foldl (fun n c => radix * n + digitValue c) 0 = 0 := by
    intro s h
    induction s with
    | nil => rfl
    | cons c s ih =>
      obtain rfl := h c List.mem_cons_self
      exact ih fun c hc => h c (List.mem_cons_of_mem _ hc)
  exact hfold s h

/-- The tokens next to a `::`; where there are none the text begins or ends there. -/
def edge (ts : List (List Char)) : List (List Char) := if ts = [] then [[]] else ts

theorem splitOn_edge {P : Part} : P.text.splitOn ':' = edge P.tokens := by
  unfold edge
  split
  · rename_i h
    rw [Part.text, h]
    rfl
  · rename_i h
    exact List.splitOn_intercalate ':' (fun t ht => Part.colon_not_mem_token ht) h

/-- What splitting a spelling at its colons gives. -/
theorem Spells.splitOn {s : List Char} {A : Address} (h : Spells s A) :
    (∃ P : Part, s.splitOn ':' = P.tokens ∧ P.values = A.pieces) ∨
      ∃ (L R : Part) (k : Nat), 1 ≤ k ∧ L.tail = none ∧
        L.values ++ List.replicate k 0 ++ R.values = A.pieces ∧
        s.splitOn ':' = edge L.tokens ++ [] :: edge R.tokens := by
  cases h with
  | full P hP =>
    refine .inl ⟨P, ?_, hP⟩
    rw [splitOn_edge, edge, if_neg]
    intro ht
    have hlen := A.length_pieces
    rw [← hP, Part.values_eq_nil ht] at hlen
    cases hlen
  | compressed L R k hk hL hA =>
    refine .inr ⟨L, R, k, hk, hL, hA, ?_⟩
    rw [List.append_assoc, show "::".toList ++ R.text = ':' :: ([] ++ ':' :: R.text) from rfl,
      List.splitOn_append_cons_self, List.splitOn_append_cons_self, splitOn_edge, splitOn_edge]
    rfl

theorem edge_ne_nil (ts : List (List Char)) : edge ts ≠ [] := by
  unfold edge
  split
  · exact List.cons_ne_nil _ _
  · assumption

/-! ## Case -/

theorem map_intercalate {α β : Type} (f : α → β) (sep : List α) (ls : List (List α)) :
    (sep.intercalate ls).map f = (sep.map f).intercalate (ls.map (List.map f)) := by
  induction ls with
  | nil => rfl
  | cons l ls ih =>
    cases ls with
    | nil => simp
    | cons l' ls =>
      rw [List.intercalate_cons_cons, List.map_append, List.map_append, ih]
      simp only [List.map_cons, List.intercalate_cons_cons]

theorem IsGroup.asciiLower {g : List Char} (h : IsGroup g) : IsGroup (asciiLower g) := by
  refine ⟨by simpa [Security.asciiLower] using h.1, by simpa [Security.asciiLower] using h.2.1, ?_⟩
  intro c hc
  obtain ⟨d, hd, rfl⟩ := List.mem_map.mp hc
  exact mem_hexDigits (toLower_hexDigit (h.2.2 d hd)).1

theorem parseInt_asciiLower {g : List Char} (h : ∀ c ∈ g, c ∈ hexDigits) :
    parseInt 16 (asciiLower g) = parseInt 16 g := by
  unfold parseInt asciiLower
  rw [List.foldl_map]
  refine List.foldl_ext _ _ 0 fun n c hc => ?_
  rw [(toLower_hexDigit (h c hc)).2]

theorem Octets.asciiLower_text {o : Octets} (h : IsOctets o) : asciiLower o.text = o.text := by
  have hall : ∀ c ∈ '.' :: digits, c.toLower = c :=
    List.all_iff_forall_prop.mp (by decide)
  refine (List.map_congr_left fun c hc => ?_).trans (List.map_id _)
  exact hall c (List.mem_cons.mpr (Octets.mem_text h hc))

def Part.lower (P : Part) : Part where
  groups := P.groups.map asciiLower
  tail := P.tail
  isGroup := by
    intro g hg
    obtain ⟨u, hu, rfl⟩ := List.mem_map.mp hg
    exact (P.isGroup u hu).asciiLower
  isOctets := P.isOctets

theorem Part.values_lower (P : Part) : P.lower.values = P.values := by
  unfold values lower
  rw [List.map_map]
  congr 1
  exact List.map_congr_left fun g hg => parseInt_asciiLower (P.isGroup g hg).2.2

theorem Part.text_lower (P : Part) : P.lower.text = asciiLower P.text := by
  unfold text Security.asciiLower
  rw [map_intercalate]
  congr 1
  unfold tokens lower
  rw [List.map_append]
  congr 1
  rw [List.map_map]
  refine List.map_congr_left fun o ho => (Octets.asciiLower_text (P.isOctets o ?_)).symm
  simpa using ho

/-- The address does not depend on the case of the digits. -/
theorem Spells.asciiLower {s : List Char} {A : Address} (h : Spells s A) :
    Spells (asciiLower s) A := by
  cases h with
  | full P hP =>
    rw [← P.text_lower]
    exact .full P.lower (P.values_lower.trans hP)
  | compressed L R k hk hL hA =>
    have htext : Security.asciiLower (L.text ++ "::".toList ++ R.text) =
        L.lower.text ++ "::".toList ++ R.lower.text := by
      rw [L.text_lower, R.text_lower]
      simp [Security.asciiLower]
    rw [htext]
    refine .compressed L.lower R.lower k hk hL ?_
    rw [L.values_lower, R.values_lower, hA]

/-! ## Letters -/

theorem Part.mem_text {P : Part} {c : Char} (h : c ∈ P.text) :
    c = ':' ∨ c = '.' ∨ c ∈ hexDigits := by
  rcases mem_intercalate h with h | ⟨t, ht, hc⟩
  · exact .inl (List.mem_singleton.mp h)
  · exact .inr (mem_of_mem_token ht hc)

theorem Spells.mem {s : List Char} {A : Address} (h : Spells s A) {c : Char} (hc : c ∈ s) :
    c = ':' ∨ c = '.' ∨ c ∈ hexDigits := by
  cases h with
  | full P _ => exact P.mem_text hc
  | compressed L R k _ _ _ =>
    rcases List.mem_append.mp hc with hc | hc
    · rcases List.mem_append.mp hc with hc | hc
      · exact L.mem_text hc
      · exact .inl (by simpa using hc)
    · exact R.mem_text hc

theorem Spells.ascii {s : List Char} {A : Address} (h : Spells s A) {c : Char} (hc : c ∈ s) :
    c.toNat < 128 := by
  have hall : ∀ c ∈ ':' :: '.' :: hexDigits, c.toNat < 128 :=
    List.all_iff_forall_prop.mp (by decide)
  exact hall c (List.mem_cons.mpr ((h.mem hc).imp_right List.mem_cons.mpr))

theorem Spells.not_mem {s : List Char} {A : Address} (h : Spells s A) {c : Char}
    (hc : c ∉ ':' :: '.' :: hexDigits) : c ∉ s :=
  fun hmem => hc (List.mem_cons.mpr ((h.mem hmem).imp_right List.mem_cons.mpr))

theorem Spells.asciiLower_asciiLower {s : List Char} {A : Address} (h : Spells s A) :
    Security.asciiLower (Security.asciiLower s) = Security.asciiLower s := by
  have hall : ∀ c ∈ ':' :: '.' :: hexDigits, c.toLower.toLower = c.toLower :=
    List.all_iff_forall_prop.mp (by decide)
  unfold Security.asciiLower
  rw [List.map_map]
  refine List.map_congr_left fun c hc => hall c ?_
  exact List.mem_cons.mpr ((h.mem hc).imp_right List.mem_cons.mpr)

/-- A spelling splits into more than one part, so it has a colon. -/
theorem Spells.colon_mem {s : List Char} {A : Address} (h : Spells s A) : ':' ∈ s := by
  by_contra hc
  have hsplit := List.splitOn_eq_singleton hc
  obtain ⟨P, hP, hA⟩ | ⟨L, R, k, -, -, -, hs⟩ := h.splitOn
  · have hlen := A.length_pieces
    rw [hsplit] at hP
    have hcount : P.values.length ≤ 2 := by
      have htokens := congrArg List.length hP
      unfold Part.values
      cases ht : P.tail with
      | none => simp [Part.tokens, ht] at htokens ⊢; omega
      | some o => simp [Part.tokens, ht, Octets.pieces] at htokens ⊢; omega
    rw [hA] at hcount
    omega
  · rw [hsplit] at hs
    have hlen := congrArg List.length hs
    have hL := List.length_pos_of_ne_nil (edge_ne_nil L.tokens)
    simp only [List.length_append, List.length_cons, List.length_nil] at hlen
    omega

/-! ## What a spelling says of its address -/

section Address
variable {s : List Char} {A : Address}

/-- Zeros and colons only. -/
theorem Spells.value_eq_zero (h : Spells s A) (hs : ∀ c ∈ s, c = '0' ∨ c = ':') :
    A.value = 0 := by
  have hpart : ∀ P : Part, (∀ c ∈ P.text, c = '0' ∨ c = ':') → ∀ v ∈ P.values, v = 0 := by
    intro P hP
    have hmem : ∀ t ∈ P.tokens, ∀ c ∈ t, c ∈ P.text := by
      intro t ht c hc
      unfold Part.text
      exact mem_intercalate_of_mem ht hc
    have hzero : ∀ t ∈ P.tokens, ∀ c ∈ t, c = '0' := by
      intro t ht c hc
      rcases hP c (hmem t ht c hc) with hc' | hc'
      · exact hc'
      · rw [hc'] at hc
        exact absurd hc (Part.colon_not_mem_token ht)
    rw [Part.values_of_plain fun t ht hd => absurd (hzero t ht '.' hd) (by decide)]
    intro v hv
    obtain ⟨t, ht, rfl⟩ := List.mem_map.mp hv
    exact parseInt_zeros (hzero t ht)
  rw [A.value_eq_zero_iff, List.eq_replicate_iff]
  refine ⟨A.length_pieces, ?_⟩
  cases h with
  | full P hP =>
    rw [← hP]
    exact hpart P hs
  | compressed L R k _ _ hA =>
    rw [← hA]
    intro v hv
    rcases List.mem_append.mp hv with hv | hv
    · rcases List.mem_append.mp hv with hv | hv
      · refine hpart L (fun c hc => hs c ?_) v hv
        exact List.mem_append_left _ (List.mem_append_left _ hc)
      · exact (List.mem_replicate.mp hv).2
    · exact hpart R (fun c hc => hs c (List.mem_append_right _ hc)) v hv

/-- `::1`. -/
theorem Spells.value_eq_one (h : Spells "::1".toList A) : A.value = 1 := by
  have hsplit : ("::1".toList).splitOn ':' = [[], [], ['1']] := by decide
  obtain ⟨P, hP, -⟩ | ⟨L, R, k, -, hL, hA, hs⟩ := h.splitOn
  · rw [hsplit] at hP
    exact absurd (hP ▸ List.mem_cons_self) P.nil_not_mem_tokens
  · rw [hsplit] at hs
    -- one token on each side of the empty one
    have hlen := congrArg List.length hs
    have hposL := List.length_pos_of_ne_nil (edge_ne_nil L.tokens)
    have hposR := List.length_pos_of_ne_nil (edge_ne_nil R.tokens)
    simp only [List.length_append, List.length_cons, List.length_nil] at hlen
    obtain ⟨x, hx⟩ := List.length_eq_one_iff.mp (show (edge L.tokens).length = 1 by omega)
    obtain ⟨y, hy⟩ := List.length_eq_one_iff.mp (show (edge R.tokens).length = 1 by omega)
    rw [hx, hy] at hs
    simp only [List.cons_append, List.nil_append, List.cons.injEq, and_true, true_and] at hs
    obtain ⟨rfl, rfl⟩ := hs
    have hLtokens : L.tokens = [] := by
      by_contra hne
      rw [edge, if_neg hne] at hx
      exact L.nil_not_mem_tokens (hx ▸ List.mem_cons_self)
    have hRtokens : R.tokens = [['1']] := by
      unfold edge at hy
      split at hy
      · cases hy
      · exact hy
    have hRvalues : R.values = [1] := by
      rw [Part.values_of_plain (by simp [hRtokens]), hRtokens]
      decide
    rw [Part.values_eq_nil hLtokens, hRvalues, List.nil_append] at hA
    have hk := congrArg List.length hA
    rw [A.length_pieces] at hk
    simp only [List.length_append, List.length_replicate, List.length_cons, List.length_nil] at hk
    obtain rfl : k = 7 := by omega
    exact A.value_eq_one_iff.mpr hA.symm

/-- `0:0:0:0:0:0:0:1`. -/
theorem Spells.value_eq_one_of_full (h : Spells "0:0:0:0:0:0:0:1".toList A) : A.value = 1 := by
  have hsplit : ("0:0:0:0:0:0:0:1".toList).splitOn ':' = List.replicate 7 ['0'] ++ [['1']] := by
    decide
  obtain ⟨P, hP, hA⟩ | ⟨L, R, k, -, -, -, hs⟩ := h.splitOn
  · rw [hsplit] at hP
    rw [Part.values_of_plain (by rw [← hP]; decide), ← hP] at hA
    exact A.value_eq_one_iff.mpr (hA.symm.trans (by decide))
  · have hnil : [] ∈ edge L.tokens ++ [] :: edge R.tokens := by simp
    rw [← hs, hsplit] at hnil
    exact absurd hnil (by decide)

/-- A spelling starts with a group, the first piece, or with `::` and that piece is zero. -/
theorem Spells.first (h : Spells s A) :
    s.head? = some ':' ∧ A.first = 0 ∨
      ∃ t rest, s = t ++ ':' :: rest ∧ IsGroup t ∧ parseInt 16 t = A.first := by
  cases h with
  | full P hP =>
    right
    have hlen := A.length_pieces
    unfold Address.first
    rw [← hP] at hlen ⊢
    unfold Part.text Part.values Part.tokens at *
    cases hg : P.groups with
    | nil =>
      rw [hg] at hlen
      cases ht : P.tail <;> simp [ht, Octets.pieces] at hlen
    | cons t gs =>
      have hgroup : IsGroup t := P.isGroup t (by simp [hg])
      have hmore : gs ++ P.tail.toList.map Octets.text ≠ [] := by
        intro hnil
        obtain ⟨rfl, htail⟩ := List.append_eq_nil_iff.mp hnil
        rw [hg, List.map_eq_nil_iff.mp htail] at hlen
        cases hlen
      refine ⟨t, [':'].intercalate (gs ++ P.tail.toList.map Octets.text), ?_, hgroup, by simp⟩
      rw [List.cons_append, List.intercalate_cons_of_ne_nil hmore, List.append_assoc]
      rfl
  | compressed L R k hk hL hA =>
    unfold Address.first
    rw [← hA]
    unfold Part.text Part.tokens Part.values at *
    rw [hL]
    cases hg : L.groups with
    | nil =>
      obtain ⟨k, rfl⟩ := Nat.exists_eq_add_of_le' hk
      exact .inl ⟨rfl, rfl⟩
    | cons t gs =>
      right
      have hgroup : IsGroup t := L.isGroup t (by simp [hg])
      cases gs with
      | nil => exact ⟨t, ':' :: _, by simp; rfl, hgroup, by simp⟩
      | cons g gs => exact ⟨t, _, by simp; rfl, hgroup, by simp⟩

/-- The last occurrence of an element determines what follows it. -/
theorem append_cons_right_inj {α : Type} {x : α} {a b c d : List α} (hb : x ∉ b) (hd : x ∉ d)
    (h : a ++ x :: b = c ++ x :: d) : b = d := by
  induction a generalizing c with
  | nil =>
    cases c with
    | nil => exact List.cons_injective h
    | cons y c =>
      have hmem : x ∈ b := by
        rw [(List.cons.inj h).2]
        exact List.mem_append_right _ List.mem_cons_self
      exact absurd hmem hb
  | cons y a ih =>
    cases c with
    | nil =>
      have hmem : x ∈ d := by
        rw [← (List.cons.inj h).2]
        exact List.mem_append_right _ List.mem_cons_self
      exact absurd hmem hd
    | cons z c => exact ih (List.cons.inj h).2

/-- The fifth piece is zero and the sixth ffff, as in a mapped address. -/
def LooksMapped (A : Address) : Prop := A.pieces[4]? = some 0 ∧ A.pieces[5]? = some 0xffff

instance (A : Address) : Decidable (LooksMapped A) := inferInstanceAs (Decidable (_ ∧ _))

theorem embedded_of_pieces {o : Octets} (ho : IsOctets o) (ps : List Nat)
    (hA : A.pieces = ps ++ o.pieces) : A.embedded = o := by
  have hvalue : A.value = ps.foldl (fun n p => n * 2 ^ 16 + p) 0 * 2 ^ 32 +
      (o.a * 256 + o.b) * 2 ^ 16 + (o.c * 256 + o.d) := by
    simp only [Address.value, hA, List.foldl_append, Octets.pieces, List.foldl_cons,
      List.foldl_nil]
    omega
  obtain ⟨ha, hb, hc, hd⟩ := ho
  unfold Address.embedded
  rw [hvalue]
  obtain ⟨a, b, c, d⟩ := o
  simp only [Octets.mk.injEq] at *
  omega

/-- A spelling that ends in `::ffff:` and a dotted text embeds the address of that text. -/
theorem Spells.looksMapped {X d : List Char} (h : Spells (X ++ "::ffff:".toList ++ d) A)
    (hdot : '.' ∈ d) (hcolon : ':' ∉ d) :
    LooksMapped A ∧ IsOctets A.embedded ∧ d = A.embedded.text := by
  have hd : d ≠ [] := List.ne_nil_of_mem hdot
  have hsplit : (X ++ "::ffff:".toList ++ d).splitOn ':' =
      X.splitOn ':' ++ [] :: ["ffff".toList, d] := by
    rw [show X ++ "::ffff:".toList ++ d = X ++ ':' :: ([] ++ ':' :: ("ffff".toList ++ ':' :: d)) by
        simp,
      List.splitOn_append_cons_self, List.splitOn_append_cons_self,
      List.splitOn_append_cons_self, List.splitOn_eq_singleton hcolon]
    rfl
  obtain ⟨P, hP, -⟩ | ⟨L, R, k, hk, hL, hA, hs⟩ := h.splitOn
  · rw [hsplit] at hP
    have hnil : [] ∈ P.tokens := by
      rw [← hP]
      exact List.mem_append_right _ List.mem_cons_self
    exact absurd hnil P.nil_not_mem_tokens
  · rw [hsplit] at hs
    have hright : [] ∉ ["ffff".toList, d] := by simp [Ne.symm hd]
    have hRne : R.tokens ≠ [] := by
      intro hnil
      rw [hnil] at hs
      have hlast := congrArg List.getLast? hs
      simp [edge] at hlast
      exact hd hlast
    rw [show edge R.tokens = R.tokens from if_neg hRne] at hs
    have hR : R.tokens = ["ffff".toList, d] :=
      (append_cons_right_inj hright R.nil_not_mem_tokens hs).symm
    unfold Part.tokens at hR
    cases ht : R.tail with
    | none =>
      have hgroup : IsGroup d := by
        refine R.isGroup d ?_
        rw [show R.groups = ["ffff".toList, d] by simpa [ht] using hR]
        simp
      exact absurd hdot (hgroup.not_mem (by decide))
    | some o =>
      have ho := R.isOctets o ht
      have hR' : R.groups ++ [o.text] = ["ffff".toList] ++ [d] := by
        rw [ht] at hR
        exact hR
      obtain ⟨hgroups, htext⟩ := List.append_inj' hR' rfl
      have hd' : o.text = d := List.singleton_inj.mp htext
      have hvalues : R.values = 0xffff :: o.pieces := by
        unfold Part.values
        rw [hgroups, ht]
        simp
        decide
      rw [hvalues] at hA
      have hlen := congrArg List.length hA
      rw [A.length_pieces] at hlen
      simp only [List.length_append, List.length_replicate, List.length_cons, Octets.pieces,
        List.length_nil] at hlen
      have hemb : A.embedded = o := by
        refine embedded_of_pieces ho (L.values ++ List.replicate k 0 ++ [0xffff]) ?_
        rw [← hA]
        simp
      have hcount : (L.values ++ List.replicate k 0).length = 5 := by
        simp only [List.length_append, List.length_replicate]
        omega
      rw [hemb]
      refine ⟨⟨?_, ?_⟩, ho, hd'.symm⟩
      · rw [← hA, List.append_assoc, List.getElem?_append_right (by omega),
          List.getElem?_append_left (by simp; omega), List.getElem?_replicate, if_pos (by omega)]
      · rw [← hA, List.getElem?_append_right (by omega), hcount]
        rfl

end Address

/-! ## Some spellings of every address -/

theorem digitValue_digitChar {n : Nat} (h : n < 16) : digitValue (Nat.digitChar n) = n := by
  have hall : ∀ n < 16, digitValue (Nat.digitChar n) = n := by decide
  exact hall n h

theorem isGroup_padded (p : Nat) : IsGroup (padded p) :=
  ⟨by simp [padded], by simp [padded], fun _ hc => mem_hexDigits (mem_padded hc)⟩

theorem parseInt_padded {p : Nat} (h : p < 2 ^ 16) : parseInt 16 (padded p) = p := by
  unfold parseInt padded
  simp only [List.map_cons, List.map_nil, List.foldl_cons, List.foldl_nil]
  rw [digitValue_digitChar (by omega), digitValue_digitChar (by omega),
    digitValue_digitChar (by omega), digitValue_digitChar (by omega)]
  omega

/-- Four lower-case digits are the padded text of what they count. -/
theorem padded_parseInt {t : List Char} (hlen : t.length = 4)
    (ht : ∀ c ∈ t, c ∈ lowerHexDigits) : padded (parseInt 16 t) = t := by
  have hall : ∀ c ∈ lowerHexDigits, digitValue c < 16 ∧ Nat.digitChar (digitValue c) = c :=
    List.all_iff_forall_prop.mp (by decide)
  obtain ⟨w, x, y, z, rfl⟩ : ∃ w x y z, t = [w, x, y, z] := by
    obtain _ | ⟨w, _ | ⟨x, _ | ⟨y, _ | ⟨z, _ | _⟩⟩⟩⟩ := t
    all_goals simp only [List.length_cons, List.length_nil] at hlen
    all_goals first | omega | skip
    exact ⟨w, x, y, z, rfl⟩
  obtain ⟨hw, hw'⟩ := hall w (ht w (by simp))
  obtain ⟨hx, hx'⟩ := hall x (ht x (by simp))
  obtain ⟨hy, hy'⟩ := hall y (ht y (by simp))
  obtain ⟨hz, hz'⟩ := hall z (ht z (by simp))
  have hvalue : parseInt 16 [w, x, y, z] =
      digitValue w * 2 ^ 12 + digitValue x * 2 ^ 8 + digitValue y * 2 ^ 4 + digitValue z := by
    simp only [parseInt, List.foldl_cons, List.foldl_nil]
    omega
  unfold padded
  rw [hvalue]
  simp only [List.map_cons, List.map_nil]
  generalize digitValue w = dw at *
  generalize digitValue x = dx at *
  generalize digitValue y = dy at *
  generalize digitValue z = dz at *
  rw [show (dw * 2 ^ 12 + dx * 2 ^ 8 + dy * 2 ^ 4 + dz) / 2 ^ 12 % 16 = dw by omega,
    show (dw * 2 ^ 12 + dx * 2 ^ 8 + dy * 2 ^ 4 + dz) / 2 ^ 8 % 16 = dx by omega,
    show (dw * 2 ^ 12 + dx * 2 ^ 8 + dy * 2 ^ 4 + dz) / 2 ^ 4 % 16 = dy by omega,
    show (dw * 2 ^ 12 + dx * 2 ^ 8 + dy * 2 ^ 4 + dz) % 16 = dz by omega, hw', hx', hy', hz']

theorem parseInt_dropWhile (s : List Char) :
    parseInt 16 (s.dropWhile (· = '0')) = parseInt 16 s := by
  induction s with
  | nil => rfl
  | cons c s ih =>
    by_cases hc : c = '0'
    · subst hc
      exact ih
    · simp [hc]

theorem isGroup_hexText (p : Nat) : IsGroup (hexText p) := by
  refine ⟨?_, ?_, fun _ hc => mem_hexDigits (mem_hexText hc)⟩
  · unfold hexText
    split
    · decide
    · rename_i ds hds
      exact List.length_pos_of_ne_nil hds
  · unfold hexText
    split
    · decide
    · exact (List.dropWhile_sublist _).length_le

theorem parseInt_hexText {p : Nat} (h : p < 2 ^ 16) : parseInt 16 (hexText p) = p := by
  have hdrop : parseInt 16 ((padded p).dropWhile (· = '0')) = p := by
    rw [parseInt_dropWhile, parseInt_padded h]
  unfold hexText
  split
  · rename_i hnil
    rw [hnil] at hdrop
    exact hdrop
  · exact hdrop

/-- The groups of the pieces, each written by `f`. -/
def Part.ofPieces (f : Nat → List Char) (hf : ∀ p, IsGroup (f p)) (ps : List Nat) : Part where
  groups := ps.map f
  tail := none
  isGroup := by
    intro g hg
    obtain ⟨p, -, rfl⟩ := List.mem_map.mp hg
    exact hf p
  isOctets := by
    intro o ho
    cases ho

theorem Part.values_ofPieces {f : Nat → List Char} (hf : ∀ p, IsGroup (f p)) (ps : List Nat)
    (h : ∀ p ∈ ps, parseInt 16 (f p) = p) : (Part.ofPieces f hf ps).values = ps := by
  simp only [values, ofPieces, List.map_map, Option.toList_none, List.flatMap_nil,
    List.append_nil]
  exact (List.map_congr_left h).trans (List.map_id ps)

/-- Every piece with four digits. -/
def paddedText (A : Address) : List Char := [':'].intercalate (A.pieces.map padded)

theorem spells_paddedText (A : Address) : Spells (paddedText A) A := by
  have hvalues := Part.values_ofPieces isGroup_padded A.pieces
    fun p hp => parseInt_padded (A.piece_lt p hp)
  have hspells := Spells.full _ hvalues
  simpa [paddedText, Part.text, Part.tokens, Part.ofPieces] using hspells

/-- Every piece without leading zeros. -/
theorem spells_colons (A : Address) : Spells (colons A.pieces) A := by
  have hvalues := Part.values_ofPieces isGroup_hexText A.pieces
    fun p hp => parseInt_hexText (A.piece_lt p hp)
  have hspells := Spells.full _ hvalues
  simpa [colons, Part.text, Part.tokens, Part.ofPieces] using hspells

theorem plain_paddedText (A : Address) : Plain (paddedText A) := by
  intro c hc
  rcases mem_intercalate hc with hc | ⟨l, hl, hc⟩
  · exact .inl (List.mem_singleton.mp hc)
  · obtain ⟨p, -, rfl⟩ := List.mem_map.mp hl
    exact .inr (mem_padded hc)

theorem isOctets_embedded (A : Address) : IsOctets A.embedded := by
  unfold Address.embedded IsOctets
  dsimp only
  omega

/-- The first four pieces, then `::ffff:` and the dotted tail. -/
def mixedText (A : Address) : List Char :=
  [':'].intercalate ((A.pieces.take 4).map padded) ++ "::ffff:".toList ++ A.embedded.text

theorem spells_mixedText {A : Address} (h : LooksMapped A) : Spells (mixedText A) A := by
  obtain ⟨h4, h5⟩ := h
  obtain ⟨a, b, c, d, e, f, g, h', hA, ha, hb, hc, hd, he, hf, hg, hh⟩ := A.exists_pieces
  rw [hA] at h4 h5
  obtain rfl : e = 0 := Option.some.inj h4
  obtain rfl : f = 0xffff := Option.some.inj h5
  have htail : A.embedded.pieces = [g, h'] := by
    simp only [Address.embedded, Address.value, Octets.pieces, hA, List.foldl_cons,
      List.foldl_nil, List.cons.injEq, and_true]
    omega
  let R : Part :=
    { groups := ["ffff".toList]
      tail := some A.embedded
      isGroup := by
        intro g hg
        obtain rfl := List.mem_singleton.mp hg
        exact ⟨by decide, by decide, List.all_iff_forall_prop.mp (by decide)⟩
      isOctets := by
        intro o ho
        obtain rfl := Option.some.inj ho
        exact isOctets_embedded A }
  have hL := Part.values_ofPieces isGroup_padded (A.pieces.take 4)
    fun p hp => parseInt_padded (A.piece_lt p (List.mem_of_mem_take hp))
  have hspells := Spells.compressed (A := A) (Part.ofPieces padded isGroup_padded (A.pieces.take 4))
    R 1 (le_refl 1) rfl (by
      rw [hL, hA]
      simp [R, Part.values, htail]
      decide)
  simpa [mixedText, Part.text, Part.tokens, Part.ofPieces, R] using hspells

end Anyhook.Security
