import Anyhook.Security.UrlPolicy

/-! IPv6 addresses as values, the ranges the policies are to refuse, and the text a URL
parser gives an address: lower-case pieces without leading zeros, the first longest run of
two or more zero pieces written `::`. -/
namespace Anyhook.Security

/-- Eight pieces of sixteen bits. -/
structure Address where
  pieces : List Nat
  length_pieces : pieces.length = 8
  piece_lt : ∀ p ∈ pieces, p < 2 ^ 16
  deriving DecidableEq

namespace Address

def ofPieces (a b c d e f g h : Fin (2 ^ 16)) : Address where
  pieces := [a, b, c, d, e, f, g, h]
  length_pieces := rfl
  piece_lt := by
    intro p hp
    simp only [List.mem_cons, List.not_mem_nil, or_false] at hp
    omega

/-- The address as a number of 128 bits. -/
def value (A : Address) : Nat := A.pieces.foldl (fun n p => n * 2 ^ 16 + p) 0

/-- The address is in the network `net`/`len`. -/
def Within (A : Address) (net len : Nat) : Prop :=
  A.value / 2 ^ (128 - len) = net / 2 ^ (128 - len)

instance (A : Address) (net len : Nat) : Decidable (A.Within net len) :=
  inferInstanceAs (Decidable (_ = _))

/-- The last four bytes. -/
def embedded (A : Address) : Octets :=
  { a := A.value / 2 ^ 24 % 256
    b := A.value / 2 ^ 16 % 256
    c := A.value / 2 ^ 8 % 256
    d := A.value % 256 }

/-- `::ffff:0:0/96`. -/
def IsMapped (A : Address) : Prop := A.Within (0xffff * 2 ^ 32) 96

/-- `fe80::/10`. -/
def IsLinkLocal (A : Address) : Prop := A.Within (0xfe80 * 2 ^ 112) 10

/-- `fc00::/7`. -/
def IsUniqueLocal (A : Address) : Prop := A.Within (0xfc00 * 2 ^ 112) 7

instance (A : Address) : Decidable A.IsMapped := inferInstanceAs (Decidable (A.Within _ _))
instance (A : Address) : Decidable A.IsLinkLocal := inferInstanceAs (Decidable (A.Within _ _))
instance (A : Address) : Decidable A.IsUniqueLocal := inferInstanceAs (Decidable (A.Within _ _))

/-- The addresses to refuse: unspecified, loopback, link-local, unique-local, and mapped
ones of an IPv4 address to refuse. -/
def IsBlocked (A : Address) : Prop :=
  A.value = 0 ∨ A.value = 1 ∨ A.IsLinkLocal ∨ A.IsUniqueLocal ∨
    A.IsMapped ∧ isBlockedIpv4 A.embedded = true

instance (A : Address) : Decidable A.IsBlocked := inferInstanceAs (Decidable (_ ∨ _))

/-! ## Pieces -/

/-- An address is its eight pieces. -/
theorem exists_pieces (A : Address) : ∃ a b c d e f g h, A.pieces = [a, b, c, d, e, f, g, h] ∧
    a < 2 ^ 16 ∧ b < 2 ^ 16 ∧ c < 2 ^ 16 ∧ d < 2 ^ 16 ∧ e < 2 ^ 16 ∧ f < 2 ^ 16 ∧ g < 2 ^ 16 ∧
      h < 2 ^ 16 := by
  obtain ⟨ps, hlen, hlt⟩ := A
  obtain _ | ⟨a, _ | ⟨b, _ | ⟨c, _ | ⟨d, _ | ⟨e, _ | ⟨f, _ | ⟨g, _ | ⟨h, _ | _⟩⟩⟩⟩⟩⟩⟩⟩ := ps
  all_goals simp only [List.length_cons, List.length_nil] at hlen
  all_goals first | omega | skip
  refine ⟨a, b, c, d, e, f, g, h, rfl, ?_⟩
  simpa using hlt

/-- The first piece. -/
def first (A : Address) : Nat := A.pieces.headD 0

theorem isLinkLocal_iff (A : Address) : A.IsLinkLocal ↔ 0xfe80 ≤ A.first ∧ A.first ≤ 0xfebf := by
  obtain ⟨a, b, c, d, e, f, g, h, hA, ha, hb, hc, hd, he, hf, hg, hh⟩ := A.exists_pieces
  simp only [IsLinkLocal, Within, value, first, hA, List.foldl_cons, List.foldl_nil,
    List.headD_cons]
  omega

theorem isUniqueLocal_iff (A : Address) :
    A.IsUniqueLocal ↔ 0xfc00 ≤ A.first ∧ A.first ≤ 0xfdff := by
  obtain ⟨a, b, c, d, e, f, g, h, hA, ha, hb, hc, hd, he, hf, hg, hh⟩ := A.exists_pieces
  simp only [IsUniqueLocal, Within, value, first, hA, List.foldl_cons, List.foldl_nil,
    List.headD_cons]
  omega

theorem value_eq_zero_iff (A : Address) : A.value = 0 ↔ A.pieces = List.replicate 8 0 := by
  obtain ⟨a, b, c, d, e, f, g, h, hA, ha, hb, hc, hd, he, hf, hg, hh⟩ := A.exists_pieces
  simp only [value, hA, List.foldl_cons, List.foldl_nil, List.replicate, List.cons.injEq,
    and_true]
  omega

theorem value_eq_one_iff (A : Address) :
    A.value = 1 ↔ A.pieces = List.replicate 7 0 ++ [1] := by
  obtain ⟨a, b, c, d, e, f, g, h, hA, ha, hb, hc, hd, he, hf, hg, hh⟩ := A.exists_pieces
  simp only [value, hA, List.foldl_cons, List.foldl_nil, List.replicate, List.cons_append,
    List.nil_append, List.cons.injEq, and_true]
  omega

theorem isMapped_iff (A : Address) :
    A.IsMapped ↔ ∃ g h, A.pieces = [0, 0, 0, 0, 0, 0xffff, g, h] := by
  obtain ⟨a, b, c, d, e, f, g, h, hA, ha, hb, hc, hd, he, hf, hg, hh⟩ := A.exists_pieces
  simp only [IsMapped, Within, value, hA, List.foldl_cons, List.foldl_nil, List.cons.injEq,
    and_true]
  constructor
  · intro hv
    refine ⟨g, h, ?_⟩
    omega
  · intro ⟨g', h', hp⟩
    omega

end Address

/-! ## Pieces as text -/

/-- A piece as four digits. -/
def padded (p : Nat) : List Char :=
  [p / 2 ^ 12 % 16, p / 2 ^ 8 % 16, p / 2 ^ 4 % 16, p % 16].map Nat.digitChar

/-- A piece without leading zeros. -/
def hexText (p : Nat) : List Char :=
  match (padded p).dropWhile (· = '0') with
  | [] => ['0']
  | ds => ds

def colons (ps : List Nat) : List Char := [':'].intercalate (ps.map hexText)

/-- Where the first longest run of zeros starts, and how long it is. -/
def longestRun : List Nat → Nat × Nat
  | [] => (0, 0)
  | p :: ps =>
    let zeros := ((p :: ps).takeWhile (· = 0)).length
    if (longestRun ps).2 ≤ zeros then (0, zeros)
    else ((longestRun ps).1 + 1, (longestRun ps).2)

def serialize (A : Address) : List Char :=
  let run := longestRun A.pieces
  if 2 ≤ run.2 then
    colons (A.pieces.take run.1) ++ "::".toList ++ colons (A.pieces.drop (run.1 + run.2))
  else colons A.pieces

/-! ## What the texts are made of -/

def lowerHexDigits : List Char := "0123456789abcdef".toList

theorem digitChar_mem {n : Nat} (h : n < 16) : Nat.digitChar n ∈ lowerHexDigits := by
  have hall : ∀ m : Fin 16, Nat.digitChar m ∈ lowerHexDigits := by decide
  exact hall ⟨n, h⟩

theorem mem_padded {p : Nat} {c : Char} (h : c ∈ padded p) : c ∈ lowerHexDigits := by
  obtain ⟨n, hn, rfl⟩ := List.mem_map.mp h
  refine digitChar_mem ?_
  simp only [List.mem_cons, List.not_mem_nil, or_false] at hn
  omega

theorem mem_hexText {p : Nat} {c : Char} (h : c ∈ hexText p) : c ∈ lowerHexDigits := by
  unfold hexText at h
  split at h
  · obtain rfl := List.mem_singleton.mp h
    decide
  · exact mem_padded (List.dropWhile_sublist _ |>.mem h)

/-- A letter of a joined text is one of the separator or of a part. -/
theorem mem_intercalate {α : Type} {sep : List α} {ls : List (List α)} {a : α}
    (h : a ∈ sep.intercalate ls) : a ∈ sep ∨ ∃ l ∈ ls, a ∈ l := by
  induction ls with
  | nil => cases h
  | cons l ls ih =>
    cases ls with
    | nil =>
      rw [List.intercalate_singleton] at h
      exact .inr ⟨l, List.mem_cons_self, h⟩
    | cons l' ls =>
      rw [List.intercalate_cons_cons] at h
      rcases List.mem_append.mp h with h | h
      · rcases List.mem_append.mp h with h | h
        · exact .inr ⟨l, List.mem_cons_self, h⟩
        · exact .inl h
      · exact (ih h).imp_right fun ⟨l, hl, ha⟩ => ⟨l, List.mem_cons_of_mem _ hl, ha⟩

/-- Lower-case digits and colons. -/
def Plain (s : List Char) : Prop := ∀ c ∈ s, c = ':' ∨ c ∈ lowerHexDigits

theorem plain_colons (ps : List Nat) : Plain (colons ps) := by
  intro c hc
  rcases mem_intercalate hc with hc | ⟨l, hl, hc⟩
  · exact .inl (List.mem_singleton.mp hc)
  · obtain ⟨p, -, rfl⟩ := List.mem_map.mp hl
    exact .inr (mem_hexText hc)

theorem plain_serialize (A : Address) : Plain (serialize A) := by
  unfold serialize
  dsimp only
  split
  · intro c hc
    rcases List.mem_append.mp hc with hc | hc
    · rcases List.mem_append.mp hc with hc | hc
      · exact plain_colons _ c hc
      · exact .inl (by simpa using hc)
    · exact plain_colons _ c hc
  · exact plain_colons _

theorem asciiLower_of_plain {s : List Char} (h : Plain s) : asciiLower s = s := by
  have hdigit : ∀ c ∈ lowerHexDigits, c.toLower = c :=
    List.all_iff_forall_prop.mp (by decide)
  unfold asciiLower
  refine (List.map_congr_left fun c hc => ?_).trans (List.map_id s)
  rcases h c hc with rfl | hc
  · rfl
  · exact hdigit c hc

theorem toLower_of_plain (fold : Char → List Char) {s : List Char} (h : Plain s) :
    toLower fold s = s := by
  have hdigit : ∀ c ∈ lowerHexDigits, c.toNat < 128 :=
    List.all_iff_forall_prop.mp (by decide)
  refine (toLower_of_ascii fold fun c hc => ?_).trans (asciiLower_of_plain h)
  rcases h c hc with rfl | hc
  · decide
  · exact hdigit c hc

theorem not_mem_of_plain {s : List Char} (h : Plain s) {c : Char}
    (hc : c ∉ ':' :: lowerHexDigits) : c ∉ s := by
  intro hmem
  exact hc (List.mem_cons.mpr (h c hmem))

/-- A run of two zeros or more starts after a first piece that is not zero. -/
theorem longestRun_cons {p : Nat} {ps : List Nat} (hp : p ≠ 0)
    (hrun : 2 ≤ (longestRun (p :: ps)).2) :
    (longestRun (p :: ps)).1 = (longestRun ps).1 + 1 := by
  have hzeros : ((p :: ps).takeWhile (· = 0)).length = 0 := by simp [hp]
  simp only [longestRun, hzeros] at hrun ⊢
  split at hrun
  · cases hrun
  · rename_i hlt
    rw [if_neg hlt]

theorem prefix_colons (p : Nat) (ps : List Nat) : hexText p <+: colons (p :: ps) := by
  cases ps with
  | nil => simp [colons]
  | cons q ps =>
    unfold colons
    rw [List.map_cons, List.map_cons, List.intercalate_cons_cons, List.append_assoc]
    exact List.prefix_append _ _

/-- An address that does not start with a zero piece is written with that piece first. -/
theorem serialize_first {A : Address} (h : A.first ≠ 0) : hexText A.first <+: serialize A := by
  have hcons : ∃ ps, A.pieces = A.first :: ps := by
    obtain ⟨a, b, c, d, e, f, g, h', hA, -⟩ := A.exists_pieces
    exact ⟨[b, c, d, e, f, g, h'], by simp [Address.first, hA]⟩
  obtain ⟨ps, hps⟩ := hcons
  unfold serialize
  rw [hps]
  dsimp only
  split
  · rename_i hrun
    rw [longestRun_cons h hrun, List.take_succ_cons, List.append_assoc]
    exact (prefix_colons _ _).trans (List.prefix_append _ _)
  · exact prefix_colons _ _

/-- A mapped address is written without a dotted part. -/
theorem serialize_mapped {A : Address} {g h : Nat}
    (hA : A.pieces = [0, 0, 0, 0, 0, 0xffff, g, h]) :
    serialize A = "::ffff:".toList ++ (hexText g ++ ':' :: hexText h) := by
  have hrun : longestRun A.pieces = (0, 5) := by
    rw [hA]
    by_cases hg : g = 0 <;> by_cases hh : h = 0 <;> simp [longestRun, List.takeWhile, hg, hh]
  have hffff : hexText 0xffff = "ffff".toList := by decide
  unfold serialize
  rw [hrun, hA]
  simp [colons, List.intercalate, hffff]

/-! ## Local addresses -/

/-- The prefixes of the link-local and the unique-local range. -/
def localPrefixes : List String := ["fe8", "fe9", "fea", "feb", "fc", "fd"]

/-- A first piece in the link-local or the unique-local range. -/
def IsLocal (p : Nat) : Prop := 0xfe80 ≤ p ∧ p ≤ 0xfebf ∨ 0xfc00 ≤ p ∧ p ≤ 0xfdff

theorem isLocal_first_iff (A : Address) : IsLocal A.first ↔ A.IsLinkLocal ∨ A.IsUniqueLocal := by
  rw [A.isLinkLocal_iff, A.isUniqueLocal_iff]
  rfl

theorem padded_local {p : Nat} (h : IsLocal p) : ∃ q ∈ localPrefixes, q.toList <+: padded p := by
  have hf : p / 2 ^ 12 % 16 = 15 := by
    unfold IsLocal at h
    omega
  have hnext : p / 2 ^ 8 % 16 = 12 ∨ p / 2 ^ 8 % 16 = 13 ∨ p / 2 ^ 8 % 16 = 14 ∧
      (p / 2 ^ 4 % 16 = 8 ∨ p / 2 ^ 4 % 16 = 9 ∨ p / 2 ^ 4 % 16 = 10 ∨ p / 2 ^ 4 % 16 = 11) := by
    unfold IsLocal at h
    omega
  unfold padded
  rw [hf]
  rcases hnext with hc | hd | ⟨he, h8 | h9 | ha | hb⟩
  · rw [hc]
    exact ⟨"fc", by decide, _, rfl⟩
  · rw [hd]
    exact ⟨"fd", by decide, _, rfl⟩
  · rw [he, h8]
    exact ⟨"fe8", by decide, _, rfl⟩
  · rw [he, h9]
    exact ⟨"fe9", by decide, _, rfl⟩
  · rw [he, ha]
    exact ⟨"fea", by decide, _, rfl⟩
  · rw [he, hb]
    exact ⟨"feb", by decide, _, rfl⟩

/-- A piece of four digits has no leading zero to drop. -/
theorem hexText_of_local {p : Nat} (h : IsLocal p) : hexText p = padded p := by
  have hf : p / 2 ^ 12 % 16 = 15 := by
    unfold IsLocal at h
    omega
  unfold hexText padded
  rw [hf]
  rfl

theorem blockedLiteral_of_prefix {octets : List Char → Option Octets} {s : List Char} {q : String}
    (hq : q ∈ localPrefixes) (hp : q.toList <+: s) : blockedLiteral octets s = true := by
  have hbool := List.isPrefixOf_iff_prefix.mpr hp
  have hmem : q ∈ ["fe8", "fe9", "fea", "feb"] ∨ q ∈ ["fc", "fd"] :=
    List.mem_append.mp (show q ∈ ["fe8", "fe9", "fea", "feb"] ++ ["fc", "fd"] from hq)
  unfold blockedLiteral
  rcases hmem with hmem | hmem
  · rw [List.any_eq_true.mpr ⟨q, hmem, hbool⟩, Bool.or_true, Bool.true_or, Bool.true_or]
  · rw [List.any_eq_true.mpr ⟨q, hmem, hbool⟩, Bool.or_true, Bool.true_or]

end Anyhook.Security
