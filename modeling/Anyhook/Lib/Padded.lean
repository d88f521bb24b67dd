import Mathlib.Data.String.Basic

/-! Numbers written in decimal with leading zeros. Such texts of one width are ordered as
the numbers are. -/
namespace Anyhook.Lib.Padded

/-- `String(n).padStart(width, '0')`. -/
def padStart (width n : Nat) : String :=
  String.ofList (List.replicate (width - (toString n).length) '0') ++ toString n

theorem padStart_toList (width n : Nat) :
    (padStart width n).toList =
      List.replicate (width - (Nat.toDigits 10 n).length) '0' ++ Nat.toDigits 10 n := by
  have hlen : (toString n).length = (Nat.toDigits 10 n).length := by
    rw [← String.length_toList, Nat.toString_eq_repr, Nat.toList_repr]
  rw [padStart, hlen]
  simp [String.toList_append]

/-- Reading a padded number gives it back. -/
theorem ofDigitChars_padStart (width n : Nat) :
    Nat.ofDigitChars 10 (padStart width n).toList 0 = n := by
  rw [padStart_toList, Nat.ofDigitChars_append, Nat.ofDigitChars_replicate_zero, Nat.mul_zero]
  exact Nat.ofDigitChars_ten_toDigits

theorem padStart_injective {width n m : Nat} (h : padStart width n = padStart width m) : n = m := by
  have hread := congrArg (fun s : String => Nat.ofDigitChars 10 s.toList 0) h
  simpa only [ofDigitChars_padStart] using hread

theorem isDigit_of_mem_padStart {width n : Nat} {c : Char} (h : c ∈ (padStart width n).toList) :
    c.isDigit = true := by
  rw [padStart_toList, List.mem_append] at h
  obtain h | h := h
  · obtain ⟨-, rfl⟩ := List.mem_replicate.mp h
    rfl
  · exact Nat.isDigit_of_mem_toDigits (by decide) (by decide) h

theorem length_padStart {width n : Nat} (hw : 0 < width) (hn : n < 10 ^ width) :
    (padStart width n).toList.length = width := by
  have hlen : (Nat.toDigits 10 n).length ≤ width :=
    (Nat.length_toDigits_le_iff (by decide) hw).mpr hn
  rw [padStart_toList, List.length_append, List.length_replicate]
  omega

/-- The value of a digit. -/
theorem digit_lt {c : Char} (hc : c.isDigit = true) : c.toNat - '0'.toNat < 10 := by
  simp only [Char.isDigit, Bool.and_eq_true, decide_eq_true_eq] at hc
  obtain ⟨-, h⟩ := hc
  have h9 : c.toNat ≤ 57 := h
  show c.toNat - 48 < 10
  omega

/-- What is read first weighs more than all digits after it. -/
theorem ofDigitChars_lt_of_init_lt : ∀ {a b : List Char}, a.length = b.length →
    (∀ c ∈ a, c.isDigit = true) → ∀ {i j : Nat}, i < j →
      Nat.ofDigitChars 10 a i < Nat.ofDigitChars 10 b j
  | [], [], _, _, i, j, h => by simpa using h
  | c :: a, d :: b, hlen, ha, i, j, h => by
    rw [Nat.ofDigitChars_cons, Nat.ofDigitChars_cons]
    refine ofDigitChars_lt_of_init_lt (by simpa using hlen)
      (fun x hx => ha x (List.mem_cons_of_mem _ hx)) ?_
    have hc := digit_lt (ha c List.mem_cons_self)
    omega

/-- Digits of one length are ordered as their values. -/
theorem ofDigitChars_lt_of_lt : ∀ {a b : List Char}, a.length = b.length →
    (∀ c ∈ a, c.isDigit = true) → (∀ c ∈ b, c.isDigit = true) → a < b → ∀ i,
      Nat.ofDigitChars 10 a i < Nat.ofDigitChars 10 b i
  | [], [], _, _, _, h, i => absurd h (lt_irrefl _)
  | c :: a, d :: b, hlen, ha, hb, h, i => by
    rw [Nat.ofDigitChars_cons, Nat.ofDigitChars_cons]
    have hlen' : a.length = b.length := by simpa using hlen
    have ha' : ∀ x ∈ a, x.isDigit = true := fun x hx => ha x (List.mem_cons_of_mem _ hx)
    have hb' : ∀ x ∈ b, x.isDigit = true := fun x hx => hb x (List.mem_cons_of_mem _ hx)
    obtain hlt | ⟨rfl, hlt⟩ := List.cons_lt_cons_iff.mp h
    · refine ofDigitChars_lt_of_init_lt hlen' ha' ?_
      have hc := ha c List.mem_cons_self
      simp only [Char.isDigit, Bool.and_eq_true, decide_eq_true_eq] at hc
      have h0 : 48 ≤ c.toNat := hc.1
      have hcd : c.toNat < d.toNat := hlt
      show 10 * i + (c.toNat - 48) < 10 * i + (d.toNat - 48)
      omega
    · exact ofDigitChars_lt_of_lt hlen' ha' hb' hlt _

theorem padStart_lt_iff {width n m : Nat} (hw : 0 < width) (hn : n < 10 ^ width)
    (hm : m < 10 ^ width) : padStart width n < padStart width m ↔ n < m := by
  have hlen : (padStart width n).toList.length = (padStart width m).toList.length := by
    rw [length_padStart hw hn, length_padStart hw hm]
  have hlt : ∀ {k l : Nat}, (padStart width k).toList.length = (padStart width l).toList.length →
      padStart width k < padStart width l → k < l := by
    intro k l hkl h
    have hvalue := ofDigitChars_lt_of_lt hkl (fun c => isDigit_of_mem_padStart)
      (fun c => isDigit_of_mem_padStart) (String.lt_iff_toList_lt.mp h) 0
    rwa [ofDigitChars_padStart, ofDigitChars_padStart] at hvalue
  constructor
  · exact hlt hlen
  · intro h
    by_contra hge
    obtain heq | hgt := eq_or_lt_of_le (not_lt.mp hge)
    · exact absurd (padStart_injective heq) (by omega)
    · exact absurd (hlt hlen.symm hgt) (by omega)

end Anyhook.Lib.Padded
