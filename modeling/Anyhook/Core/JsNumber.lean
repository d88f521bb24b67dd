import Mathlib.Algebra.Order.Field.Rat
import Mathlib.Algebra.Field.Rat
import Mathlib.Algebra.Order.Ring.Cast
import Mathlib.Data.List.TakeWhile
import Mathlib.Data.Rat.Floor

/-! ECMAScript's conversion of a string to a number, `Number(s)`, as far as the
sources use it: the value when it is finite, `none` for NaN and the infinities.
Values are exact; only the overflow to Infinity is taken from the 64-bit format.
`jsText` is the way back, the text of a number in a template string. -/
namespace Anyhook.Core

/-- StrWhiteSpaceChar: what `Number` and `String.prototype.trim` strip. -/
def isJsSpace (c : Char) : Bool :=
  c.val ∈ [0x9, 0xA, 0xB, 0xC, 0xD, 0x20, 0xA0, 0x1680, 0x2028, 0x2029, 0x202F, 0x205F, 0x3000,
    0xFEFF] || (0x2000 ≤ c.val && c.val ≤ 0x200A)

def jsTrim (cs : List Char) : List Char :=
  ((cs.dropWhile isJsSpace).reverse.dropWhile isJsSpace).reverse

/-- The value of a digit in a base up to 16. -/
def digitVal (base : Nat) (c : Char) : Option Nat :=
  let v := if '0' ≤ c ∧ c ≤ '9' then some (c.toNat - '0'.toNat)
    else if 'a' ≤ c ∧ c ≤ 'f' then some (c.toNat - 'a'.toNat + 10)
    else if 'A' ≤ c ∧ c ≤ 'F' then some (c.toNat - 'A'.toNat + 10)
    else none
  v.filter (· < base)

/-- A non-empty run of digits, read to the end of the text. -/
def natOf (base : Nat) : List Char → Option Nat
  | [] => none
  | cs => cs.foldl (fun acc c => acc.bind fun n => (digitVal base c).map (n * base + ·)) (some 0)

def exponentOf : List Char → Option Int
  | [] => some 0
  | c :: rest =>
    if c = 'e' ∨ c = 'E' then match rest with
      | '-' :: ds => (natOf 10 ds).map fun n => -(n : Int)
      | '+' :: ds => (natOf 10 ds).map fun n => (n : Int)
      | ds => (natOf 10 ds).map fun n => (n : Int)
    else none

/-- StrUnsignedDecimalLiteral without Infinity. -/
def decimalOf (cs : List Char) : Option ℚ :=
  let ip := cs.takeWhile Char.isDigit
  let afterInt := cs.dropWhile Char.isDigit
  let fracText := match afterInt with
    | '.' :: r => r
    | _ => []
  let fp := fracText.takeWhile Char.isDigit
  let tail := match afterInt with
    | '.' :: _ => fracText.dropWhile Char.isDigit
    | r => r
  match natOf 10 (ip ++ fp), exponentOf tail with
  | some n, some e => some ((n : ℚ) * (10 : ℚ) ^ (e - fp.length))
  | _, _ => none

/-- A value whose nearest 64-bit float is an infinity is not finite. -/
def finite (q : ℚ) : Option ℚ := if |q| < 2 ^ 1024 - 2 ^ 970 then some q else none

def jsNumber (s : String) : Option ℚ :=
  match jsTrim s.toList with
  | [] => some 0
  | '0' :: 'x' :: ds | '0' :: 'X' :: ds => ((natOf 16 ds).map fun n => (n : ℚ)).bind finite
  | '0' :: 'o' :: ds | '0' :: 'O' :: ds => ((natOf 8 ds).map fun n => (n : ℚ)).bind finite
  | '0' :: 'b' :: ds | '0' :: 'B' :: ds => ((natOf 2 ds).map fun n => (n : ℚ)).bind finite
  | '-' :: ds => (decimalOf ds).bind fun q => finite (-q)
  | '+' :: ds => (decimalOf ds).bind finite
  | ds => (decimalOf ds).bind finite

/-- Toward zero, as `Math.trunc` and the conversions to integer types round. -/
def roundToZero (q : ℚ) : Int := if 0 ≤ q then ⌊q⌋ else ⌈q⌉

theorem roundToZero_intCast (z : Int) : roundToZero (z : ℚ) = z := by
  unfold roundToZero
  split
  · exact Int.floor_intCast z
  · exact Int.ceil_intCast z

theorem abs_roundToZero_le (q : ℚ) : |(roundToZero q : ℚ)| ≤ |q| := by
  unfold roundToZero
  by_cases hq : 0 ≤ q
  · rw [if_pos hq, abs_of_nonneg hq, abs_of_nonneg (by exact_mod_cast Int.floor_nonneg.mpr hq)]
    exact Int.floor_le q
  · have hneg := lt_of_not_ge hq
    rw [if_neg hq, abs_of_neg hneg, abs_of_nonpos]
    · exact neg_le_neg (Int.le_ceil q)
    · exact_mod_cast Int.ceil_le.mpr (by simpa using hneg.le)

/-! ## Reading digits -/

theorem digitVal_of_isDigit {c : Char} (h : c.isDigit = true) :
    digitVal 10 c = some (c.toNat - '0'.toNat) := by
  obtain ⟨hlo, hhi⟩ := by simpa [Char.isDigit] using h
  have hlt : c.toNat - '0'.toNat < 10 := by
    have hle : c.toNat ≤ '9'.toNat := hhi
    have h9 : '9'.toNat = 57 := rfl
    have h0 : '0'.toNat = 48 := rfl
    omega
  unfold digitVal
  rw [if_pos ⟨hlo, hhi⟩]
  exact Option.filter_some_pos (by simpa using hlt)

theorem natOf_digits {ds : List Char} (hne : ds ≠ []) (h : ∀ c ∈ ds, c.isDigit = true) :
    natOf 10 ds = some (Nat.ofDigitChars 10 ds 0) := by
  have hfold : ∀ (cs : List Char) (n : Nat), (∀ c ∈ cs, c.isDigit = true) →
      cs.foldl (fun acc c => acc.bind fun n => (digitVal 10 c).map (n * 10 + ·)) (some n) =
        some (Nat.ofDigitChars 10 cs n) := by
    intro cs
    induction cs with
    | nil => intro n _; rfl
    | cons c cs ih =>
      intro n hcs
      rw [List.foldl_cons, Option.bind_some, digitVal_of_isDigit (hcs c List.mem_cons_self)]
      rw [Option.map_some, ih _ fun d hd => hcs d (List.mem_cons_of_mem _ hd),
        Nat.ofDigitChars_cons, Nat.mul_comm]
  cases ds with
  | nil => exact absurd rfl hne
  | cons c cs => exact hfold (c :: cs) 0 h

theorem decimalOf_digits {ds : List Char} (hne : ds ≠ []) (h : ∀ c ∈ ds, c.isDigit = true) :
    decimalOf ds = some (Nat.ofDigitChars 10 ds 0 : ℚ) := by
  have htake : ds.takeWhile Char.isDigit = ds := List.takeWhile_eq_self_iff.mpr h
  have hdrop : ds.dropWhile Char.isDigit = [] := List.dropWhile_eq_nil_iff.mpr h
  unfold decimalOf
  simp [htake, hdrop, natOf_digits hne h, exponentOf]

/-- A text without white space is left as it is. -/
theorem trim_eq_self {space : Char → Bool} {cs : List Char} (h : ∀ c ∈ cs, space c = false) :
    ((cs.dropWhile space).reverse.dropWhile space).reverse = cs := by
  have hfront : ∀ l : List Char, (∀ c ∈ l, space c = false) → l.dropWhile space = l := by
    intro l hl
    cases l with
    | nil => rfl
    | cons c l => rw [List.dropWhile_cons_of_neg (by simp [hl c List.mem_cons_self])]
  rw [hfront cs h, hfront cs.reverse fun c hc => h c (List.mem_reverse.mp hc),
    List.reverse_reverse]

theorem jsTrim_eq_self {cs : List Char} (h : ∀ c ∈ cs, isJsSpace c = false) : jsTrim cs = cs :=
  trim_eq_self h

theorem not_space_of_isDigit {c : Char} (h : c.isDigit = true) : isJsSpace c = false := by
  obtain ⟨hlo, hhi⟩ := by simpa [Char.isDigit] using h
  have hall : ∀ n ∈ List.range 58, 48 ≤ n → isJsSpace (Char.ofNat n) = false := by decide +kernel
  rw [← Char.ofNat_toNat c]
  exact hall c.toNat (List.mem_range.mpr (Nat.lt_succ_of_le hhi)) hlo

theorem finite_natAbs {z : Int} (h : z.natAbs < 10 ^ 21) : finite (z : ℚ) = some (z : ℚ) := by
  have habs : |(z : ℚ)| < 10 ^ 21 := by
    rw [← Int.cast_abs, Int.abs_eq_natAbs]
    exact_mod_cast h
  have hmax : (10 : ℚ) ^ 21 ≤ 2 ^ 1024 - 2 ^ 970 := by decide +kernel
  exact if_pos (habs.trans_le hmax)

/-- A row of digits is the number it writes. -/
theorem jsNumber_digits {ds : List Char} (hne : ds ≠ []) (h : ∀ c ∈ ds, c.isDigit = true) :
    jsNumber (String.ofList ds) = finite (Nat.ofDigitChars 10 ds 0 : ℚ) := by
  unfold jsNumber
  rw [String.toList_ofList, jsTrim_eq_self fun c hc => not_space_of_isDigit (h c hc)]
  split
  · exact absurd rfl hne
  -- a sign or the letter of a base is no digit
  all_goals first
    | exact absurd (h _ (.tail _ (.head _))) (by decide)
    | exact absurd (h _ (.head _)) (by decide)
    | rw [decimalOf_digits hne h, Option.bind_some]

theorem toString_int (z : Int) : toString z =
    if 0 ≤ z then String.ofList (Nat.toDigits 10 z.natAbs)
    else String.ofList ('-' :: Nat.toDigits 10 z.natAbs) := by
  cases z with
  | ofNat n =>
    rw [if_pos (show 0 ≤ Int.ofNat n from Int.natCast_nonneg n)]
    exact Nat.repr_eq_ofList_toDigits
  | negSucc n =>
    rw [if_neg (by omega), String.ofList_cons, Int.natAbs_negSucc, ← Nat.repr_eq_ofList_toDigits]
    rfl

theorem digits_of_toDigits (n : Nat) : ∀ c ∈ Nat.toDigits 10 n, c.isDigit = true := by
  intro c hc
  exact Nat.isDigit_of_mem_toDigits (by decide) (by decide) hc

theorem toString_int_ne_empty (z : Int) : toString z ≠ "" := by
  have hne : Nat.toDigits 10 z.natAbs ≠ [] := Nat.toDigits_ne_nil
  rw [toString_int, ← String.toList_inj.ne]
  split
  · rwa [String.toList_ofList]
  · rw [String.toList_ofList]
    nofun

theorem jsNumber_int {z : Int} (h : z.natAbs < 10 ^ 21) : jsNumber (toString z) = some (z : ℚ) := by
  have hne : Nat.toDigits 10 z.natAbs ≠ [] := Nat.toDigits_ne_nil
  have hdigits := digits_of_toDigits z.natAbs
  rw [toString_int]
  split
  · rename_i hpos
    rw [jsNumber_digits hne hdigits, Nat.ofDigitChars_ten_toDigits, ← finite_natAbs h]
    rw [← Int.cast_natCast, Int.natAbs_of_nonneg hpos]
  · rename_i hneg
    have htrim : jsTrim ('-' :: Nat.toDigits 10 z.natAbs) = '-' :: Nat.toDigits 10 z.natAbs := by
      refine jsTrim_eq_self fun c hc => ?_
      rcases List.mem_cons.mp hc with rfl | hc
      · decide
      · exact not_space_of_isDigit (hdigits c hc)
    unfold jsNumber
    rw [String.toList_ofList, htrim]
    simp only [decimalOf_digits hne hdigits, Option.bind_some, Nat.ofDigitChars_ten_toDigits]
    rw [← Int.cast_natCast, ← Int.cast_neg, show -(z.natAbs : Int) = z by omega, finite_natAbs h]

/-! ## The text of a number -/

/-- The decimals a value needs. -/
def decimals (q : ℚ) : Nat := ((List.range (q.den + 1)).find? fun p => 10 ^ p % q.den = 0).getD 0

def stripZeros (ds : List Char) : List Char := (ds.reverse.dropWhile (· = '0')).reverse

/-- Digits with the decimal point after the first `n` of them. -/
def placed (ds : List Char) (n : Int) : List Char :=
  let s := stripZeros ds
  if s.length ≤ n ∧ n ≤ 21 then s ++ List.replicate (n.toNat - s.length) '0'
  else if 0 < n ∧ n ≤ 21 then s.take n.toNat ++ '.' :: s.drop n.toNat
  else if -6 < n ∧ n ≤ 0 then '0' :: '.' :: (List.replicate (-n).toNat '0' ++ s)
  else s.take 1 ++ (if s.length = 1 then [] else '.' :: s.drop 1) ++
    'e' :: (if n - 1 < 0 then '-' else '+') :: Nat.toDigits 10 (n - 1).natAbs

/-- Number::toString of a decimal. -/
def jsText (q : ℚ) : String :=
  let ds := Nat.toDigits 10 (q.num.natAbs * 10 ^ decimals q / q.den)
  let text := if q = 0 then ['0'] else placed ds (ds.length - decimals q)
  String.ofList (if q < 0 then '-' :: text else text)

/-- Zeros stripped from the end of a text can be put back. -/
theorem stripZeros_append (ds : List Char) :
    stripZeros ds ++ List.replicate (ds.length - (stripZeros ds).length) '0' = ds := by
  unfold stripZeros
  have hsplit := List.takeWhile_append_dropWhile (p := (· = '0')) (l := ds.reverse)
  have hzeros : ds.reverse.takeWhile (· = '0') =
      List.replicate (ds.reverse.takeWhile (· = '0')).length '0' :=
    List.eq_replicate_of_mem fun c hc => by
      simpa using List.all_eq_true.mp List.all_takeWhile c hc
  have hlen := congrArg List.length hsplit
  simp only [List.length_append, List.length_reverse] at hlen
  have hcount : ds.length - (ds.reverse.dropWhile (· = '0')).reverse.length =
      (ds.reverse.takeWhile (· = '0')).length := by
    rw [List.length_reverse]
    omega
  rw [hcount, ← List.reverse_replicate, ← hzeros, ← List.reverse_append, hsplit,
    List.reverse_reverse]

theorem length_stripZeros_le (ds : List Char) : (stripZeros ds).length ≤ ds.length := by
  have hlen := congrArg List.length (stripZeros_append ds)
  rw [List.length_append] at hlen
  omega

/-- A whole number of up to 21 digits is written out. -/
theorem placed_whole {ds : List Char} (h : ds.length ≤ 21) : placed ds ds.length = ds := by
  have hle := length_stripZeros_le ds
  unfold placed
  rw [if_pos (by omega), Int.toNat_natCast]
  exact stripZeros_append ds

theorem jsText_intCast {z : Int} (h : z.natAbs < 10 ^ 21) : jsText z = toString z := by
  have hp : decimals (z : ℚ) = 0 := by
    unfold decimals
    rw [Rat.den_intCast]
    rfl
  have hlen : (Nat.toDigits 10 z.natAbs).length ≤ 21 :=
    (Nat.length_toDigits_le_iff (by decide) (by decide)).mpr h
  unfold jsText
  simp only [hp, Rat.num_intCast, Rat.den_intCast, pow_zero, mul_one, Nat.div_one, Nat.cast_zero,
    sub_zero, placed_whole hlen]
  rw [toString_int]
  by_cases hz : 0 ≤ z
  · rw [if_pos hz, if_neg (by exact_mod_cast not_lt.mpr hz)]
    by_cases h0 : z = 0
    · subst h0
      rfl
    · rw [if_neg (by exact_mod_cast h0)]
  · have hneg : (z : ℚ) < 0 := by exact_mod_cast lt_of_not_ge hz
    rw [if_neg hz, if_pos hneg, if_neg hneg.ne]

example : jsNumber " 12.5e1 " = some 125 := by decide +kernel
example : jsNumber "1 2" = none := by decide +kernel
example : jsText (-17005 / 10) = "-1700.5" := by decide +kernel

end Anyhook.Core
