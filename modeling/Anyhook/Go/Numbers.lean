import Mathlib.Data.Bool.AllAny
import Anyhook.Go.Engine

/-! Numbers that JavaScript's `Number` and Go's `ParseFloat` both read have one value. What
only one of them reads (white space around a number, the bases of integers; underscores,
hexadecimal floats) is not compared. -/
namespace Anyhook.Go
open Anyhook.Core

/-! ## After the sign -/

/-- `parseFloat` after the sign. -/
def floatBody (sign : ℚ) (body : List Char) : Option ℚ :=
  let hex := body.take 2 = ['0', 'x'] ∨ body.take 2 = ['0', 'X']
  let value := if hex then hexFloatOf ((body.drop 2).filter (· ≠ '_'))
    else decimalOf (body.filter (· ≠ '_'))
  if body.contains '_' ∧
      ¬ underscoreOK (decide hex) (if hex then '0' else '^')
        (if hex then body.drop 2 else body) then
    none
  else value.bind fun q => finite (sign * q)

theorem parseFloat_minus (body : List Char) : parseFloat ('-' :: body) = floatBody (-1) body := rfl

theorem parseFloat_plus (body : List Char) : parseFloat ('+' :: body) = floatBody 1 body := rfl

theorem parseFloat_unsigned {c : Char} (hminus : c ≠ '-') (hplus : c ≠ '+') (body : List Char) :
    parseFloat (c :: body) = floatBody 1 (c :: body) := by
  have hsign : ¬ (c :: body).head? = some '-' := by simpa using hminus
  unfold parseFloat floatBody
  rw [if_neg hsign]
  split
  · rename_i heq
    cases heq
    exact absurd rfl hminus
  · rename_i heq
    cases heq
    exact absurd rfl hplus
  · rfl

/-- Without an underscore and the marker of a base, the body is a decimal. -/
theorem floatBody_decimal {body : List Char} (hunder : '_' ∉ body)
    (hhex : ¬ (body.take 2 = ['0', 'x'] ∨ body.take 2 = ['0', 'X'])) (sign : ℚ) :
    floatBody sign body = (decimalOf body).bind fun q => finite (sign * q) := by
  have hfilter : body.filter (· ≠ '_') = body :=
    List.filter_eq_self.mpr fun c hc => by simpa using fun he : c = '_' => hunder (he ▸ hc)
  have hcontains : body.contains '_' = false := by simpa using hunder
  unfold floatBody
  simp only [hcontains, Bool.false_eq_true, false_and, if_false, if_neg hhex, hfilter]

/-! ## Characters -/

def decimalChars : List Char := "0123456789.eE+-".toList

theorem mem_decimalChars_of_isDigit {c : Char} (h : c.isDigit = true) : c ∈ decimalChars := by
  obtain ⟨hlo, hhi⟩ := by simpa [Char.isDigit] using h
  have hall : ∀ n ∈ List.range 58, 48 ≤ n → Char.ofNat n ∈ decimalChars := by decide +kernel
  rw [← Char.ofNat_toNat c]
  exact hall c.toNat (List.mem_range.mpr (Nat.lt_succ_of_le hhi)) hlo

theorem isDigit_of_digitVal {c : Char} {n : Nat} (h : digitVal 10 c = some n) :
    c.isDigit = true := by
  unfold digitVal at h
  obtain ⟨hv, hlt⟩ := Option.filter_eq_some_iff.mp h
  split at hv
  · rename_i hrange
    simpa [Char.isDigit, Char.le_def] using hrange
  · split at hv
    · cases hv
      simp at hlt
    · split at hv
      · cases hv
        simp at hlt
      · cases hv

theorem digitVal_range {base : Nat} {c : Char} (h : (digitVal base c).isSome = true) :
    48 ≤ c.toNat ∧ c.toNat ≤ 102 := by
  unfold digitVal at h
  obtain ⟨v, hv⟩ := Option.isSome_iff_exists.mp h
  obtain ⟨hv, -⟩ := Option.filter_eq_some_iff.mp hv
  split at hv
  · rename_i hrange
    exact ⟨hrange.1, le_trans (b := '9'.toNat) hrange.2 (by decide)⟩
  · split at hv
    · rename_i hrange
      exact ⟨le_trans (b := 'a'.toNat) (by decide) hrange.1, hrange.2⟩
    · split at hv
      · rename_i hrange
        exact ⟨le_trans (b := 'A'.toNat) (by decide) hrange.1,
          le_trans (b := 'F'.toNat) hrange.2 (by decide)⟩
      · cases hv

theorem natOf_chars {base : Nat} {cs : List Char} {n : Nat} (h : natOf base cs = some n) :
    ∀ c ∈ cs, (digitVal base c).isSome = true := by
  have hnone : ∀ cs : List Char,
      cs.foldl (fun acc c => acc.bind fun n => (digitVal base c).map (n * base + ·)) none =
        (none : Option Nat) := by
    intro cs
    induction cs with
    | nil => rfl
    | cons c cs ih => exact ih
  have hfold : ∀ (cs : List Char) (m : Nat),
      cs.foldl (fun acc c => acc.bind fun n => (digitVal base c).map (n * base + ·)) (some m) =
        some n → ∀ c ∈ cs, (digitVal base c).isSome = true := by
    intro cs
    induction cs with
    | nil => nofun
    | cons c cs ih =>
      intro m hm
      rw [List.foldl_cons, Option.bind_some] at hm
      cases hv : digitVal base c with
      | none =>
        rw [hv, Option.map_none, hnone] at hm
        cases hm
      | some v =>
        rw [hv, Option.map_some] at hm
        intro d hd
        rcases List.mem_cons.mp hd with rfl | hd
        · simp [hv]
        · exact ih _ hm d hd
  cases cs with
  | nil => nofun
  | cons c cs => exact hfold (c :: cs) 0 h

theorem natOf_ten_chars {cs : List Char} {n : Nat} (h : natOf 10 cs = some n) :
    ∀ c ∈ cs, c ∈ decimalChars := by
  intro c hc
  obtain ⟨v, hv⟩ := Option.isSome_iff_exists.mp (natOf_chars h c hc)
  exact mem_decimalChars_of_isDigit (isDigit_of_digitVal hv)

theorem exponentOf_chars {cs : List Char} {e : Int} (h : exponentOf cs = some e) :
    ∀ c ∈ cs, c ∈ decimalChars := by
  have hletter : ∀ {c : Char}, c = 'e' ∨ c = 'E' → c ∈ decimalChars := by
    intro c hc
    rcases hc with rfl | rfl <;> decide +kernel
  have hdigits : ∀ {ds : List Char}, natOf 10 ds ≠ none → ∀ c ∈ ds, c ∈ decimalChars := by
    intro ds hne
    obtain ⟨n, hn⟩ := Option.ne_none_iff_exists'.mp hne
    exact natOf_ten_chars hn
  unfold exponentOf at h
  split at h
  · nofun
  · rename_i c rest
    split at h
    · rename_i he
      intro d hd
      rcases List.mem_cons.mp hd with rfl | hd
      · exact hletter he
      · split at h
        · rcases List.mem_cons.mp hd with rfl | hd
          · decide +kernel
          · exact hdigits (fun hn => by rw [hn] at h; cases h) d hd
        · rcases List.mem_cons.mp hd with rfl | hd
          · decide +kernel
          · exact hdigits (fun hn => by rw [hn] at h; cases h) d hd
        · exact hdigits (fun hn => by rw [hn] at h; cases h) d hd
    · cases h

/-- A decimal consists of digits, a point, an exponent's letter and signs. -/
theorem decimalOf_chars {cs : List Char} {q : ℚ} (h : decimalOf cs = some q) :
    ∀ c ∈ cs, c ∈ decimalChars := by
  unfold decimalOf at h
  dsimp only at h
  split at h
  · rename_i n e hn he
    have hdigit : ∀ {p : List Char}, ∀ c ∈ p.takeWhile Char.isDigit, c ∈ decimalChars := by
      intro p c hc
      exact mem_decimalChars_of_isDigit (List.all_eq_true.mp List.all_takeWhile c hc)
    intro c hc
    rw [← List.takeWhile_append_dropWhile (p := Char.isDigit) (l := cs)] at hc
    rcases List.mem_append.mp hc with hc | hc
    · exact hdigit c hc
    · split at he
      · rename_i r hafter
        rw [hafter] at hc
        rcases List.mem_cons.mp hc with rfl | hc
        · decide +kernel
        · rw [← List.takeWhile_append_dropWhile (p := Char.isDigit) (l := r)] at hc
          rcases List.mem_append.mp hc with hc | hc
          · exact hdigit c hc
          · exact exponentOf_chars (by simpa [hafter] using he) c hc
      · exact exponentOf_chars he c hc
  · cases h

/-! ## White space -/

theorem not_space_of_decimalChars {c : Char} (h : c ∈ decimalChars) : isJsSpace c = false := by
  have hall : ∀ c ∈ decimalChars, isJsSpace c = false :=
    List.all_iff_forall_prop.mp (by decide +kernel)
  exact hall c h

theorem not_space_of_digitVal {base : Nat} {c : Char} (h : (digitVal base c).isSome = true) :
    isJsSpace c = false := by
  obtain ⟨hlo, hhi⟩ := digitVal_range h
  have hall : ∀ n ∈ List.range 103, 48 ≤ n → isJsSpace (Char.ofNat n) = false := by decide +kernel
  rw [← Char.ofNat_toNat c]
  exact hall c.toNat (List.mem_range.mpr (Nat.lt_succ_of_le hhi)) hlo

theorem hexFloatOf_not_space {cs : List Char} {q : ℚ} (h : hexFloatOf cs = some q) :
    ∀ c ∈ cs, isJsSpace c = false := by
  unfold hexFloatOf at h
  dsimp only at h
  split at h
  · rename_i n p ds hn htail
    have hdigit : ∀ {t : List Char},
        ∀ c ∈ t.takeWhile fun c => (digitVal 16 c).isSome, isJsSpace c = false := by
      intro t c hc
      exact not_space_of_digitVal (List.all_eq_true.mp List.all_takeWhile c hc)
    have hexponent : ∀ c ∈ p :: ds, isJsSpace c = false := by
      split at h
      · rename_i hp
        obtain ⟨e, he, -⟩ := Option.map_eq_some_iff.mp h
        intro c hc
        rcases List.mem_cons.mp hc with rfl | hc
        · rcases hp with rfl | rfl <;> decide
        · exact not_space_of_decimalChars
            (exponentOf_chars he c (List.mem_cons_of_mem _ hc))
      · cases h
    intro c hc
    rw [← List.takeWhile_append_dropWhile (p := fun c => (digitVal 16 c).isSome) (l := cs)] at hc
    rcases List.mem_append.mp hc with hc | hc
    · exact hdigit c hc
    · split at htail
      · rename_i r hafter
        have hrest : r.dropWhile (fun c => (digitVal 16 c).isSome) = p :: ds := by
          simpa [hafter] using htail
        rw [hafter] at hc
        rcases List.mem_cons.mp hc with rfl | hc
        · decide
        · rw [← List.takeWhile_append_dropWhile (p := fun c => (digitVal 16 c).isSome) (l := r)]
            at hc
          rcases List.mem_append.mp hc with hc | hc
          · exact hdigit c hc
          · exact hexponent c (hrest ▸ hc)
      · exact hexponent c (htail ▸ hc)
  · cases h

theorem floatBody_not_space {sign : ℚ} {body : List Char} {q : ℚ}
    (h : floatBody sign body = some q) : ∀ c ∈ body, isJsSpace c = false := by
  intro c hc
  by_contra hspace
  have hunder : c ≠ '_' := fun he => hspace (he ▸ by decide)
  unfold floatBody at h
  dsimp only at h
  split at h
  · rename_i hhex
    split at h
    · cases h
    · obtain ⟨v, hv, -⟩ := Option.bind_eq_some_iff.mp h
      rw [← List.take_append_drop 2 body] at hc
      rcases List.mem_append.mp hc with hc | hc
      · have hmarker : ∀ d ∈ body.take 2, isJsSpace d = false := by
          rcases hhex with hhex | hhex
          all_goals
            rw [hhex]
            exact List.all_iff_forall_prop.mp (by decide)
        exact hspace (hmarker c hc)
      · exact hspace (hexFloatOf_not_space hv c (List.mem_filter.mpr ⟨hc, by simpa using hunder⟩))
  · split at h
    · cases h
    · obtain ⟨v, hv, -⟩ := Option.bind_eq_some_iff.mp h
      exact hspace (not_space_of_decimalChars
        (decimalOf_chars hv c (List.mem_filter.mpr ⟨hc, by simpa using hunder⟩)))

/-- No text with white space in it is a number in Go. -/
theorem parseFloat_not_space {cs : List Char} {q : ℚ} (h : parseFloat cs = some q) :
    ∀ c ∈ cs, isJsSpace c = false := by
  cases cs with
  | nil => nofun
  | cons d body =>
    by_cases hminus : d = '-'
    · subst hminus
      intro c hc
      rcases List.mem_cons.mp hc with rfl | hc
      · decide
      · exact floatBody_not_space h c hc
    · by_cases hplus : d = '+'
      · subst hplus
        intro c hc
        rcases List.mem_cons.mp hc with rfl | hc
        · decide
        · exact floatBody_not_space h c hc
      · rw [parseFloat_unsigned hminus hplus] at h
        exact floatBody_not_space h

/-! ## One value -/

/-- Where the body is a decimal, Go reads that decimal. -/
theorem floatBody_of_decimalOf {body : List Char} {q : ℚ} (h : decimalOf body = some q)
    (sign : ℚ) : floatBody sign body = finite (sign * q) := by
  have hnot : ∀ {c : Char}, c ∉ decimalChars → c ∉ body := fun hc hmem =>
    hc (decimalOf_chars h _ hmem)
  have hhex : ¬ (body.take 2 = ['0', 'x'] ∨ body.take 2 = ['0', 'X']) := by
    intro hpre
    rcases hpre with hpre | hpre
    · exact hnot (c := 'x') (by decide +kernel)
        (List.mem_of_mem_take (hpre ▸ by simp : 'x' ∈ body.take 2))
    · exact hnot (c := 'X') (by decide +kernel)
        (List.mem_of_mem_take (hpre ▸ by simp : 'X' ∈ body.take 2))
  rw [floatBody_decimal (hnot (by decide +kernel)) hhex, h, Option.bind_some]

/-- Hexadecimal digits alone are no float: the exponent is missing. -/
theorem hexFloatOf_digits {ds : List Char} (h : ∀ c ∈ ds, (digitVal 16 c).isSome = true) :
    hexFloatOf ds = none := by
  have htake : ds.takeWhile (fun c => (digitVal 16 c).isSome) = ds :=
    List.takeWhile_eq_self_iff.mpr h
  have hdrop : ds.dropWhile (fun c => (digitVal 16 c).isSome) = [] :=
    List.dropWhile_eq_nil_iff.mpr h
  unfold hexFloatOf
  simp only [htake, hdrop]
  cases natOf 16 (ds ++ [].takeWhile fun c => (digitVal 16 c).isSome) <;> rfl

/-- An integer in hexadecimal is no number in Go. -/
theorem parseFloat_hex {marker : Char} (hmarker : marker = 'x' ∨ marker = 'X') {ds : List Char}
    {n : Nat} (hn : natOf 16 ds = some n) : parseFloat ('0' :: marker :: ds) = none := by
  have hhex : ('0' :: marker :: ds).take 2 = ['0', 'x'] ∨
      ('0' :: marker :: ds).take 2 = ['0', 'X'] := by
    rcases hmarker with rfl | rfl
    · exact .inl rfl
    · exact .inr rfl
  have hvalue : hexFloatOf (ds.filter (· ≠ '_')) = none :=
    hexFloatOf_digits fun c hc => natOf_chars hn c (List.mem_of_mem_filter hc)
  rw [parseFloat_unsigned (by decide) (by decide)]
  unfold floatBody
  simp only [if_pos hhex, List.drop_succ_cons, List.drop_zero, hvalue, Option.bind_none, ite_self]

/-- Nor is one in octal or binary. -/
theorem parseFloat_marked {marker : Char} (hchars : marker ∉ decimalChars) (hunder : marker ≠ '_')
    (hx : marker ≠ 'x') (hX : marker ≠ 'X') (ds : List Char) :
    parseFloat ('0' :: marker :: ds) = none := by
  have hhex : ¬ (('0' :: marker :: ds).take 2 = ['0', 'x'] ∨
      ('0' :: marker :: ds).take 2 = ['0', 'X']) := by
    simp [hx, hX]
  have hvalue : decimalOf (('0' :: marker :: ds).filter (· ≠ '_')) = none := by
    cases hq : decimalOf (('0' :: marker :: ds).filter (· ≠ '_')) with
    | none => rfl
    | some q =>
      have hmem : marker ∈ ('0' :: marker :: ds).filter (· ≠ '_') :=
        List.mem_filter.mpr ⟨by simp, by simpa using hunder⟩
      exact absurd (decimalOf_chars hq marker hmem) hchars
  rw [parseFloat_unsigned (by decide) (by decide)]
  unfold floatBody
  simp only [if_neg hhex, hvalue, Option.bind_none, ite_self]

/-- **What both languages read, they read alike.** -/
theorem jsNumber_eq_parseFloat {s : String} {a b : ℚ} (ha : jsNumber s = some a)
    (hb : parseFloat s.toList = some b) : a = b := by
  have hmark : ∀ {marker : Char} {ds : List Char}, marker ∈ ['o', 'O', 'b', 'B'] →
      parseFloat ('0' :: marker :: ds) = none := by
    intro marker ds hm
    have hall : ∀ m ∈ ['o', 'O', 'b', 'B'],
        m ∉ decimalChars ∧ m ≠ '_' ∧ m ≠ 'x' ∧ m ≠ 'X' :=
      List.all_iff_forall_prop.mp (by decide +kernel)
    obtain ⟨hchars, hunder, hx, hX⟩ := hall marker hm
    exact parseFloat_marked hchars hunder hx hX ds
  unfold jsNumber at ha
  rw [jsTrim_eq_self (parseFloat_not_space hb)] at ha
  generalize s.toList = cs at ha hb
  have hhex : ∀ {marker : Char} {ds : List Char}, marker = 'x' ∨ marker = 'X' →
      natOf 16 ds ≠ none → parseFloat ('0' :: marker :: ds) = none := by
    intro marker ds hm hne
    obtain ⟨n, hn⟩ := Option.ne_none_iff_exists'.mp hne
    exact parseFloat_hex hm hn
  split at ha
  · cases hb
  · rw [hhex (.inl rfl) fun hn => by rw [hn] at ha; cases ha] at hb
    cases hb
  · rw [hhex (.inr rfl) fun hn => by rw [hn] at ha; cases ha] at hb
    cases hb
  · rw [hmark (by simp)] at hb
    cases hb
  · rw [hmark (by simp)] at hb
    cases hb
  · rw [hmark (by simp)] at hb
    cases hb
  · rw [hmark (by simp)] at hb
    cases hb
  · obtain ⟨q, hq, hfinite⟩ := Option.bind_eq_some_iff.mp ha
    rw [parseFloat_minus, floatBody_of_decimalOf hq, neg_one_mul, hfinite] at hb
    exact Option.some.inj hb
  · obtain ⟨q, hq, hfinite⟩ := Option.bind_eq_some_iff.mp ha
    rw [parseFloat_plus, floatBody_of_decimalOf hq, one_mul, hfinite] at hb
    exact Option.some.inj hb
  · rename_i hne _ _ _ _ _ _ hminus hplus
    obtain ⟨q, hq, hfinite⟩ := Option.bind_eq_some_iff.mp ha
    cases cs with
    | nil => exact absurd rfl hne
    | cons c body =>
      rw [parseFloat_unsigned (fun hc => hminus body (by rw [hc]))
        (fun hc => hplus body (by rw [hc])), floatBody_of_decimalOf hq, one_mul, hfinite] at hb
      exact Option.some.inj hb

/-! ## Integers -/

/-- A row of digits is the number it writes. -/
theorem parseFloat_digits {ds : List Char} (hne : ds ≠ []) (h : ∀ c ∈ ds, c.isDigit = true) :
    parseFloat ds = finite (Nat.ofDigitChars 10 ds 0 : ℚ) := by
  cases ds with
  | nil => exact absurd rfl hne
  | cons c cs =>
    have hsign : ∀ {d : Char}, d.isDigit = false → c ≠ d := by
      intro d hd hc
      rw [← hc, h c List.mem_cons_self] at hd
      cases hd
    rw [parseFloat_unsigned (hsign (by decide)) (hsign (by decide)),
      floatBody_of_decimalOf (decimalOf_digits hne h), one_mul]

theorem parseFloat_int {z : Int} (h : z.natAbs < 10 ^ 21) :
    parseFloat (toString z).toList = some (z : ℚ) := by
  have hne : Nat.toDigits 10 z.natAbs ≠ [] := Nat.toDigits_ne_nil
  have hdigits := digits_of_toDigits z.natAbs
  rw [toString_int]
  by_cases hz : 0 ≤ z
  · rw [if_pos hz, String.toList_ofList, parseFloat_digits hne hdigits,
      Nat.ofDigitChars_ten_toDigits, ← Int.cast_natCast, Int.natAbs_of_nonneg hz, finite_natAbs h]
  · rw [if_neg hz, String.toList_ofList, parseFloat_minus,
      floatBody_of_decimalOf (decimalOf_digits hne hdigits), Nat.ofDigitChars_ten_toDigits,
      neg_one_mul, ← Int.cast_natCast, ← Int.cast_neg,
      show -(z.natAbs : Int) = z by omega, finite_natAbs h]

end Anyhook.Go
