import Mathlib.Data.List.Basic

/-! Base64 with the standard alphabet and padding, and two decoders: a strict one that
skips line breaks only, and a lenient one that also takes the URL alphabet, skips every
other character and needs no padding. What the strict one accepts, the lenient one reads
alike. -/
namespace Anyhook.Lib.Base64

def alphabet : List Char :=
  "ABCDEFGHIJKLMNOPQRSTUVWXYZabcdefghijklmnopqrstuvwxyz0123456789+/".toList

/-- The character of a sextet. -/
def digit (n : Nat) : Char := alphabet.getD n 'A'

/-- The sextet of a character of the standard alphabet. -/
def value (c : Char) : Option Nat :=
  if 'A' ≤ c ∧ c ≤ 'Z' then some (c.toNat - 65)
  else if 'a' ≤ c ∧ c ≤ 'z' then some (c.toNat - 71)
  else if '0' ≤ c ∧ c ≤ '9' then some (c.toNat + 4)
  else if c = '+' then some 62
  else if c = '/' then some 63
  else none

/-- The URL alphabet writes 62 and 63 differently. -/
def anyValue (c : Char) : Option Nat :=
  if c = '-' then some 62
  else if c = '_' then some 63
  else value c

def encode : List UInt8 → List Char
  | [] => []
  | [a] => [digit (a.toNat / 4), digit (a.toNat % 4 * 16), '=', '=']
  | [a, b] =>
    [digit (a.toNat / 4), digit (a.toNat % 4 * 16 + b.toNat / 16), digit (b.toNat % 16 * 4), '=']
  | a :: b :: c :: rest =>
    digit (a.toNat / 4) :: digit (a.toNat % 4 * 16 + b.toNat / 16) ::
      digit (b.toNat % 16 * 4 + c.toNat / 64) :: digit (c.toNat % 64) :: encode rest

/-- The bytes of a row of sextets; what does not fill a byte is dropped. -/
def bytesOf : List Nat → List UInt8
  | a :: b :: c :: d :: rest =>
    .ofNat (a * 4 + b / 16) :: .ofNat (b % 16 * 16 + c / 4) :: .ofNat (c % 4 * 64 + d) ::
      bytesOf rest
  | [a, b, c] => [.ofNat (a * 4 + b / 16), .ofNat (b % 16 * 16 + c / 4)]
  | [a, b] => [.ofNat (a * 4 + b / 16)]
  | _ => []

/-- Groups of four, the last one perhaps padded. -/
def decodeGroups : List Char → Option (List UInt8)
  | [] => some []
  | a :: b :: c :: d :: rest =>
    match value a, value b, value c, value d with
    | some x, some y, some z, some w => (decodeGroups rest).map (bytesOf [x, y, z, w] ++ ·)
    | some x, some y, some z, none =>
      if d = '=' ∧ rest = [] then some (bytesOf [x, y, z]) else none
    | some x, some y, none, _ =>
      if c = '=' ∧ d = '=' ∧ rest = [] then some (bytesOf [x, y]) else none
    | _, _, _, _ => none
  | _ => none

def isBreak (c : Char) : Bool := c = '\n' || c = '\r'

def decodeStrict (cs : List Char) : Option (List UInt8) :=
  decodeGroups (cs.filter fun c => !isBreak c)

/-- The sextets in a text, up to its padding. -/
def sextets (cs : List Char) : List Nat := (cs.takeWhile (· ≠ '=')).filterMap anyValue

def decodeLenient (cs : List Char) : List UInt8 := bytesOf (sextets cs)

/-! ## Characters -/

theorem value_digit {n : Nat} (h : n < 64) : value (digit n) = some n := by
  have hall : ∀ n ∈ List.range 64, value (digit n) = some n := by decide +kernel
  exact hall n (List.mem_range.mpr h)

theorem digit_mem (n : Nat) : digit n ∈ alphabet := by
  by_cases h : n < alphabet.length
  · unfold digit
    rw [List.getD_eq_getElem?_getD, List.getElem?_eq_getElem h]
    exact List.getElem_mem h
  · unfold digit
    rw [List.getD_eq_getElem?_getD, List.getElem?_eq_none (Nat.le_of_not_lt h)]
    decide +kernel

theorem encode_chars (bs : List UInt8) : ∀ c ∈ encode bs, c ∈ '=' :: alphabet := by
  fun_induction encode bs with
  | case1 => nofun
  | case2 a =>
    intro c hc
    simp only [List.mem_cons, List.not_mem_nil, or_false] at hc
    rcases hc with rfl | rfl | rfl | rfl <;> simp [digit_mem]
  | case3 a b =>
    intro c hc
    simp only [List.mem_cons, List.not_mem_nil, or_false] at hc
    rcases hc with rfl | rfl | rfl | rfl <;> simp [digit_mem]
  | case4 a b c rest ih =>
    intro x hx
    simp only [List.mem_cons] at hx
    rcases hx with rfl | rfl | rfl | rfl | hx
    · simp [digit_mem]
    · simp [digit_mem]
    · simp [digit_mem]
    · simp [digit_mem]
    · exact ih x hx

theorem encode_ne_nil {bs : List UInt8} (h : bs ≠ []) : encode bs ≠ [] := by
  fun_cases encode bs with
  | case1 => exact absurd rfl h
  | _ => nofun

/-! ## Round trip -/

theorem byte_eq {n : Nat} {a : UInt8} (h : n = a.toNat) : UInt8.ofNat n = a := by
  rw [h, UInt8.ofNat_toNat]

theorem pad_value : value '=' = none := by decide

theorem decodeGroups_encode (bs : List UInt8) : decodeGroups (encode bs) = some bs := by
  fun_induction encode bs with
  | case1 => rfl
  | case2 a =>
    have ha := a.toNat_lt
    have hbs : bytesOf [a.toNat / 4, a.toNat % 4 * 16] = [a] := by
      simp only [bytesOf, List.cons.injEq, and_true]
      exact byte_eq (by omega)
    simp only [decodeGroups, value_digit (show a.toNat / 4 < 64 by omega),
      value_digit (show a.toNat % 4 * 16 < 64 by omega), pad_value, hbs, and_self, if_true]
  | case3 a b =>
    have ha := a.toNat_lt
    have hb := b.toNat_lt
    have hbs : bytesOf [a.toNat / 4, a.toNat % 4 * 16 + b.toNat / 16, b.toNat % 16 * 4] =
        [a, b] := by
      simp only [bytesOf, List.cons.injEq, and_true]
      exact ⟨byte_eq (by omega), byte_eq (by omega)⟩
    simp only [decodeGroups, value_digit (show a.toNat / 4 < 64 by omega),
      value_digit (show a.toNat % 4 * 16 + b.toNat / 16 < 64 by omega),
      value_digit (show b.toNat % 16 * 4 < 64 by omega), pad_value, hbs, and_self, if_true]
  | case4 a b c rest ih =>
    have ha := a.toNat_lt
    have hb := b.toNat_lt
    have hc := c.toNat_lt
    have hbs : bytesOf [a.toNat / 4, a.toNat % 4 * 16 + b.toNat / 16,
        b.toNat % 16 * 4 + c.toNat / 64, c.toNat % 64] = [a, b, c] := by
      simp only [bytesOf, List.cons.injEq, and_true]
      exact ⟨byte_eq (by omega), byte_eq (by omega), byte_eq (by omega)⟩
    simp only [decodeGroups, value_digit (show a.toNat / 4 < 64 by omega),
      value_digit (show a.toNat % 4 * 16 + b.toNat / 16 < 64 by omega),
      value_digit (show b.toNat % 16 * 4 + c.toNat / 64 < 64 by omega),
      value_digit (show c.toNat % 64 < 64 by omega), hbs, ih]
    rfl

theorem decodeStrict_encode (bs : List UInt8) : decodeStrict (encode bs) = some bs := by
  have hbreaks : ∀ c ∈ '=' :: alphabet, (!isBreak c) = true :=
    List.all_eq_true.mp (by decide +kernel)
  unfold decodeStrict
  rw [List.filter_eq_self.mpr fun c hc => hbreaks c (encode_chars bs c hc)]
  exact decodeGroups_encode bs

/-! ## Strict and lenient -/

theorem anyValue_of_value {c : Char} {n : Nat} (h : value c = some n) : anyValue c = some n := by
  have hdash : c ≠ '-' := by
    intro hc
    rw [hc, show value '-' = none by decide] at h
    cases h
  have hline : c ≠ '_' := by
    intro hc
    rw [hc, show value '_' = none by decide] at h
    cases h
  unfold anyValue
  rw [if_neg hdash, if_neg hline]
  exact h

theorem ne_pad_of_value {c : Char} {n : Nat} (h : value c = some n) : c ≠ '=' := by
  intro hc
  rw [hc, pad_value] at h
  cases h

theorem sextets_cons {c : Char} {n : Nat} (h : value c = some n) (cs : List Char) :
    sextets (c :: cs) = n :: sextets cs := by
  have hpad := ne_pad_of_value h
  simp [sextets, hpad, anyValue_of_value h]

theorem sextets_pad (cs : List Char) : sextets ('=' :: cs) = [] := by
  simp [sextets]

theorem decodeGroups_lenient {cs : List Char} {bs : List UInt8} (h : decodeGroups cs = some bs) :
    decodeLenient cs = bs := by
  unfold decodeLenient
  fun_induction decodeGroups cs generalizing bs with
  | case1 => cases h; rfl
  | case2 a b c d rest x y z w hw hz hy hx ih =>
    obtain ⟨bs', hrest, rfl⟩ := Option.map_eq_some_iff.mp h
    rw [sextets_cons hx, sextets_cons hy, sextets_cons hz, sextets_cons hw, ← ih hrest]
    rfl
  | case3 a b c d rest x y z hw hz hy hx hpad =>
    obtain ⟨rfl, rfl⟩ := hpad
    cases h
    rw [sextets_cons hx, sextets_cons hy, sextets_cons hz, sextets_pad]
  | case5 a b c d rest x y hz hy hx hpad =>
    obtain ⟨rfl, rfl, rfl⟩ := hpad
    cases h
    rw [sextets_cons hx, sextets_cons hy, sextets_pad]
  | _ => cases h

theorem decodeGroups_chars {cs : List Char} {bs : List UInt8} (h : decodeGroups cs = some bs) :
    ∀ c ∈ cs, (value c).isSome = true ∨ c = '=' := by
  fun_induction decodeGroups cs generalizing bs with
  | case1 => nofun
  | case2 a b c d rest x y z w hw hz hy hx ih =>
    obtain ⟨bs', hrest, -⟩ := Option.map_eq_some_iff.mp h
    intro e he
    simp only [List.mem_cons] at he
    rcases he with rfl | rfl | rfl | rfl | he
    · simp [hx]
    · simp [hy]
    · simp [hz]
    · simp [hw]
    · exact ih hrest e he
  | case3 a b c d rest x y z hw hz hy hx hpad =>
    obtain ⟨rfl, rfl⟩ := hpad
    simp [hx, hy, hz]
  | case5 a b c d rest x y hz hy hx hpad =>
    obtain ⟨rfl, rfl, rfl⟩ := hpad
    simp [hx, hy]
  | _ => cases h

/-- The strict decoder accepts the alphabet, padding and line breaks only. -/
theorem decodeStrict_chars {cs : List Char} {bs : List UInt8} (h : decodeStrict cs = some bs) :
    ∀ c ∈ cs, isBreak c = true ∨ (value c).isSome = true ∨ c = '=' := by
  intro c hc
  by_cases hb : isBreak c = true
  · exact .inl hb
  · exact .inr (decodeGroups_chars h c (List.mem_filter.mpr ⟨hc, by simpa using hb⟩))

/-- Line breaks are no sextets. -/
theorem sextets_breaks (cs : List Char) : sextets (cs.filter fun c => !isBreak c) = sextets cs := by
  induction cs with
  | nil => rfl
  | cons c cs ih =>
    by_cases hb : isBreak c = true
    · have hskip : c ≠ '=' ∧ anyValue c = none := by
        simp only [isBreak, Bool.or_eq_true, decide_eq_true_eq] at hb
        rcases hb with rfl | rfl <;> decide
      rw [List.filter_cons_of_neg (by simp [hb]), ih]
      simp [sextets, hskip.1, hskip.2]
    · rw [List.filter_cons_of_pos (by simp [hb])]
      unfold sextets at ih ⊢
      by_cases hpad : c = '='
      · simp [hpad]
      · simp only [List.takeWhile_cons, hpad, ne_eq, not_false_eq_true, decide_true, if_true,
          List.filterMap_cons, ih]

/-- What the strict decoder accepts, the lenient one reads alike. -/
theorem decodeStrict_lenient {cs : List Char} {bs : List UInt8} (h : decodeStrict cs = some bs) :
    decodeLenient cs = bs := by
  have hlenient := decodeGroups_lenient h
  unfold decodeLenient at hlenient ⊢
  rw [sextets_breaks] at hlenient
  exact hlenient

theorem decodeLenient_encode (bs : List UInt8) : decodeLenient (encode bs) = bs :=
  decodeStrict_lenient (decodeStrict_encode bs)

end Anyhook.Lib.Base64
