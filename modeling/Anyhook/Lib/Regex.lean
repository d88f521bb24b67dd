import Mathlib.Computability.RegularExpressions

/-! Patterns as regular expressions: the forms pattern texts are written in, what a word
they match looks like, and the search for a match that ends where the text ends. -/
namespace Anyhook.Lib.Regex
open RegularExpression

variable {α : Type}

/-- One of the given letters. -/
def oneOf : List α → RegularExpression α
  | [] => 0
  | a :: as => char a + oneOf as

/-- The given word. -/
def literal : List α → RegularExpression α
  | [] => 1
  | a :: as => char a * literal as

def oneOrMore (P : RegularExpression α) : RegularExpression α := P * P.star

def optionally (P : RegularExpression α) : RegularExpression α := 1 + P

/-- The letters a pattern can use. -/
def letters : RegularExpression α → List α
  | .zero | .epsilon => []
  | .char a => [a]
  | .plus P Q | .comp P Q => letters P ++ letters Q
  | .star P => letters P

variable [DecidableEq α]

/-- The leftmost part of the text that matches and ends where the text ends. -/
def findAtEnd (P : RegularExpression α) (text : List α) : Option (List α) :=
  text.tails.find? P.rmatch

theorem mem_letters {P : RegularExpression α} {x : List α} (h : P.rmatch x = true) :
    ∀ a ∈ x, a ∈ letters P := by
  induction P generalizing x with
  | zero => simp at h
  | epsilon =>
    obtain rfl := (one_rmatch_iff x).mp h
    simp
  | char a =>
    obtain rfl := (char_rmatch_iff a x).mp h
    simp [letters]
  | plus P Q hP hQ =>
    intro a ha
    rcases (add_rmatch_iff P Q x).mp h with h | h
    · exact List.mem_append_left _ (hP h a ha)
    · exact List.mem_append_right _ (hQ h a ha)
  | comp P Q hP hQ =>
    intro a ha
    obtain ⟨t, u, rfl, ht, hu⟩ := (mul_rmatch_iff P Q x).mp h
    rcases List.mem_append.mp ha with ha | ha
    · exact List.mem_append_left _ (hP ht a ha)
    · exact List.mem_append_right _ (hQ hu a ha)
  | star P hP =>
    intro a ha
    obtain ⟨S, rfl, hS⟩ := (star_rmatch_iff P x).mp h
    obtain ⟨t, ht, ha⟩ := List.mem_flatten.mp ha
    exact hP (hS t ht).2 a ha

/-- A text with a letter the pattern does not use is not matched. -/
theorem rmatch_eq_false {P : RegularExpression α} {x : List α} {a : α} (ha : a ∈ x)
    (hP : a ∉ letters P) : P.rmatch x = false := by
  rw [Bool.eq_false_iff]
  intro h
  exact hP (mem_letters h a ha)

theorem literal_rmatch_iff (w x : List α) : (literal w).rmatch x = true ↔ x = w := by
  induction w generalizing x with
  | nil => exact one_rmatch_iff x
  | cons a w ih =>
    rw [literal, mul_rmatch_iff]
    constructor
    · intro ⟨t, u, hx, ht, hu⟩
      rw [hx, (char_rmatch_iff a t).mp ht, (ih u).mp hu]
      rfl
    · intro hx
      exact ⟨[a], w, hx, (char_rmatch_iff a _).mpr rfl, (ih w).mpr rfl⟩

theorem oneOf_rmatch_iff (as x : List α) : (oneOf as).rmatch x = true ↔ ∃ a ∈ as, x = [a] := by
  induction as with
  | nil => simp [oneOf]
  | cons b as ih =>
    rw [oneOf, add_rmatch_iff, char_rmatch_iff, ih]
    simp

theorem optionally_rmatch_iff (P : RegularExpression α) (x : List α) :
    (optionally P).rmatch x = true ↔ x = [] ∨ P.rmatch x = true := by
  rw [optionally, add_rmatch_iff, one_rmatch_iff]

theorem oneOrMore_oneOf_rmatch_iff (as x : List α) :
    (oneOrMore (oneOf as)).rmatch x = true ↔ x ≠ [] ∧ ∀ a ∈ x, a ∈ as := by
  rw [oneOrMore, mul_rmatch_iff]
  constructor
  · intro ⟨t, u, hx, ht, hu⟩
    obtain ⟨a, ha, rfl⟩ := (oneOf_rmatch_iff as t).mp ht
    obtain ⟨S, rfl, hS⟩ := (star_rmatch_iff _ u).mp hu
    subst hx
    refine ⟨List.cons_ne_nil _ _, fun b hb => ?_⟩
    rcases List.mem_append.mp hb with hb | hb
    · rwa [List.mem_singleton.mp hb]
    · obtain ⟨w, hw, hb⟩ := List.mem_flatten.mp hb
      obtain ⟨c, hc, rfl⟩ := (oneOf_rmatch_iff as w).mp (hS w hw).2
      rwa [List.mem_singleton.mp hb]
  · intro ⟨hne, hall⟩
    obtain ⟨a, u, rfl⟩ := List.exists_cons_of_ne_nil hne
    refine ⟨[a], u, rfl, (oneOf_rmatch_iff as _).mpr ⟨a, hall a List.mem_cons_self, rfl⟩, ?_⟩
    refine (star_rmatch_iff _ u).mpr
      ⟨u.map fun b => [b], (List.flatMap_singleton' u).symm, fun w hw => ?_⟩
    obtain ⟨b, hb, rfl⟩ := List.mem_map.mp hw
    exact ⟨List.cons_ne_nil _ _,
      (oneOf_rmatch_iff as _).mpr ⟨b, hall b (List.mem_cons_of_mem _ hb), rfl⟩⟩

/-- A power of a pattern that matches one word matches that word repeated. -/
theorem pow_rmatch_iff {P : RegularExpression α} {w : List α}
    (hP : ∀ x, P.rmatch x = true ↔ x = w) (n : Nat) (x : List α) :
    (P ^ n).rmatch x = true ↔ x = (List.replicate n w).flatten := by
  induction n generalizing x with
  | zero => exact one_rmatch_iff x
  | succ n ih =>
    rw [show P ^ (n + 1) = P ^ n * P from rfl, mul_rmatch_iff, List.replicate_succ',
      List.flatten_concat]
    constructor
    · intro ⟨t, u, hx, ht, hu⟩
      rw [hx, (ih t).mp ht, (hP u).mp hu]
    · intro hx
      exact ⟨_, w, hx, (ih _).mpr rfl, (hP w).mpr rfl⟩

/-- What a search finds is an ending of the text that matches. -/
theorem of_findAtEnd {P : RegularExpression α} {text found : List α}
    (h : findAtEnd P text = some found) : found <:+ text ∧ P.rmatch found = true :=
  ⟨(List.mem_tails found text).mp (List.mem_of_find?_eq_some h), List.find?_some h⟩

theorem findAtEnd_isSome {P : RegularExpression α} {text found : List α} (h : found <:+ text)
    (hP : P.rmatch found = true) : ∃ found', findAtEnd P text = some found' := by
  rw [← Option.isSome_iff_exists, findAtEnd, List.find?_isSome]
  exact ⟨found, (List.mem_tails found text).mpr h, hP⟩

end Anyhook.Lib.Regex
