import Mathlib.Data.List.Basic

/-! Texts that are cut after a number of code units. A language that counts units may cut through
a character: what is left of it is no text, so a slice keeps its last units apart. -/
namespace Anyhook.Lib.CodeUnits

/-- `split` holds the units that the cut left of a character. -/
structure Slice where
  text : String
  split : List Nat
  deriving DecidableEq, Repr

/-- A text that is not cut. -/
instance : Coe String Slice := ⟨fun s => { text := s, split := [] }⟩

/-- The UTF-16 code units of a character. -/
def utf16 (c : Char) : List Nat :=
  if c.toNat < 0x10000 then [c.toNat]
  else [0xD800 + (c.toNat - 0x10000) / 0x400, 0xDC00 + (c.toNat - 0x10000) % 0x400]

/-- The bytes of a character in UTF-8. -/
def utf8 (c : Char) : List Nat := (String.utf8EncodeChar c).map UInt8.toNat

variable (units : Char → List Nat)

/-- The characters that lie within the first `n` units, and the units of the next that do. -/
def cut : Nat → List Char → List Char × List Nat
  | _, [] => ([], [])
  | n, c :: rest =>
    if (units c).length ≤ n then
      (c :: (cut (n - (units c).length) rest).1, (cut (n - (units c).length) rest).2)
    else ([], (units c).take n)

/-- The first `n` units of a text. -/
def slice (n : Nat) (s : String) : Slice where
  text := String.ofList (cut units n s.toList).1
  split := (cut units n s.toList).2

def Slice.inUnits (s : Slice) : List Nat := s.text.toList.flatMap units ++ s.split

variable {units}

theorem cut_units (n : Nat) (cs : List Char) :
    (cut units n cs).1.flatMap units ++ (cut units n cs).2 = (cs.flatMap units).take n := by
  induction cs generalizing n with
  | nil => simp [cut]
  | cons c cs ih =>
    unfold cut
    split
    · rename_i hfits
      rw [List.flatMap_cons, List.flatMap_cons, List.append_assoc, ih, List.take_append,
        List.take_of_length_le hfits]
    · rename_i hlong
      rw [List.flatMap_nil, List.nil_append, List.flatMap_cons,
        List.take_append_of_le_length (Nat.le_of_not_le hlong)]

/-- A slice holds the first units of the text, no more and no fewer. -/
theorem slice_units (n : Nat) (s : String) :
    (slice units n s).inUnits units = (s.toList.flatMap units).take n := by
  unfold Slice.inUnits slice
  rw [String.toList_ofList]
  exact cut_units n s.toList

/-- Where each character is one unit, none is split. -/
theorem cut_single {cs : List Char} (h : ∀ c ∈ cs, (units c).length = 1) (n : Nat) :
    cut units n cs = (cs.take n, []) := by
  induction cs generalizing n with
  | nil => cases n <;> rfl
  | cons c cs ih =>
    have hone : (units c).length = 1 := h c List.mem_cons_self
    have hrest := ih fun d hd => h d (List.mem_cons_of_mem _ hd)
    unfold cut
    rw [hone]
    cases n with
    | zero => rfl
    | succ n => rw [if_pos (Nat.le_add_left 1 n), Nat.add_sub_cancel, hrest, List.take_succ_cons]

theorem slice_single {s : String} (h : ∀ c ∈ s.toList, (units c).length = 1) (n : Nat) :
    slice units n s = { text := String.ofList (s.toList.take n), split := [] } := by
  unfold slice
  rw [cut_single h]

theorem utf16_ascii {c : Char} (h : c.toNat < 128) : (utf16 c).length = 1 := by
  unfold utf16
  rw [if_pos (by omega)]
  rfl

theorem utf8_ascii {c : Char} (h : c.toNat < 128) : (utf8 c).length = 1 := by
  unfold utf8
  rw [List.length_map, String.length_utf8EncodeChar]
  exact Char.utf8Size_eq_one_iff.mpr (UInt32.le_iff_toNat_le.mpr (Nat.le_of_lt_succ h))

end Anyhook.Lib.CodeUnits
