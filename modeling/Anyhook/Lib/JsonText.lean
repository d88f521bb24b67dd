import Mathlib.Algebra.GroupWithZero.Nat
import Mathlib.Data.Bool.AllAny
import Mathlib.Data.List.GetD
import Mathlib.Data.List.Induction
import Mathlib.Tactic.SplitIfs

/-! Writing JSON text the way encoders do that keep it safe inside HTML and JavaScript: a
string is quoted with escapes, a text that is JSON already is copied without the white space
between its tokens, and `<`, `>`, `&` and the two Unicode line separators are written as
six-byte escapes wherever they stand. Sizes are in bytes of UTF-8. -/
namespace Anyhook.Lib.JsonText

/-! ## Sizes -/

def size (cs : List Char) : Nat := (cs.map Char.utf8Size).sum

@[simp] theorem size_nil : size [] = 0 := rfl
@[simp] theorem size_cons (c : Char) (cs : List Char) : size (c :: cs) = c.utf8Size + size cs := by
  simp [size]
@[simp] theorem size_append (cs ds : List Char) : size (cs ++ ds) = size cs + size ds := by
  simp [size]

theorem size_eq_zero {cs : List Char} : size cs = 0 ↔ cs = [] := by
  cases cs with
  | nil => simp
  | cons c rest =>
    have hpos := c.utf8Size_pos
    simp only [size_cons, reduceCtorEq, iff_false]
    omega

theorem utf8ByteSize_ofList (cs : List Char) : (String.ofList cs).utf8ByteSize = size cs := by
  induction cs using List.reverseRecOn with
  | nil => rfl
  | append_singleton cs c ih =>
    rw [String.ofList_append, String.utf8ByteSize_append, ih, size_append,
      ← String.singleton_eq_ofList, String.utf8ByteSize_singleton, size_cons, size_nil]
    rfl

/-! ## Escapes -/

/-- Characters that mean something in HTML, or end a line in JavaScript only. -/
def special (c : Char) : Bool :=
  c = '<' || c = '>' || c = '&' || c.toNat = 0x2028 || c.toNat = 0x2029

def hexDigit (n : Nat) : Char := "0123456789abcdef".toList.getD n '0'

def unicodeEscape (c : Char) : List Char :=
  ['\\', 'u', hexDigit (c.toNat / 4096 % 16), hexDigit (c.toNat / 256 % 16),
    hexDigit (c.toNat / 16 % 16), hexDigit (c.toNat % 16)]

/-- The letter behind the backslash, where a character has one. -/
def shortEscape (c : Char) : Option Char :=
  if c = '"' then some '"'
  else if c = '\\' then some '\\'
  else if c = '\x08' then some 'b'
  else if c = '\x0c' then some 'f'
  else if c = '\n' then some 'n'
  else if c = '\r' then some 'r'
  else if c = '\t' then some 't'
  else none

def escapeChar (c : Char) : List Char :=
  match shortEscape c with
  | some letter => ['\\', letter]
  | none => if c.toNat < 0x20 || special c then unicodeEscape c else [c]

/-- A string as a JSON token. -/
def quote (cs : List Char) : List Char := '"' :: (cs.flatMap escapeChar ++ ['"'])

/-- The bytes a character takes between the quotes. -/
def escapedSize (c : Char) : Nat :=
  match shortEscape c with
  | some _ => 2
  | none => if c.toNat < 0x20 || special c then 6 else c.utf8Size

def quotedSize (cs : List Char) : Nat := (cs.map escapedSize).sum + 2

theorem hexDigit_mem (n : Nat) : hexDigit n ∈ "0123456789abcdef".toList := by
  unfold hexDigit
  by_cases h : n < "0123456789abcdef".toList.length
  · rw [List.getD_eq_getElem _ _ h]
    exact List.getElem_mem h
  · rw [List.getD_eq_default _ _ (by omega)]
    decide

theorem hexDigit_size (n : Nat) : (hexDigit n).utf8Size = 1 := by
  have hall : ∀ c ∈ "0123456789abcdef".toList, c.utf8Size = 1 :=
    List.all_iff_forall_prop.mp (by decide)
  exact hall _ (hexDigit_mem n)

theorem size_unicodeEscape (c : Char) : size (unicodeEscape c) = 6 := by
  simp only [unicodeEscape, size_cons, size_nil, hexDigit_size]
  decide

theorem shortEscape_size {c letter : Char} (h : shortEscape c = some letter) :
    letter.utf8Size = 1 := by
  unfold shortEscape at h
  split_ifs at h <;> cases h <;> decide

theorem size_escapeChar (c : Char) : size (escapeChar c) = escapedSize c := by
  unfold escapeChar escapedSize
  cases hshort : shortEscape c with
  | some letter =>
    simp only [size_cons, size_nil, shortEscape_size hshort]
    decide
  | none =>
    dsimp only
    split
    · exact size_unicodeEscape c
    · simp

theorem size_quote (cs : List Char) : size (quote cs) = quotedSize cs := by
  have hbody : size (cs.flatMap escapeChar) = (cs.map escapedSize).sum := by
    induction cs with
    | nil => rfl
    | cons c rest ih =>
      rw [List.flatMap_cons, size_append, size_escapeChar, ih, List.map_cons, List.sum_cons]
  have hquote : ('"').utf8Size = 1 := by decide
  unfold quote quotedSize
  rw [size_cons, size_append, size_cons, size_nil, hbody, hquote]
  omega

/-! ## Objects -/

def memberText (field : String × List Char) : List Char := quote field.1.toList ++ ':' :: field.2

/-- An object from the texts of its members, without white space. -/
def objectText (fields : List (String × List Char)) : List Char :=
  '\x7b' :: ((fields.map memberText).intersperse [',']).flatten ++ ['\x7d']

def memberSize (field : String × List Char) : Nat :=
  quotedSize field.1.toList + 1 + size field.2

theorem size_memberText (field : String × List Char) :
    size (memberText field) = memberSize field := by
  have hcolon : (':').utf8Size = 1 := by decide
  rw [memberText, size_append, size_cons, size_quote, hcolon, memberSize, Nat.add_assoc]

theorem size_members (field : String × List Char) (rest : List (String × List Char)) :
    size (((field :: rest).map memberText).intersperse [',']).flatten =
      ((field :: rest).map memberSize).sum + rest.length := by
  have hcomma : (',').utf8Size = 1 := by decide
  induction rest generalizing field with
  | nil => simp [size_memberText]
  | cons next rest ih =>
    simp only [List.map_cons, List.intersperse_cons_cons, List.flatten_cons, size_append,
      size_cons, size_nil, size_memberText, hcomma, List.length_cons, List.sum_cons] at ih ⊢
    rw [ih next]
    omega

theorem size_objectText (field : String × List Char) (rest : List (String × List Char)) :
    size (objectText (field :: rest)) =
      ((field :: rest).map memberSize).sum + rest.length + 2 := by
  have hopen : ('\x7b').utf8Size = 1 := by decide
  have hclose : ('\x7d').utf8Size = 1 := by decide
  rw [objectText, List.cons_append, size_cons, size_append, size_cons, size_nil, size_members,
    hopen, hclose]
  omega

/-! ## Compaction -/

/-- Where a scan of JSON text stands. -/
inductive Place where
  | between
  | inString
  | escaped
  deriving DecidableEq

def Place.next : Place → Char → Place
  | .between, c => if c = '"' then .inString else .between
  | .inString, c => if c = '"' then .between else if c = '\\' then .escaped else .inString
  | .escaped, _ => .inString

def isBlank (c : Char) : Bool := c = ' ' || c = '\t' || c = '\n' || c = '\r'

/-- What is written for a character. -/
def kept (p : Place) (c : Char) : List Char :=
  if special c then unicodeEscape c
  else if p = .between ∧ isBlank c then []
  else [c]

def compactFrom : Place → List Char → List Char
  | _, [] => []
  | p, c :: rest => kept p c ++ compactFrom (p.next c) rest

/-- A JSON text without the white space between its tokens. -/
def compact (cs : List Char) : List Char := compactFrom .between cs

/-- The bytes a character of the text takes. -/
def keptSize (p : Place) (c : Char) : Nat :=
  if special c then 6
  else if p = .between ∧ isBlank c then 0
  else c.utf8Size

def compactSizeFrom : Place → List Char → Nat
  | _, [] => 0
  | p, c :: rest => keptSize p c + compactSizeFrom (p.next c) rest

def compactSize (cs : List Char) : Nat := compactSizeFrom .between cs

theorem size_kept (p : Place) (c : Char) : size (kept p c) = keptSize p c := by
  unfold kept keptSize
  split
  · exact size_unicodeEscape c
  · split
    · rfl
    · simp

theorem size_compactFrom (p : Place) (cs : List Char) :
    size (compactFrom p cs) = compactSizeFrom p cs := by
  induction cs generalizing p with
  | nil => rfl
  | cons c rest ih => rw [compactFrom, size_append, size_kept, ih, compactSizeFrom]

theorem size_compact (cs : List Char) : size (compact cs) = compactSize cs :=
  size_compactFrom .between cs

/-! ## Compacting twice -/

/-- A character that is copied wherever it stands, and leaves the scan where it is. -/
def plain (c : Char) : Bool :=
  !special c && !isBlank c && c != '"' && c != '\\'

theorem hexDigit_plain (n : Nat) : plain (hexDigit n) = true := by
  have hall : ∀ c ∈ "0123456789abcdef".toList, plain c = true :=
    List.all_eq_true.mp (by decide)
  exact hall _ (hexDigit_mem n)

theorem kept_plain {c : Char} (h : plain c = true) (p : Place) : kept p c = [c] := by
  simp only [plain, Bool.and_eq_true, Bool.not_eq_true', bne_iff_ne] at h
  simp [kept, h.1.1.1, h.1.1.2]

theorem next_plain {c : Char} (h : plain c = true) {p : Place} (hp : p ≠ .escaped) :
    p.next c = p := by
  simp only [plain, Bool.and_eq_true, bne_iff_ne] at h
  cases p with
  | between => simp [Place.next, h.1.2]
  | inString => simp [Place.next, h.1.2, h.2]
  | escaped => exact absurd rfl hp

theorem compactFrom_append (p : Place) (cs ds : List Char) :
    compactFrom p (cs ++ ds) = compactFrom p cs ++ compactFrom (cs.foldl Place.next p) ds := by
  induction cs generalizing p with
  | nil => rfl
  | cons c rest ih => rw [List.cons_append, compactFrom, compactFrom, ih, List.append_assoc]; rfl

theorem compactFrom_plain {p : Place} (hp : p ≠ .escaped) {cs : List Char}
    (h : ∀ c ∈ cs, plain c = true) : compactFrom p cs = cs ∧ cs.foldl Place.next p = p := by
  induction cs with
  | nil => exact ⟨rfl, rfl⟩
  | cons c rest ih =>
    have hc : plain c = true := h c List.mem_cons_self
    obtain ⟨hsame, hplace⟩ := ih fun x hx => h x (List.mem_cons_of_mem _ hx)
    refine ⟨?_, ?_⟩
    · rw [compactFrom, kept_plain hc, next_plain hc hp, hsame]
      rfl
    · rw [List.foldl_cons, next_plain hc hp, hplace]

theorem unicodeEscape_eq (c : Char) :
    ∃ digits : List Char, unicodeEscape c = '\\' :: 'u' :: digits ∧ ∀ d ∈ digits, plain d = true := by
  refine ⟨[hexDigit (c.toNat / 4096 % 16), hexDigit (c.toNat / 256 % 16),
    hexDigit (c.toNat / 16 % 16), hexDigit (c.toNat % 16)], rfl, ?_⟩
  intro d hd
  simp only [List.mem_cons, List.not_mem_nil, or_false] at hd
  rcases hd with rfl | rfl | rfl | rfl <;> exact hexDigit_plain _

/-- An escape is copied as it is, and a scan leaves it as it leaves a special character. -/
theorem compactFrom_unicodeEscape (p : Place) {c : Char} (hc : special c = true) :
    compactFrom p (unicodeEscape c) = unicodeEscape c ∧
      (unicodeEscape c).foldl Place.next p = p.next c := by
  obtain ⟨digits, heq, hplain⟩ := unicodeEscape_eq c
  have hu : plain 'u' = true := by decide
  have hquote : c ≠ '"' := by
    rintro rfl
    cases hc
  have hslash : c ≠ '\\' := by
    rintro rfl
    cases hc
  rw [heq]
  cases p with
  | between =>
    obtain ⟨hsame, hplace⟩ := compactFrom_plain (p := .between) (by decide) hplain
    refine ⟨?_, ?_⟩
    · show '\\' :: (kept .between 'u' ++ compactFrom (Place.between.next 'u') digits) = _
      rw [kept_plain hu, next_plain hu (by decide), hsame]
      rfl
    · show digits.foldl Place.next .between = _
      simp [hplace, Place.next, hquote]
  | inString =>
    obtain ⟨hsame, hplace⟩ := compactFrom_plain (p := .inString) (by decide) hplain
    refine ⟨?_, ?_⟩
    · show '\\' :: (kept .escaped 'u' ++ compactFrom .inString digits) = _
      rw [kept_plain hu, hsame]
      rfl
    · show digits.foldl Place.next .inString = _
      simp [hplace, Place.next, hquote, hslash]
  | escaped =>
    obtain ⟨hsame, hplace⟩ := compactFrom_plain (p := .inString) (by decide) hplain
    refine ⟨?_, ?_⟩
    · show '\\' :: (kept .inString 'u' ++ compactFrom .inString digits) = _
      rw [kept_plain hu, hsame]
      rfl
    · show digits.foldl Place.next .inString = _
      simp [hplace, Place.next]

theorem compactFrom_kept (p : Place) (c : Char) :
    compactFrom p (kept p c) = kept p c ∧ (kept p c).foldl Place.next p = p.next c := by
  by_cases hs : special c = true
  · rw [kept, if_pos hs]
    exact compactFrom_unicodeEscape p hs
  · by_cases hb : p = .between ∧ isBlank c = true
    · have hc : c ≠ '"' := by
        rintro rfl
        cases hb.2
      have hkept : kept p c = [] := by rw [kept, if_neg hs, if_pos hb]
      rw [hkept, hb.1]
      refine ⟨rfl, ?_⟩
      simp [Place.next, hc]
    · have hkept : kept p c = [c] := by rw [kept, if_neg hs, if_neg hb]
      rw [hkept]
      refine ⟨?_, rfl⟩
      rw [compactFrom, hkept]
      rfl

theorem compactFrom_idem (p : Place) (cs : List Char) :
    compactFrom p (compactFrom p cs) = compactFrom p cs := by
  induction cs generalizing p with
  | nil => rfl
  | cons c rest ih =>
    obtain ⟨hsame, hplace⟩ := compactFrom_kept p c
    rw [compactFrom, compactFrom_append, hsame, hplace, ih]

/-- A text that was compacted before is copied as it is. -/
theorem compact_idem (cs : List Char) : compact (compact cs) = compact cs :=
  compactFrom_idem .between cs

end Anyhook.Lib.JsonText
