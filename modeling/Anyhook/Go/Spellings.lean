import Anyhook.Security.InetAton
import Anyhook.Security.Spelling

/-! One address, many spellings. The Go policy looks at the host as it is spelled, so its
verdict on an address can depend on the spelling. For which addresses it does not is
decided here: the link-local and unique-local ones, and those that no spelling lets the
patterns and prefixes take for a blocked one. -/
namespace Anyhook.Go
open RegularExpression Anyhook.Lib.Regex Anyhook.Security

/-! ## Dotted texts -/

theorem octFieldRe_byteText {n : Nat} {s : List Char} (h : IsByteText n s) :
    octFieldRe.rmatch s = false := by
  rw [Bool.eq_false_iff]
  intro hm
  obtain ⟨t, u, rfl, ht, hu⟩ := (mul_rmatch_iff _ _ _).mp hm
  obtain rfl := (char_rmatch_iff _ _).mp ht
  exact ((oneOrMore_oneOf_rmatch_iff _ _).mp hu).1 (h.zero rfl)

/-- The field reader is exact on the decimal text of a byte. -/
theorem parseIPField_byteText {n : Nat} {s : List Char} (hn : n < 256) (h : IsByteText n s) :
    parseIPField s = some n := by
  have hdec : decFieldRe.rmatch s = true :=
    (oneOrMore_oneOf_rmatch_iff _ _).mpr ⟨h.ne_nil, h.digit⟩
  unfold parseIPField parseInt64
  rw [hexFieldRe_digits h.digit, octFieldRe_byteText h, hdec, h.value]
  simp only [Bool.false_eq_true, if_false, if_true]
  exact if_pos (by omega)

theorem ipv4ToOctets_text {o : Octets} (h : IsOctets o) : ipv4ToOctets o.text = some o := by
  obtain ⟨ha, hb, hc, hd⟩ := h
  have hsplit : o.text.splitOn '.' = [o.a, o.b, o.c, o.d].map (Nat.toDigits 10) := by
    refine List.splitOn_intercalate '.' (fun l hl hdot => ?_) (List.cons_ne_nil _ _)
    obtain ⟨n, hn, rfl⟩ := List.mem_map.mp hl
    have hlt : n < 256 := by
      simp only [List.mem_cons, List.not_mem_nil, or_false] at hn
      omega
    exact absurd ((isByteText hlt).digit '.' hdot) (by decide)
  unfold ipv4ToOctets octetsOf
  rw [hsplit]
  simp only [List.map_cons, List.map_nil, parseIPField_byteText ha (isByteText ha),
    parseIPField_byteText hb (isByteText hb), parseIPField_byteText hc (isByteText hc),
    parseIPField_byteText hd (isByteText hd), Option.bind_eq_bind, Option.bind_some]
  exact if_pos (by omega)

theorem shortNumberRe_byteText {n : Nat} {s : List Char} (h : IsByteText n s) :
    shortNumberRe.rmatch s = true := by
  have hdigit : ∀ c ∈ s, (oneOf digits).rmatch [c] = true :=
    fun c hc => (oneOf_rmatch_iff _ _).mpr ⟨c, h.digit c hc, rfl⟩
  have hopt : (optionally (oneOf digits)).rmatch [] = true := rfl
  have hopt' : ∀ c ∈ s, (optionally (oneOf digits)).rmatch [c] = true :=
    fun c hc => (optionally_rmatch_iff _ _).mpr (.inr (hdigit c hc))
  have hlen := h.length_le
  obtain _ | ⟨a, _ | ⟨b, _ | ⟨c, _ | ⟨d, s⟩⟩⟩⟩ := s
  · exact absurd rfl h.ne_nil
  · exact (mul_rmatch_iff _ _ _).mpr ⟨[a], [], rfl,
      (mul_rmatch_iff _ _ _).mpr ⟨[a], [], rfl, hdigit a (by simp), hopt⟩, hopt⟩
  · exact (mul_rmatch_iff _ _ _).mpr ⟨[a, b], [], rfl,
      (mul_rmatch_iff _ _ _).mpr ⟨[a], [b], rfl, hdigit a (by simp), hopt' b (by simp)⟩, hopt⟩
  · exact (mul_rmatch_iff _ _ _).mpr ⟨[a, b], [c], rfl,
      (mul_rmatch_iff _ _ _).mpr ⟨[a], [b], rfl, hdigit a (by simp), hopt' b (by simp)⟩,
      hopt' c (by simp)⟩
  · simp only [List.length_cons] at hlen
    omega

theorem dottedRe_text {o : Octets} (h : IsOctets o) : dottedRe.rmatch o.text = true := by
  obtain ⟨ha, hb, hc, hd⟩ := h
  have hjoin : ∀ {P Q : RegularExpression Char} {x y : List Char}, P.rmatch x = true →
      Q.rmatch y = true → (P * Q).rmatch (x ++ y) = true :=
    fun hx hy => (mul_rmatch_iff _ _ _).mpr ⟨_, _, rfl, hx, hy⟩
  have hdot : (char '.' : RegularExpression Char).rmatch ['.'] = true := rfl
  have hshort : ∀ {n : Nat}, n < 256 → shortNumberRe.rmatch (Nat.toDigits 10 n) = true :=
    fun hn => shortNumberRe_byteText (isByteText hn)
  have htext : o.text = Nat.toDigits 10 o.a ++ ['.'] ++ Nat.toDigits 10 o.b ++ ['.'] ++
      Nat.toDigits 10 o.c ++ ['.'] ++ Nat.toDigits 10 o.d := by
    simp [Octets.text, List.intercalate]
  rw [htext]
  exact hjoin (hjoin (hjoin (hjoin (hjoin (hjoin (hshort ha) hdot) (hshort hb)) hdot)
    (hshort hc)) hdot) (hshort hd)

/-! ## From the policy to the literal -/

/-- A host with a colon is not read as numbers. -/
theorem ipv4ToOctets_colon {host : List Char} (hc : ':' ∈ host) : ipv4ToOctets host = none := by
  have hfield : ∀ s : List Char, ':' ∈ s → parseIPField s = none := by
    intro s hs
    unfold parseIPField
    rw [rmatch_eq_false hs (show ':' ∉ letters hexFieldRe by decide),
      rmatch_eq_false hs (show ':' ∉ letters octFieldRe by decide),
      rmatch_eq_false hs (show ':' ∉ letters decFieldRe by decide)]
    rfl
  have hpart : ∃ s ∈ host.splitOn '.', ':' ∈ s := by
    have hjoin : ':' ∈ ['.'].intercalate (host.splitOn '.') := by rwa [List.intercalate_splitOn]
    rcases mem_intercalate hjoin with h | h
    · exact absurd h (by decide)
    · exact h
  obtain ⟨s, hs, hcs⟩ := hpart
  have hnone := hfield s hcs
  unfold ipv4ToOctets octetsOf
  split
  · rename_i p q r t hparts
    rw [hparts] at hs
    simp only [List.mem_cons, List.not_mem_nil, or_false] at hs
    rcases hs with rfl | rfl | rfl | rfl <;> simp [hnone]
  · rename_i p hparts
    rw [hparts] at hs
    obtain rfl := List.mem_singleton.mp hs
    simp [hnone]
  · rfl

/-- The URL of a literal, and what `url.Parse` makes of it. -/
def literalUrl (s : String) : String := "http://[" ++ s ++ "]/"

def literalURL (s : String) : URL :=
  { scheme := "http", host := "[" ++ s ++ "]", hostname := s }

variable {s : List Char} {A : Address}

/-- The policy's verdict on a spelling is that of `blockedLiteral` on its lower case. -/
theorem defaultURLPolicy_literal (fold : Char → List Char) {parse : String → Option URL} {s : String}
    (h : Spells s.toList A) (hparse : parse (literalUrl s) = some (literalURL s)) :
    (defaultURLPolicy fold parse {} (literalUrl s)).allowed =
      !blockedLiteral ipv4ToOctets (asciiLower s.toList) := by
  have hlow := h.asciiLower
  have hlower : toLower fold s.toList = asciiLower s.toList :=
    toLower_of_ascii fold fun c hc => h.ascii hc
  have hcolon := hlow.colon_mem
  have hname : ¬ (asciiLower s.toList = "localhost".toList ∨
      ".localhost".toList <:+ asciiLower s.toList) := by
    have hl : 'l' ∉ asciiLower s.toList := hlow.not_mem (by decide)
    intro hor
    rcases hor with he | he
    · exact hl (he ▸ by decide)
    · exact hl (he.subset (by decide))
  have hnum : looksNumeric (asciiLower s.toList) = false := by
    unfold looksNumeric
    rw [rmatch_eq_false hcolon (by decide), Bool.and_false]
  have hbracket : unbracket (asciiLower s.toList) = asciiLower s.toList := by
    have hb : (asciiLower s.toList).head? ≠ some '[' := by
      intro he
      exact hlow.not_mem (by decide) (List.mem_of_mem_head? he)
    simp [unbracket, hb]
  have hhost : ¬ ((literalURL s).scheme = "" ∨ (literalURL s).host = "") := by
    intro hor
    rcases hor with he | he
    · exact absurd he (by simp [literalURL])
    · have := congrArg String.toList he
      simp [literalURL, String.toList_append] at this
  unfold defaultURLPolicy
  rw [hparse]
  dsimp only
  rw [if_neg hhost, if_neg (by simp [literalURL]), show (literalURL s).hostname = s from rfl,
    List.map_nil, if_neg (by simp), hlower, if_neg hname, ipv4ToOctets_colon hcolon]
  dsimp only
  rw [hnum, if_neg Bool.false_ne_true, if_pos hcolon, isBlockedIPv6, toLower_asciiLower, hlower,
    hbracket]
  cases blockedLiteral ipv4ToOctets (asciiLower s.toList) <;> rfl

/-! ## What a refused spelling says of its address -/

theorem fullLoopbackV6Re_rmatch (h : fullLoopbackV6Re.rmatch s = true) :
    s = "0:0:0:0:0:0:0:1".toList := by
  obtain ⟨t, u, rfl, ht, hu⟩ := (mul_rmatch_iff _ _ _).mp h
  have hpair : ∀ x, (char '0' * char ':' : RegularExpression Char).rmatch x = true ↔
      x = ['0', ':'] := by
    intro x
    rw [mul_rmatch_iff]
    constructor
    · intro ⟨t, u, hx, ht, hu⟩
      rw [hx, (char_rmatch_iff _ _).mp ht, (char_rmatch_iff _ _).mp hu]
      rfl
    · intro hx
      exact ⟨['0'], [':'], hx, rfl, rfl⟩
  rw [(pow_rmatch_iff hpair 7 t).mp ht, (char_rmatch_iff _ _).mp hu]
  decide

/-- What the search for a mapped tail finds in a spelling is the embedded address. -/
theorem mapped_of_findAtEnd (h : Spells s A) {found : List Char}
    (hf : findAtEnd ipv4MappedRe s = some found) :
    ∃ d, found = "::ffff:".toList ++ d ∧ '.' ∈ s ∧ IsOctets A.embedded ∧ d = A.embedded.text ∧
      LooksMapped A := by
  obtain ⟨⟨X, rfl⟩, hm⟩ := of_findAtEnd hf
  obtain ⟨lit, d, rfl, hlit, hd⟩ := (mul_rmatch_iff _ _ _).mp hm
  obtain rfl := (literal_rmatch_iff _ _).mp hlit
  have hdot := dot_mem_of_dottedRe hd
  have hcolon : ':' ∉ d := fun hc => absurd (mem_letters hd ':' hc) (by decide)
  rw [← List.append_assoc] at h
  obtain ⟨hlooks, hoct, htext⟩ := h.looksMapped hdot hcolon
  exact ⟨d, rfl, by simp [hdot], hoct, htext, hlooks⟩

theorem refused_spelling (h : Spells s A) (hb : blockedLiteral ipv4ToOctets s = true) :
    A.value = 0 ∨ A.value = 1 ∨ (∃ q ∈ localPrefixes, q.toList <+: s) ∨
      '.' ∈ s ∧ LooksMapped A ∧ isBlockedIpv4 A.embedded = true := by
  have hzeros : ∀ P : RegularExpression Char, (∀ c ∈ letters P, c = '0' ∨ c = ':') →
      P.rmatch s = true → A.value = 0 :=
    fun P hP hm => h.value_eq_zero fun c hc => hP c (mem_letters hm c hc)
  unfold blockedLiteral at hb
  simp only [Bool.or_eq_true] at hb
  obtain ((((((hone | hzero) | hfull) | hunspec) | hcomp) | hlink) | hunique) | hmapped := hb
  · rw [eq_of_beq hone] at h
    exact .inr (.inl h.value_eq_one)
  · rw [eq_of_beq hzero] at h
    exact .inl (h.value_eq_zero (List.all_iff_forall_prop.mp (by decide)))
  · rw [fullLoopbackV6Re_rmatch hfull] at h
    exact .inr (.inl h.value_eq_one_of_full)
  · exact .inl (hzeros _ (List.all_iff_forall_prop.mp (by decide)) hunspec)
  · exact .inl (hzeros _ (List.all_iff_forall_prop.mp (by decide)) hcomp)
  · obtain ⟨q, hq, hp⟩ := List.any_eq_true.mp hlink
    exact .inr (.inr (.inl ⟨q, List.mem_append_left ["fc", "fd"] hq,
      List.isPrefixOf_iff_prefix.mp hp⟩))
  · obtain ⟨q, hq, hp⟩ := List.any_eq_true.mp hunique
    exact .inr (.inr (.inl ⟨q, List.mem_append_right ["fe8", "fe9", "fea", "feb"] hq,
      List.isPrefixOf_iff_prefix.mp hp⟩))
  · right; right; right
    cases hf : findAtEnd ipv4MappedRe s with
    | none =>
      rw [hf] at hmapped
      cases hmapped
    | some mapped =>
      rw [hf] at hmapped
      obtain ⟨d, rfl, hdot, hoct, htext, hlooks⟩ := mapped_of_findAtEnd h hf
      refine ⟨hdot, hlooks, ?_⟩
      dsimp only at hmapped
      rw [show ("::ffff:".toList ++ d).drop 7 = d from rfl, htext, ipv4ToOctets_text hoct]
        at hmapped
      exact hmapped

/-! ## Prefixes and values -/

/-- A first piece that is short enough to be spelled with a prefix of a blocked range. -/
def ShortLocal (p : Nat) : Prop :=
  0xfc ≤ p ∧ p ≤ 0xfd ∨ 0xfc0 ≤ p ∧ p ≤ 0xfdf ∨ 0xfe8 ≤ p ∧ p ≤ 0xfeb

instance (p : Nat) : Decidable (ShortLocal p) := inferInstanceAs (Decidable (_ ∨ _))

theorem parseInt_append (q r : List Char) :
    parseInt 16 (q ++ r) = 16 ^ r.length * parseInt 16 q + parseInt 16 r := by
  have hfold : ∀ (r : List Char) (n : Nat),
      r.foldl (fun n c => 16 * n + digitValue c) n =
        16 ^ r.length * n + r.foldl (fun n c => 16 * n + digitValue c) 0 := by
    intro r
    induction r with
    | nil => simp
    | cons c r ih =>
      intro n
      rw [List.foldl_cons, List.foldl_cons, ih, ih (16 * 0 + digitValue c), List.length_cons,
        pow_succ, Nat.mul_add, Nat.mul_assoc, Nat.mul_zero, Nat.zero_add, Nat.add_assoc]
  rw [parseInt, List.foldl_append, hfold]
  rfl

theorem parseInt_lt {r : List Char} (h : ∀ c ∈ r, c ∈ hexDigits) :
    parseInt 16 r < 16 ^ r.length := by
  induction r with
  | nil => decide
  | cons c r ih =>
    have hc := digitValue_lt (h c List.mem_cons_self)
    have hr := ih fun d hd => h d (List.mem_cons_of_mem _ hd)
    rw [show c :: r = [c] ++ r from rfl, parseInt_append]
    have hone : parseInt 16 [c] = digitValue c := by simp [parseInt]
    rw [hone, List.length_append, List.length_singleton, pow_add]
    have hmul : 16 ^ r.length * digitValue c ≤ 16 ^ r.length * 15 :=
      Nat.mul_le_mul_left _ (by omega)
    omega

/-- What a group that starts with a prefix of a blocked range counts. -/
theorem local_group {q : String} {t : List Char} (hq : q ∈ localPrefixes) (ht : IsGroup t)
    (hp : q.toList <+: t) :
    t.length = 4 ∧ IsLocal (parseInt 16 t) ∨ t.length < 4 ∧ ShortLocal (parseInt 16 t) := by
  obtain ⟨r, rfl⟩ := hp
  have hall : ∀ q ∈ localPrefixes,
      q.toList.length = 3 ∧ 0xfe8 ≤ parseInt 16 q.toList ∧ parseInt 16 q.toList ≤ 0xfeb ∨
      q.toList.length = 2 ∧ 0xfc ≤ parseInt 16 q.toList ∧ parseInt 16 q.toList ≤ 0xfd := by
    decide +kernel
  have hq' := hall q hq
  have hlen := ht.2.1
  have hr := parseInt_lt (r := r) fun c hc => ht.2.2 c (List.mem_append_right _ hc)
  rw [parseInt_append, List.length_append] at *
  have hcount : r.length = 0 ∨ r.length = 1 ∨ r.length = 2 := by omega
  unfold IsLocal ShortLocal
  rcases hcount with hn | hn | hn <;> rw [hn] at hr hlen ⊢ <;> omega

theorem prefix_of_prefix_colon {q t rest : List Char} (hq : ':' ∉ q)
    (h : q <+: t ++ ':' :: rest) : q <+: t := by
  rcases List.prefix_or_prefix_of_prefix h (List.prefix_append t _) with hqt | ⟨r, rfl⟩
  · exact hqt
  · rw [List.prefix_append_right_inj] at h
    cases r with
    | nil => simp
    | cons c r =>
      obtain ⟨u, hu⟩ := h
      obtain rfl := (List.cons.inj hu).1
      exact absurd (List.mem_append_right _ List.mem_cons_self) hq

theorem colon_not_mem_localPrefix {q : String} (hq : q ∈ localPrefixes) : ':' ∉ q.toList := by
  have hall : ∀ q ∈ localPrefixes, ':' ∉ q.toList := by decide
  exact hall q hq

theorem local_first (h : Spells s A) {q : String} (hq : q ∈ localPrefixes)
    (hp : q.toList <+: s) : IsLocal A.first ∨ ShortLocal A.first := by
  obtain ⟨hhead, -⟩ | ⟨t, rest, rfl, ht, hvalue⟩ := h.first
  · have hall : ∀ q ∈ localPrefixes, q.toList.head? = some 'f' := by decide
    obtain ⟨r, rfl⟩ := hp
    rw [List.head?_append, hall q hq] at hhead
    cases hhead
  · rw [← hvalue]
    have hpt := prefix_of_prefix_colon (colon_not_mem_localPrefix hq) hp
    exact (local_group hq ht hpt).imp (·.2) (·.2)

/-- Every lower-case spelling of a local address starts with a prefix of its range. -/
theorem local_prefix (h : Spells s A) (hlower : asciiLower s = s) (hA : IsLocal A.first) :
    ∃ q ∈ localPrefixes, q.toList <+: s := by
  obtain ⟨-, hzero⟩ | ⟨t, rest, rfl, ht, hvalue⟩ := h.first
  · unfold IsLocal at hA
    omega
  · have hlen : t.length = 4 := by
      have hlt := parseInt_lt ht.2.2
      have hle := ht.2.1
      have hpow : t.length ≤ 3 → 16 ^ t.length ≤ 16 ^ 3 := Nat.pow_le_pow_right (by decide)
      unfold IsLocal at hA
      omega
    have hchars : ∀ c ∈ t, c ∈ lowerHexDigits := by
      intro c hc
      have hfix : c.toLower = c := by
        exact List.map_inj_left.mp (hlower.trans (List.map_id _).symm) c
          (List.mem_append_left _ hc)
      rw [← hfix]
      exact (toLower_hexDigit (ht.2.2 c hc)).1
    obtain ⟨q, hq, hpq⟩ := padded_local hA
    rw [← hvalue, padded_parseInt hlen hchars] at hpq
    exact ⟨q, hq, hpq.trans (List.prefix_append _ _)⟩

theorem short_prefix {p : Nat} (h : ShortLocal p) :
    ∃ q ∈ localPrefixes, q.toList <+: hexText p := by
  have hall : (∀ k < 2, ∃ q ∈ localPrefixes, q.toList <+: hexText (0xfc + k)) ∧
      (∀ k < 32, ∃ q ∈ localPrefixes, q.toList <+: hexText (0xfc0 + k)) ∧
      ∀ k < 4, ∃ q ∈ localPrefixes, q.toList <+: hexText (0xfe8 + k) := by decide +kernel
  obtain ⟨htwo, hthree, hlink⟩ := hall
  rcases h with ⟨hge, hle⟩ | ⟨hge, hle⟩ | ⟨hge, hle⟩
  · obtain ⟨k, rfl⟩ := Nat.exists_eq_add_of_le hge
    exact htwo k (by omega)
  · obtain ⟨k, rfl⟩ := Nat.exists_eq_add_of_le hge
    exact hthree k (by omega)
  · obtain ⟨k, rfl⟩ := Nat.exists_eq_add_of_le hge
    exact hlink k (by omega)

/-! ## Spellings that are allowed and spellings that are refused -/

/-- With four digits a piece, only the local addresses are refused. -/
theorem paddedText_allowed (hA : ¬ IsLocal A.first) :
    blockedLiteral ipv4ToOctets (paddedText A) = false := by
  rw [Bool.eq_false_iff]
  intro hb
  have hsplit : ∃ rest, paddedText A = padded A.first ++ ':' :: rest := by
    obtain ⟨a, b, c, d, e, f, g, h, hp, -⟩ := A.exists_pieces
    unfold paddedText Address.first
    rw [hp]
    exact ⟨_, rfl⟩
  rcases refused_spelling (spells_paddedText A) hb with hzero | hone | ⟨q, hq, hp⟩ | ⟨hdot, -⟩
  · unfold paddedText at hb
    rw [A.value_eq_zero_iff.mp hzero] at hb
    exact absurd hb (by decide +kernel)
  · unfold paddedText at hb
    rw [A.value_eq_one_iff.mp hone] at hb
    exact absurd hb (by decide +kernel)
  · obtain ⟨rest, hrest⟩ := hsplit
    rw [hrest] at hp
    have hpt := prefix_of_prefix_colon (colon_not_mem_localPrefix hq) hp
    rcases local_group hq (isGroup_padded _) hpt with ⟨-, hloc⟩ | ⟨hlen, -⟩
    · rw [parseInt_padded] at hloc
      · exact hA hloc
      · obtain ⟨a, b, c, d, e, f, g, h, hp, ha, -⟩ := A.exists_pieces
        simpa [Address.first, hp] using ha
    · exact absurd hlen (by simp [padded])
  · exact absurd hdot (not_mem_of_plain (plain_paddedText A) (by decide))

/-- An address that a spelling makes the policy refuse has such a spelling. -/
theorem exists_refused (hA : A.value = 0 ∨ A.value = 1 ∨ ShortLocal A.first ∨
    LooksMapped A ∧ isBlockedIpv4 A.embedded = true) :
    ∃ s, Spells s A ∧ blockedLiteral ipv4ToOctets (asciiLower s) = true := by
  have hempty : (Part.ofPieces padded isGroup_padded []).values = [] := rfl
  rcases hA with hzero | hone | hshort | ⟨hmapped, hblocked⟩
  · refine ⟨"::".toList, ?_, by decide +kernel⟩
    refine .compressed (.ofPieces padded isGroup_padded []) (.ofPieces padded isGroup_padded [])
      8 (by decide) rfl ?_
    rw [hempty, A.value_eq_zero_iff.mp hzero]
    rfl
  · refine ⟨"::1".toList, ?_, by decide +kernel⟩
    have hvalue : (Part.ofPieces hexText isGroup_hexText [1]).values = [1] := by decide +kernel
    refine .compressed (.ofPieces padded isGroup_padded []) (.ofPieces hexText isGroup_hexText [1])
      7 (by decide) rfl ?_
    rw [hempty, hvalue, A.value_eq_one_iff.mp hone]
    rfl
  · refine ⟨colons A.pieces, spells_colons A, ?_⟩
    rw [asciiLower_of_plain (plain_colons _)]
    obtain ⟨q, hq, hp⟩ := short_prefix hshort
    refine blockedLiteral_of_prefix hq (hp.trans ?_)
    obtain ⟨a, b, c, d, e, f, g, h, hpieces, -⟩ := A.exists_pieces
    unfold Address.first
    rw [hpieces]
    exact prefix_colons _ _
  · have hspells := spells_mixedText hmapped
    have hsuffix : "::ffff:".toList ++ A.embedded.text <:+ asciiLower (mixedText A) := by
      have hlower : asciiLower (mixedText A) = asciiLower ([':'].intercalate
          ((A.pieces.take 4).map padded)) ++ ("::ffff:".toList ++ A.embedded.text) := by
        unfold mixedText
        rw [List.append_assoc]
        unfold asciiLower
        rw [List.map_append, List.map_append]
        congr 2
        exact Octets.asciiLower_text (isOctets_embedded A)
      rw [hlower]
      exact List.suffix_append _ _
    have hmatch : ipv4MappedRe.rmatch ("::ffff:".toList ++ A.embedded.text) = true :=
      (mul_rmatch_iff _ _ _).mpr ⟨_, _, rfl, (literal_rmatch_iff _ _).mpr rfl,
        dottedRe_text (isOctets_embedded A)⟩
    refine ⟨mixedText A, hspells, ?_⟩
    obtain ⟨found, hfound⟩ := findAtEnd_isSome hsuffix hmatch
    obtain ⟨d, rfl, -, hoct, htext, -⟩ := mapped_of_findAtEnd hspells.asciiLower hfound
    unfold blockedLiteral
    rw [hfound]
    dsimp only
    rw [show ("::ffff:".toList ++ d).drop 7 = d from rfl, htext, ipv4ToOctets_text hoct]
    dsimp only
    rw [hblocked, Bool.or_true]

/-! ## The result -/

/-- When the verdict on an address does not depend on its spelling: the address is
link-local or unique-local, or it is not `::` or `::1`, its first piece cannot be spelled
with a prefix of a blocked range, and it embeds no blocked IPv4 address after `0:ffff`. -/
def Unambiguous (A : Address) : Prop :=
  A.IsLinkLocal ∨ A.IsUniqueLocal ∨
    A.value ≠ 0 ∧ A.value ≠ 1 ∧ ¬ ShortLocal A.first ∧
      ¬ (LooksMapped A ∧ isBlockedIpv4 A.embedded = true)

instance (A : Address) : Decidable (Unambiguous A) := inferInstanceAs (Decidable (_ ∨ _))

/-- All spellings of an address get one verdict, and none of a blocked address is allowed,
exactly for the unambiguous addresses. -/
theorem spelling_independent_iff (fold : Char → List Char) (parse : String → Option URL)
    (hparse : ∀ (s : String) (A : Address), Spells s.toList A →
      parse (literalUrl s) = some (literalURL s)) (A : Address) :
    (∀ s₁ s₂ : String, Spells s₁.toList A → Spells s₂.toList A →
        (defaultURLPolicy fold parse {} (literalUrl s₁)).allowed =
          (defaultURLPolicy fold parse {} (literalUrl s₂)).allowed) ∧
      (A.IsBlocked → ∀ s : String, Spells s.toList A →
        (defaultURLPolicy fold parse {} (literalUrl s)).allowed = false) ↔
    Unambiguous A := by
  have hverdict : ∀ s : String, Spells s.toList A →
      (defaultURLPolicy fold parse {} (literalUrl s)).allowed =
        !blockedLiteral ipv4ToOctets (asciiLower s.toList) :=
    fun s hs => defaultURLPolicy_literal fold hs (hparse s A hs)
  by_cases hlocal : IsLocal A.first
  · -- every spelling is refused
    have hrefused : ∀ s : String, Spells s.toList A →
        (defaultURLPolicy fold parse {} (literalUrl s)).allowed = false := by
      intro s hs
      obtain ⟨q, hq, hp⟩ := local_prefix hs.asciiLower hs.asciiLower_asciiLower hlocal
      rw [hverdict s hs, blockedLiteral_of_prefix hq hp]
      rfl
    have hunamb : Unambiguous A := (isLocal_first_iff A).mp hlocal |>.elim .inl (.inr ∘ .inl)
    refine iff_of_true ⟨fun s₁ s₂ h₁ h₂ => ?_, fun _ => hrefused⟩ hunamb
    rw [hrefused s₁ h₁, hrefused s₂ h₂]
  · have hpadded : blockedLiteral ipv4ToOctets (asciiLower (paddedText A)) = false := by
      rw [asciiLower_of_plain (plain_paddedText A)]
      exact paddedText_allowed hlocal
    constructor
    · intro ⟨hsame, _⟩
      refine .inr (.inr ?_)
      by_contra hnot
      have hrefusable : A.value = 0 ∨ A.value = 1 ∨ ShortLocal A.first ∨
          LooksMapped A ∧ isBlockedIpv4 A.embedded = true := by tauto
      obtain ⟨s, hs, hb⟩ := exists_refused hrefusable
      have heq := hsame (String.ofList s) (String.ofList (paddedText A))
        (by rwa [String.toList_ofList]) (by rw [String.toList_ofList]; exact spells_paddedText A)
      rw [hverdict _ (by rwa [String.toList_ofList]),
        hverdict _ (by rw [String.toList_ofList]; exact spells_paddedText A),
        String.toList_ofList, String.toList_ofList, hb, hpadded] at heq
      cases heq
    · intro hunamb
      have hclean : A.value ≠ 0 ∧ A.value ≠ 1 ∧ ¬ ShortLocal A.first ∧
          ¬ (LooksMapped A ∧ isBlockedIpv4 A.embedded = true) := by
        rcases hunamb with hlink | hunique | hclean
        · exact absurd ((isLocal_first_iff A).mpr (.inl hlink)) hlocal
        · exact absurd ((isLocal_first_iff A).mpr (.inr hunique)) hlocal
        · exact hclean
      obtain ⟨hzero, hone, hshort, hmapped⟩ := hclean
      have hallowed : ∀ s : String, Spells s.toList A →
          (defaultURLPolicy fold parse {} (literalUrl s)).allowed = true := by
        intro s hs
        rw [hverdict s hs, Bool.not_eq_true_eq_eq_false, Bool.eq_false_iff]
        intro hb
        rcases refused_spelling hs.asciiLower hb with h0 | h1 | ⟨q, hq, hp⟩ | ⟨-, hm⟩
        · exact hzero h0
        · exact hone h1
        · exact (local_first hs.asciiLower hq hp).elim hlocal hshort
        · exact hmapped hm
      refine ⟨fun s₁ s₂ h₁ h₂ => by rw [hallowed s₁ h₁, hallowed s₂ h₂], fun hblocked => ?_⟩
      exfalso
      rcases hblocked with h0 | h1 | hlink | hunique | ⟨hm, hb⟩
      · exact hzero h0
      · exact hone h1
      · exact hlocal ((isLocal_first_iff A).mpr (.inl hlink))
      · exact hlocal ((isLocal_first_iff A).mpr (.inr hunique))
      · obtain ⟨g, h, hp⟩ := A.isMapped_iff.mp hm
        refine hmapped ⟨?_, hb⟩
        rw [LooksMapped, hp]
        exact ⟨rfl, rfl⟩

/-- `url.Parse` on the URL of a literal: the brackets' contents, unchanged. -/
def parseLiteral (raw : String) : Option URL :=
  if "http://[".toList <+: raw.toList ∧ "]/".toList <:+ raw.toList then
    some (literalURL (String.ofList ((raw.toList.drop 8).dropLast.dropLast)))
  else none

theorem parseLiteral_literalUrl (s : String) :
    parseLiteral (literalUrl s) = some (literalURL s) := by
  have htext : (literalUrl s).toList = "http://[".toList ++ (s.toList ++ "]/".toList) := by
    simp [literalUrl, String.toList_append]
  unfold parseLiteral
  have hend : "]/".toList <:+ "http://[".toList ++ (s.toList ++ "]/".toList) := by
    rw [← List.append_assoc]
    exact List.suffix_append _ _
  rw [htext, if_pos ⟨List.prefix_append _ _, hend⟩,
    show ("http://[".toList ++ (s.toList ++ "]/".toList)).drop 8 = s.toList ++ "]/".toList from rfl,
    show s.toList ++ "]/".toList = (s.toList ++ [']']) ++ ['/'] by simp, List.dropLast_concat,
    List.dropLast_concat, String.ofList_toList]

theorem public_address_spelling_independent :
    Unambiguous (.ofPieces 0x2001 0x4860 0x4860 0 0 0 0 0x8888) ∧
    ∀ s₁ s₂ : String, Spells s₁.toList (.ofPieces 0x2001 0x4860 0x4860 0 0 0 0 0x8888) →
      Spells s₂.toList (.ofPieces 0x2001 0x4860 0x4860 0 0 0 0 0x8888) →
        (defaultURLPolicy pure parseLiteral {} (literalUrl s₁)).allowed =
          (defaultURLPolicy pure parseLiteral {} (literalUrl s₂)).allowed := by
  have hunamb : Unambiguous (.ofPieces 0x2001 0x4860 0x4860 0 0 0 0 0x8888) := by decide +kernel
  refine ⟨hunamb, ((spelling_independent_iff pure parseLiteral ?_ _).mpr hunamb).1⟩
  intro s A _
  exact parseLiteral_literalUrl s

/-- `::1` is refused, but the same address with its zeros written out in full is not. -/
theorem loopback_spelling_allowed :
    ¬ ∀ A : Address,
      (∀ s₁ s₂ : String, Spells s₁.toList A → Spells s₂.toList A →
        (defaultURLPolicy pure parseLiteral {} (literalUrl s₁)).allowed =
          (defaultURLPolicy pure parseLiteral {} (literalUrl s₂)).allowed) ∧
      (A.IsBlocked → ∀ s : String, Spells s.toList A →
        (defaultURLPolicy pure parseLiteral {} (literalUrl s)).allowed = false) := by
  intro h
  have hspells : Spells "0000:0000:0000:0000:0000:0000:0000:0001".toList
      (.ofPieces 0 0 0 0 0 0 0 1) := by
    have hpadded := spells_paddedText (.ofPieces 0 0 0 0 0 0 0 1)
    rwa [show paddedText (.ofPieces 0 0 0 0 0 0 0 1) =
      "0000:0000:0000:0000:0000:0000:0000:0001".toList by decide +kernel] at hpadded
  have hrefused := (h (.ofPieces 0 0 0 0 0 0 0 1)).2 (by decide +kernel) _ hspells
  rw [defaultURLPolicy_literal pure hspells (parseLiteral_literalUrl _)] at hrefused
  exact absurd hrefused (by decide +kernel)

end Anyhook.Go
