import Anyhook.Go.UrlPolicy

/-! The spellings of an IPv4 address that `inet_aton` takes: one to four numbers between
dots, each in decimal, octal or hexadecimal and of any length, the last one filling the
bytes that are left. The policies read one and four numbers and refuse all other numeric
hosts, so that no spelling of a blocked address gets past them. -/
namespace Anyhook.Security
open RegularExpression Anyhook.Lib.Regex

/-! ## inet_aton -/

def octDigits : List Char := "01234567".toList

/-- One number: hexadecimal after `0x`, octal after another zero, else decimal. -/
def atonField (s : List Char) : Option Nat :=
  match s with
  | [] => none
  | '0' :: ds =>
    if ds.head? = some 'x' ∨ ds.head? = some 'X' then
      if ds.tail ≠ [] ∧ ds.tail.all (· ∈ hexDigits) then some (parseInt 16 ds.tail) else none
    else if ds.all (· ∈ octDigits) then some (parseInt 8 ds) else none
  | d :: ds => if (d :: ds).all (· ∈ digits) then some (parseInt 10 (d :: ds)) else none

/-- The address of a host: all numbers but the last are bytes. -/
def inetAton (host : List Char) : Option Nat :=
  match (host.splitOn '.').mapM atonField with
  | some [n] => if n < 2 ^ 32 then some n else none
  | some [a, n] => if a ≤ 255 ∧ n < 2 ^ 24 then some (a * 2 ^ 24 + n) else none
  | some [a, b, n] =>
    if a ≤ 255 ∧ b ≤ 255 ∧ n < 2 ^ 16 then some (a * 2 ^ 24 + b * 2 ^ 16 + n) else none
  | some [a, b, c, n] =>
    if a ≤ 255 ∧ b ≤ 255 ∧ c ≤ 255 ∧ n < 2 ^ 8 then
      some (a * 2 ^ 24 + b * 2 ^ 16 + c * 2 ^ 8 + n)
    else none
  | _ => none

/-- A network by its first address and the length of its prefix. -/
def blockedNetworks : List (Nat × Nat) :=
  [(10 * 2 ^ 24, 8), (127 * 2 ^ 24, 8), (0, 8), (169 * 2 ^ 24 + 254 * 2 ^ 16, 16),
    (172 * 2 ^ 24 + 16 * 2 ^ 16, 12), (192 * 2 ^ 24 + 168 * 2 ^ 16, 16),
    (100 * 2 ^ 24 + 64 * 2 ^ 16, 10), (224 * 2 ^ 24, 3)]

def IsBlockedAddress (addr : Nat) : Prop :=
  ∃ net ∈ blockedNetworks, addr / 2 ^ (32 - net.2) = net.1 / 2 ^ (32 - net.2)

instance (addr : Nat) : Decidable (IsBlockedAddress addr) :=
  inferInstanceAs (Decidable (∃ net ∈ blockedNetworks, _))

/-! ## Fields -/

theorem atonField_cases {s : List Char} {n : Nat} (h : atonField s = some n) :
    (∃ x ds, s = '0' :: x :: ds ∧ x ∈ ['x', 'X'] ∧ ds ≠ [] ∧ (∀ c ∈ ds, c ∈ hexDigits) ∧
      n = parseInt 16 ds) ∨
    (∃ ds, s = '0' :: ds ∧ (∀ c ∈ ds, c ∈ octDigits) ∧ n = parseInt 8 ds) ∨
    (∃ d ds, s = d :: ds ∧ d ≠ '0' ∧ (∀ c ∈ d :: ds, c ∈ digits) ∧ n = parseInt 10 (d :: ds)) := by
  unfold atonField at h
  split at h
  · cases h
  · rename_i ds
    split at h
    · rename_i hx
      split at h
      · rename_i hds
        cases ds with
        | nil => simp at hx
        | cons x ds =>
          refine .inl ⟨x, ds, rfl, by simpa using hx, hds.1,
            List.all_iff_forall_prop.mp hds.2, ?_⟩
          exact (Option.some.inj h).symm
      · cases h
    · split at h
      · rename_i hds
        exact .inr (.inl ⟨ds, rfl, List.all_iff_forall_prop.mp hds, (Option.some.inj h).symm⟩)
      · cases h
  · rename_i d ds hd
    split at h
    · rename_i hds
      exact .inr (.inr ⟨d, ds, rfl, hd, List.all_iff_forall_prop.mp hds,
        (Option.some.inj h).symm⟩)
    · cases h

theorem hexFieldRe_marked {x : Char} {ds : List Char} (hx : x ∈ ['x', 'X']) (hne : ds ≠ [])
    (h : ∀ c ∈ ds, c ∈ hexDigits) : hexFieldRe.rmatch ('0' :: x :: ds) = true := by
  refine (mul_rmatch_iff _ _ _).mpr ⟨['0', x], ds, rfl, ?_, ?_⟩
  · exact (mul_rmatch_iff _ _ _).mpr
      ⟨['0'], [x], rfl, (char_rmatch_iff _ _).mpr rfl, (oneOf_rmatch_iff _ _).mpr ⟨x, hx, rfl⟩⟩
  · exact (oneOrMore_oneOf_rmatch_iff _ _).mpr ⟨hne, h⟩

theorem decFieldRe_digits {s : List Char} (hne : s ≠ []) (h : ∀ c ∈ s, c ∈ digits) :
    decFieldRe.rmatch s = true :=
  (oneOrMore_oneOf_rmatch_iff _ _).mpr ⟨hne, h⟩

theorem mem_digits_of_octDigits {c : Char} (h : c ∈ octDigits) : c ∈ digits := by
  have hall : ∀ c ∈ octDigits, c ∈ digits :=
    List.all_iff_forall_prop.mp (by decide)
  exact hall c h

theorem octFieldRe_zero {ds : List Char} (hne : ds ≠ []) (h : ∀ c ∈ ds, c ∈ octDigits) :
    octFieldRe.rmatch ('0' :: ds) = true :=
  (mul_rmatch_iff _ _ _).mpr ⟨['0'], ds, rfl, (char_rmatch_iff _ _).mpr rfl,
    (oneOrMore_oneOf_rmatch_iff _ _).mpr ⟨hne, h⟩⟩

theorem octFieldRe_nonzero {d : Char} {ds : List Char} (hd : d ≠ '0') :
    octFieldRe.rmatch (d :: ds) = false := by
  rw [Bool.eq_false_iff]
  intro hm
  obtain ⟨t, u, heq, ht, -⟩ := (mul_rmatch_iff _ _ _).mp hm
  rw [(char_rmatch_iff _ _).mp ht] at heq
  exact hd (List.cons.inj heq).1

theorem hexFieldRe_digits {s : List Char} (h : ∀ c ∈ s, c ∈ digits) :
    hexFieldRe.rmatch s = false := by
  rw [Bool.eq_false_iff]
  intro hm
  obtain ⟨t, u, rfl, ht, -⟩ := (mul_rmatch_iff _ _ _).mp hm
  obtain ⟨v, w, rfl, -, hw⟩ := (mul_rmatch_iff _ _ _).mp ht
  obtain ⟨c, hc, rfl⟩ := (oneOf_rmatch_iff _ _).mp hw
  have hdigit := h c (by simp)
  have hall : ∀ c ∈ ['x', 'X'], c ∉ digits :=
    List.all_iff_forall_prop.mp (by decide)
  exact hall c hc hdigit

/-- The pattern that takes a field, and what it reads. -/
theorem atonField_read {s : List Char} {n : Nat} (h : atonField s = some n) :
    hexFieldRe.rmatch s = true ∧ parseInt 16 (s.drop 2) = n ∨
    hexFieldRe.rmatch s = false ∧ octFieldRe.rmatch s = true ∧ parseInt 8 s = n ∨
    hexFieldRe.rmatch s = false ∧ octFieldRe.rmatch s = false ∧ decFieldRe.rmatch s = true ∧
      parseInt 10 s = n := by
  obtain ⟨x, ds, rfl, hx, hne, hds, rfl⟩ | ⟨ds, rfl, hds, rfl⟩ | ⟨d, ds, rfl, hd, hds, rfl⟩ :=
    atonField_cases h
  · exact .inl ⟨hexFieldRe_marked hx hne hds, rfl⟩
  · have hdigits : ∀ c ∈ '0' :: ds, c ∈ digits := by
      intro c hc
      rcases List.mem_cons.mp hc with rfl | hc
      · decide
      · exact mem_digits_of_octDigits (hds c hc)
    by_cases hne : ds = []
    · -- a lone zero is read as a decimal
      subst hne
      exact .inr (.inr ⟨hexFieldRe_digits hdigits, by decide, by decide, rfl⟩)
    · exact .inr (.inl ⟨hexFieldRe_digits hdigits, octFieldRe_zero hne hds, rfl⟩)
  · exact .inr (.inr ⟨hexFieldRe_digits hds, octFieldRe_nonzero hd,
      decFieldRe_digits (List.cons_ne_nil d ds) hds, rfl⟩)

theorem parseIpField_aton {s : List Char} {n : Nat} (h : atonField s = some n) :
    parseIpField s = some n := by
  unfold parseIpField
  obtain ⟨hhex, hn⟩ | ⟨hhex, hoct, hn⟩ | ⟨hhex, hoct, hdec, hn⟩ := atonField_read h
  · rw [hhex, if_pos rfl, hn]
  · rw [hhex, if_neg Bool.false_ne_true, hoct, if_pos rfl, hn]
  · rw [hhex, if_neg Bool.false_ne_true, hoct, if_neg Bool.false_ne_true, hdec, if_pos rfl, hn]

theorem parseIPField_aton {s : List Char} {n : Nat} (h : atonField s = some n) :
    Go.parseIPField s = if n < 2 ^ 63 then some n else none := by
  unfold Go.parseIPField Go.parseInt64
  obtain ⟨hhex, hn⟩ | ⟨hhex, hoct, hn⟩ | ⟨hhex, hoct, hdec, hn⟩ := atonField_read h
  · rw [hhex, if_pos rfl, hn]
  · rw [hhex, if_neg Bool.false_ne_true, hoct, if_pos rfl, hn]
  · rw [hhex, if_neg Bool.false_ne_true, hoct, if_neg Bool.false_ne_true, hdec, if_pos rfl, hn]

/-! ## Hosts -/

/-- A host made of such numbers only. -/
def IsNumericHost (host : List Char) : Prop :=
  ∀ s ∈ host.splitOn '.', (atonField s).isSome = true

/-- The bytes of an address. -/
def octets (addr : Nat) : Octets where
  a := addr / 2 ^ 24 % 256
  b := addr / 2 ^ 16 % 256
  c := addr / 2 ^ 8 % 256
  d := addr % 256

theorem isBlockedIpv4_octets {addr : Nat} (h : addr < 2 ^ 32) :
    isBlockedIpv4 (octets addr) = true ↔ IsBlockedAddress addr := by
  have h8 : ∀ a, addr / 16777216 = a ↔ addr / 16777216 % 256 = a := by omega
  have h16 : ∀ b < 256, ∀ a, addr / 65536 = a * 256 + b ↔
      addr / 16777216 % 256 = a ∧ addr / 65536 % 256 = b := by omega
  have h12 : addr / 1048576 = 2753 ↔ addr / 16777216 % 256 = 172 ∧
      16 ≤ addr / 65536 % 256 ∧ addr / 65536 % 256 ≤ 31 := by omega
  have h10 : addr / 4194304 = 401 ↔ addr / 16777216 % 256 = 100 ∧
      64 ≤ addr / 65536 % 256 ∧ addr / 65536 % 256 ≤ 127 := by omega
  have h3 : addr / 536870912 = 7 ↔ 224 ≤ addr / 16777216 % 256 := by omega
  unfold isBlockedIpv4 IsBlockedAddress blockedNetworks octets
  simp only [Bool.or_eq_true, beq_iff_eq, Bool.and_eq_true, decide_eq_true_eq, List.mem_cons,
    List.not_mem_nil, or_false, exists_eq_or_imp, exists_eq_left, Nat.reducePow, Nat.reduceMul,
    Nat.reduceAdd, Nat.reduceSub, Nat.reduceDiv, or_assoc, and_assoc]
  rw [h8 10, h8 127, h8 0, h16 254 (by decide) 169, h12, h16 168 (by decide) 192, h10, h3]

/-- A reader of fields: some of the numbers, and no other number. -/
def Reads (field : List Char → Option Nat) : Prop :=
  ∀ s n, (atonField s).isSome = true → field s = some n → atonField s = some n

theorem reads_parseIpField : Reads parseIpField := by
  intro s n hs hn
  obtain ⟨k, hk⟩ := Option.isSome_iff_exists.mp hs
  rw [parseIpField_aton hk] at hn
  rw [hk, hn]

theorem reads_parseIPField : Reads Go.parseIPField := by
  intro s n hs hn
  obtain ⟨k, hk⟩ := Option.isSome_iff_exists.mp hs
  rw [parseIPField_aton hk] at hn
  split at hn
  · rw [hk, hn]
  · cases hn

/-- What is read of a numeric host is its address. -/
theorem octetsOf_aton {field : List Char → Option Nat} (hfield : Reads field) {host : List Char}
    (hhost : IsNumericHost host) {o : Octets} (h : octetsOf field host = some o) :
    ((host.splitOn '.').length = 1 ∨ (host.splitOn '.').length = 4) ∧
      ∃ addr < 2 ^ 32, inetAton host = some addr ∧ o = octets addr := by
  unfold octetsOf at h
  unfold IsNumericHost at hhost
  unfold inetAton
  split at h
  · rename_i p q r s hsplit
    rw [hsplit] at hhost ⊢
    simp only [Option.bind_eq_bind, Option.bind_eq_some_iff] at h
    obtain ⟨a, ha, b, hb, c, hc, d, hd, h⟩ := h
    have ha := hfield p a (hhost p (by simp)) ha
    have hb := hfield q b (hhost q (by simp)) hb
    have hc := hfield r c (hhost r (by simp)) hc
    have hd := hfield s d (hhost s (by simp)) hd
    split at h
    · rename_i hbytes
      refine ⟨.inr rfl, a * 2 ^ 24 + b * 2 ^ 16 + c * 2 ^ 8 + d, by omega, ?_, ?_⟩
      · simp only [List.mapM_cons, List.mapM_nil, ha, hb, hc, hd, Option.bind_eq_bind,
          Option.bind_some, Option.pure_def]
        exact if_pos (by omega)
      · rw [← Option.some.inj h]
        unfold octets
        simp only [Octets.mk.injEq]
        omega
    · cases h
  · rename_i p hsplit
    rw [hsplit] at hhost ⊢
    simp only [Option.bind_eq_bind, Option.bind_eq_some_iff] at h
    obtain ⟨n, hn, h⟩ := h
    have hn := hfield p n (hhost p (by simp)) hn
    split at h
    · rename_i hlt
      refine ⟨.inl rfl, n, by omega, ?_, (Option.some.inj h).symm⟩
      simp only [List.mapM_cons, List.mapM_nil, hn, Option.bind_eq_bind, Option.bind_some,
        Option.pure_def]
      exact if_pos (by omega)
    · cases h
  · cases h

theorem fieldRe_aton {s : List Char} {n : Nat} (h : atonField s = some n) :
    (hexFieldRe + decFieldRe).rmatch s = true := by
  rw [add_rmatch_iff]
  obtain ⟨x, ds, rfl, hx, hne, hds, -⟩ | ⟨ds, rfl, hds, -⟩ | ⟨d, ds, rfl, -, hds, -⟩ :=
    atonField_cases h
  · exact .inl (hexFieldRe_marked hx hne hds)
  · refine .inr (decFieldRe_digits (List.cons_ne_nil _ _) ?_)
    intro c hc
    rcases List.mem_cons.mp hc with rfl | hc
    · decide
    · exact mem_digits_of_octDigits (hds c hc)
  · exact .inr (decFieldRe_digits (List.cons_ne_nil d ds) hds)

theorem atonField_head {s : List Char} {n : Nat} (h : atonField s = some n) :
    ∃ d ds, s = d :: ds ∧ d ∈ digits := by
  obtain ⟨x, ds, rfl, -⟩ | ⟨ds, rfl, -⟩ | ⟨d, ds, rfl, -, hds, -⟩ := atonField_cases h
  · exact ⟨'0', x :: ds, rfl, by decide⟩
  · exact ⟨'0', ds, rfl, by decide⟩
  · exact ⟨d, ds, rfl, hds d List.mem_cons_self⟩

theorem intercalate_dot (s : List Char) (ss : List (List Char)) :
    ['.'].intercalate (s :: ss) = s ++ (ss.map ('.' :: ·)).flatten := by
  induction ss generalizing s with
  | nil => simp [List.intercalate]
  | cons t ss ih =>
    have hcons : ['.'].intercalate (s :: t :: ss) = s ++ '.' :: ['.'].intercalate (t :: ss) := by
      simp [List.intercalate]
    rw [hcons, ih]
    simp

/-- A numeric host that is not read as an address is refused as one. -/
theorem looksNumeric_aton {host : List Char} (h : IsNumericHost host) :
    looksNumeric host = true := by
  have hjoin : List.intercalate ['.'] (host.splitOn '.') = host := List.intercalate_splitOn '.'
  unfold IsNumericHost at h
  cases hsplit : host.splitOn '.' with
  | nil => exact absurd hsplit (List.splitOn_ne_nil '.' host)
  | cons s ss =>
    rw [hsplit] at h hjoin
    rw [intercalate_dot] at hjoin
    have hfield : ∀ t ∈ s :: ss, ∃ n, atonField t = some n :=
      fun t ht => Option.isSome_iff_exists.mp (h t ht)
    obtain ⟨n, hn⟩ := hfield s List.mem_cons_self
    unfold looksNumeric
    rw [Bool.and_eq_true]
    refine ⟨?_, ?_⟩
    · obtain ⟨d, ds, rfl, hd⟩ := atonField_head hn
      rw [List.any_eq_true]
      exact ⟨d, by rw [← hjoin]; simp, decide_eq_true hd⟩
    · refine (mul_rmatch_iff _ _ _).mpr ⟨s, _, hjoin.symm, fieldRe_aton hn, ?_⟩
      refine (star_rmatch_iff _ _).mpr ⟨_, rfl, ?_⟩
      intro t ht
      obtain ⟨u, hu, rfl⟩ := List.mem_map.mp ht
      obtain ⟨k, hk⟩ := hfield u (List.mem_cons_of_mem _ hu)
      exact ⟨List.cons_ne_nil _ _, (mul_rmatch_iff _ _ _).mpr
        ⟨['.'], u, rfl, (char_rmatch_iff _ _).mpr rfl, fieldRe_aton hk⟩⟩

/-! ## The policies -/

/-- What `inet_aton` makes of a host agrees with the verdict on it. -/
def AgreesWithAton (host : List Char) (verdict : UrlCheckResult) : Prop :=
  (∀ addr, inetAton host = some addr → IsBlockedAddress addr → verdict.allowed = false) ∧
    (verdict.allowed = true →
      ((host.splitOn '.').length = 1 ∨ (host.splitOn '.').length = 4) ∧
        ∃ addr, inetAton host = some addr ∧ ¬ IsBlockedAddress addr)

theorem agreesWithAton_refused (host : List Char) (reason : String) :
    AgreesWithAton host (refused reason) :=
  ⟨fun _ _ _ => rfl, fun h => by cases h⟩

/-- The part of a check from the host's numbers on. -/
theorem agreesWithAton_numeric {field : List Char → Option Nat} (hfield : Reads field)
    {host : List Char} (hhost : IsNumericHost host) (rest : UrlCheckResult) :
    AgreesWithAton host (match octetsOf field host with
      | some o => if isBlockedIpv4 o then refused "private_or_reserved_ipv4" else permitted
      | none => if looksNumeric host then refused "ambiguous_numeric_host" else rest) := by
  cases hoctets : octetsOf field host with
  | none =>
    dsimp only
    rw [if_pos (looksNumeric_aton hhost)]
    exact agreesWithAton_refused host _
  | some o =>
    obtain ⟨hlen, addr, hlt, haton, rfl⟩ := octetsOf_aton hfield hhost hoctets
    dsimp only
    split
    · exact agreesWithAton_refused host _
    · rename_i hblocked
      rw [isBlockedIpv4_octets hlt] at hblocked
      refine ⟨fun addr' haddr' hblocked' => ?_, fun _ => ⟨hlen, addr, haton, hblocked⟩⟩
      rw [haton] at haddr'
      exact absurd (Option.some.inj haddr' ▸ hblocked') hblocked

/-- **Every spelling of a blocked address is refused**, and of the hosts made of numbers those
of one or four numbers that spell another address are the only ones allowed, in both
languages. -/
theorem aton_spellings_refused (fold : Char → List Char) (host : List Char)
    (hhost : IsNumericHost host) :
    (∀ (newUrl : String → Option Url) (opts : UrlPolicyOptions) (url : String) (parsed : Url),
      newUrl url = some parsed → toLower fold parsed.hostname.toList = host →
      AgreesWithAton host (defaultUrlPolicy fold newUrl opts url)) ∧
    (∀ (parse : String → Option Go.URL) (opts : Go.URLPolicyOptions) (raw : String)
      (parsed : Go.URL), parse raw = some parsed → toLower fold parsed.hostname.toList = host →
      AgreesWithAton host (Go.defaultURLPolicy fold parse opts raw)) := by
  refine ⟨?_, ?_⟩
  · intro newUrl opts url parsed hparsed hlower
    unfold defaultUrlPolicy
    rw [hparsed]
    dsimp only
    rw [hlower]
    split
    · exact agreesWithAton_refused host _
    · split
      · exact agreesWithAton_refused host _
      · split
        · exact agreesWithAton_refused host _
        · exact agreesWithAton_numeric reads_parseIpField hhost _
  · intro parse opts raw parsed hparsed hlower
    unfold Go.defaultURLPolicy
    rw [hparsed]
    dsimp only
    rw [hlower]
    split
    · exact agreesWithAton_refused host _
    · split
      · exact agreesWithAton_refused host _
      · split
        · exact agreesWithAton_refused host _
        · split
          · exact agreesWithAton_refused host _
          · exact agreesWithAton_numeric reads_parseIPField hhost _

/-- Loopback in two numbers, one in hexadecimal with a capital letter. -/
def loopbackSpelled (raw : String) : Option Go.URL :=
  if raw = "http://0X7F.1/" then some { scheme := "http", host := "0X7F.1", hostname := "0X7F.1" }
  else none

theorem two_number_loopback_refused :
    inetAton "0x7f.1".toList = some (127 * 2 ^ 24 + 1) ∧
      (Go.defaultURLPolicy pure loopbackSpelled {} "http://0X7F.1/").allowed = false := by
  have haton : inetAton "0x7f.1".toList = some (127 * 2 ^ 24 + 1) := by decide +kernel
  have hhost : IsNumericHost "0x7f.1".toList := by
    unfold IsNumericHost
    decide +kernel
  refine ⟨haton, ?_⟩
  exact ((aton_spellings_refused pure "0x7f.1".toList hhost).2 loopbackSpelled {} "http://0X7F.1/"
    { scheme := "http", host := "0X7F.1", hostname := "0X7F.1" } rfl (by decide)).1 _ haton
      (by decide +kernel)

end Anyhook.Security
