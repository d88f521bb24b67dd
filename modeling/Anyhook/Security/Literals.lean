import Anyhook.Security.Ipv6

/-! IPv6 literals under the default URL policy. A parsed URL shows an address in one
spelling only, so the prefixes and patterns of the policy meet every blocked range but one:
the pattern for mapped addresses wants a dotted tail, which that spelling never has. -/
namespace Anyhook.Security
open Anyhook.Lib.Regex

/-! ## From the policy to the literal -/

section Host
variable {s : List Char} (fold : Char → List Char)

/-- A host in brackets is no name and no number. -/
theorem ipv4ToOctets_bracketed {host : List Char} (hb : '[' ∈ host) (hd : '.' ∉ host) :
    ipv4ToOctets host = none := by
  have hfield : parseIpField host = none := by
    unfold parseIpField
    rw [rmatch_eq_false hb (show '[' ∉ letters hexFieldRe by decide),
      rmatch_eq_false hb (show '[' ∉ letters octFieldRe by decide),
      rmatch_eq_false hb (show '[' ∉ letters decFieldRe by decide)]
    rfl
  unfold ipv4ToOctets octetsOf
  rw [List.splitOn_eq_singleton hd]
  simp only [hfield, Option.bind_eq_bind, Option.bind_none]

/-- The policy's verdict on a literal in brackets is that of `blockedLiteral`. -/
theorem defaultUrlPolicy_literal {newUrl : String → Option Url} {url protocol : String}
    (hplain : Plain s)
    (hparse : newUrl url = some
      { protocol := protocol, hostname := "[" ++ String.ofList s ++ "]" })
    (hscheme : protocol = "http:" ∨ protocol = "https:") :
    (defaultUrlPolicy fold newUrl {} url).allowed = !blockedLiteral ipv4ToOctets s := by
  have htext : ("[" ++ String.ofList s ++ "]").toList = '[' :: (s ++ [']']) := by
    simp [String.toList_append]
  have hlower : toLower fold ('[' :: (s ++ [']'])) = '[' :: (s ++ [']']) := by
    have hs : toLower fold s = s := toLower_of_plain fold hplain
    rw [show '[' :: (s ++ [']']) = ['['] ++ s ++ [']'] from rfl, toLower_append, toLower_append, hs]
    rfl
  have hdot : '.' ∉ '[' :: (s ++ [']']) := by
    have hs : '.' ∉ s := not_mem_of_plain hplain (by decide)
    simp [hs]
  have hname : ¬ ('[' :: (s ++ [']']) = "localhost".toList ∨
      ".localhost".toList <:+ '[' :: (s ++ [']'])) := by
    intro h
    rcases h with h | h
    · cases congrArg List.head? h
    · exact hdot (h.subset (by decide))
  have hnum : looksNumeric ('[' :: (s ++ [']'])) = false := by
    unfold looksNumeric
    rw [rmatch_eq_false (a := '[') List.mem_cons_self (by decide), Bool.and_false]
  have hlast : ('[' :: (s ++ [']'])).getLast? = some ']' := by
    rw [← List.cons_append, List.getLast?_concat]
  have hbrackets : unbracket ('[' :: (s ++ [']'])) = s := by
    unfold unbracket
    rw [hlast]
    simp
  have hok : ¬ (protocol ≠ "https:" ∧ ¬ (true = true ∧ protocol = "http:")) := by
    rcases hscheme with rfl | rfl <;> simp
  unfold defaultUrlPolicy
  rw [hparse]
  dsimp only [Option.getD_none]
  rw [if_neg hok, htext, hlower, List.map_nil, if_neg List.not_mem_nil, if_neg hname,
    ipv4ToOctets_bracketed List.mem_cons_self hdot]
  dsimp only
  rw [hnum, if_neg Bool.false_ne_true, if_pos (.inr ⟨rfl, hlast⟩), isBlockedIpv6, hlower,
    hbrackets]
  cases blockedLiteral ipv4ToOctets s <;> rfl

end Host

/-! ## The literal -/

/-- Without a dot there is no dotted tail to look at. -/
theorem findAtEnd_mapped_eq_none {h : List Char} (hd : '.' ∉ h) :
    findAtEnd ipv4MappedRe h = none := by
  cases hf : findAtEnd ipv4MappedRe h with
  | none => rfl
  | some found =>
    obtain ⟨hsuf, hmatch⟩ := of_findAtEnd hf
    have hdot : '.' ∈ found := by
      obtain ⟨_, d, rfl, -, hdotted⟩ := (RegularExpression.mul_rmatch_iff _ _ _).mp hmatch
      exact List.mem_append_right _ (dot_mem_of_dottedRe hdotted)
    exact absurd (hsuf.subset hdot) hd

theorem blockedLiteral_local {A : Address} (h : A.IsLinkLocal ∨ A.IsUniqueLocal) :
    blockedLiteral ipv4ToOctets (serialize A) = true := by
  have hlocal := (isLocal_first_iff A).mpr h
  have hfirst := serialize_first (A := A) (by unfold IsLocal at hlocal; omega)
  obtain ⟨q, hq, hp⟩ := padded_local hlocal
  rw [← hexText_of_local hlocal] at hp
  exact blockedLiteral_of_prefix hq (hp.trans hfirst)

/-- No mapped address is refused, whatever it embeds. -/
theorem blockedLiteral_mapped {A : Address} (h : A.IsMapped) :
    blockedLiteral ipv4ToOctets (serialize A) = false := by
  obtain ⟨g, h', hA⟩ := A.isMapped_iff.mp h
  have hdot : '.' ∉ serialize A := not_mem_of_plain (plain_serialize A) (by decide)
  have hf : 'f' ∈ serialize A := by
    rw [serialize_mapped hA]
    exact List.mem_append_left _ (by decide)
  have hnone := findAtEnd_mapped_eq_none hdot
  unfold blockedLiteral
  rw [rmatch_eq_false hf (show 'f' ∉ letters fullLoopbackV6Re by decide),
    rmatch_eq_false hf (show 'f' ∉ letters fullUnspecifiedV6Re by decide),
    rmatch_eq_false hf (show 'f' ∉ letters compressedZeroV6Re by decide), hnone,
    serialize_mapped hA]
  rfl

theorem blockedLiteral_serialize {A : Address} (h : A.IsBlocked) :
    blockedLiteral ipv4ToOctets (serialize A) = true ↔ ¬ A.IsMapped := by
  constructor
  · intro hb hmapped
    rw [blockedLiteral_mapped hmapped] at hb
    cases hb
  · intro hmapped
    rcases h with hzero | hone | hlink | hunique | ⟨hm, -⟩
    · have hs : serialize A = "::".toList := by
        unfold serialize
        rw [A.value_eq_zero_iff.mp hzero]
        decide +kernel
      rw [hs]
      decide +kernel
    · have hs : serialize A = "::1".toList := by
        unfold serialize
        rw [A.value_eq_one_iff.mp hone]
        decide +kernel
      rw [hs]
      decide +kernel
    · exact blockedLiteral_local (.inl hlink)
    · exact blockedLiteral_local (.inr hunique)
    · exact absurd hm hmapped

/-! ## The result -/

/-- A URL whose host is a blocked address is refused, unless the address is a mapped one;
then it never is. -/
theorem blocked_literal_refused_iff (fold : Char → List Char) (newUrl : String → Option Url)
    (url protocol : String) (A : Address)
    (hparse : newUrl url = some
      { protocol := protocol, hostname := "[" ++ String.ofList (serialize A) ++ "]" })
    (hscheme : protocol = "http:" ∨ protocol = "https:") (hblocked : A.IsBlocked) :
    (defaultUrlPolicy fold newUrl {} url).allowed = false ↔ ¬ A.IsMapped := by
  rw [defaultUrlPolicy_literal fold (plain_serialize A) hparse hscheme, Bool.not_eq_false_eq_eq_true]
  exact blockedLiteral_serialize hblocked

/-- What the platform makes of two URLs with a literal host. -/
def parsedUrls : String → Option Url
  | "http://[fd00::1]/hook" => some { protocol := "http:", hostname := "[fd00::1]" }
  | "http://[::ffff:127.0.0.1]/hook" =>
    some { protocol := "http:", hostname := "[::ffff:7f00:1]" }
  | _ => none

theorem unique_local_literal_refused :
    (defaultUrlPolicy pure parsedUrls {} "http://[fd00::1]/hook").allowed = false :=
  (blocked_literal_refused_iff pure parsedUrls "http://[fd00::1]/hook" "http:"
    (.ofPieces 0xfd00 0 0 0 0 0 0 1) (by decide +kernel) (.inl rfl) (by decide +kernel)).mpr
    (by decide +kernel)

/-- The mapped form of 127.0.0.1 is allowed. -/
theorem mapped_loopback_allowed :
    ¬ ∀ (fold : Char → List Char) (newUrl : String → Option Url) (url protocol : String)
        (A : Address),
      newUrl url = some
        { protocol := protocol, hostname := "[" ++ String.ofList (serialize A) ++ "]" } →
      protocol = "http:" ∨ protocol = "https:" → A.IsBlocked →
        (defaultUrlPolicy fold newUrl {} url).allowed = false := by
  intro h
  have hallowed : (defaultUrlPolicy pure parsedUrls {} "http://[::ffff:127.0.0.1]/hook").allowed =
      true := by decide +kernel
  rw [h pure parsedUrls "http://[::ffff:127.0.0.1]/hook" "http:" (.ofPieces 0 0 0 0 0 0xffff 0x7f00 1)
    (by decide +kernel) (.inl rfl) (by decide +kernel)] at hallowed
  cases hallowed

end Anyhook.Security
