import Mathlib.Data.Bool.AllAny
import Anyhook.Lib.Regex

/-! The default URL policy of packages/core/src/security/url-policy.ts. A host is checked
as a text, by patterns and prefixes. `new URL` is the platform's: the policy takes what it
makes of the URL as it is given. So is the table of lower case: nothing here depends on what
it says of characters beyond ASCII. -/
namespace Anyhook.Security
open RegularExpression Anyhook.Lib.Regex

/-! ## Case -/

/-- Lower case of the letters of ASCII only. -/
def asciiLower (s : List Char) : List Char := s.map Char.toLower

/-- The lower case of a character. `fold` is what Unicode has for those beyond ASCII, an
ASCII letter for the Kelvin sign. -/
def lowerChar (fold : Char → List Char) (c : Char) : List Char :=
  if c.toNat < 128 then [c.toLower] else fold c

/-- `toLowerCase` and `strings.ToLower`. The first also looks around a capital sigma, which
no host that `new URL` returns has. -/
def toLower (fold : Char → List Char) (s : List Char) : List Char := s.flatMap (lowerChar fold)

section Case
variable (fold : Char → List Char)

theorem toLower_append (s t : List Char) :
    toLower fold (s ++ t) = toLower fold s ++ toLower fold t := List.flatMap_append

theorem toLower_of_ascii {s : List Char} (h : ∀ c ∈ s, c.toNat < 128) :
    toLower fold s = asciiLower s := by
  have hlower : s.flatMap (lowerChar fold) = s.flatMap fun c => [c.toLower] :=
    List.flatMap_congr fun c hc => if_pos (h c hc)
  exact hlower.trans List.map_eq_flatMap.symm

theorem toLower_ascii {c : Char} (h : c.toNat < 128) :
    c.toLower.toNat < 128 ∧ c.toLower.toLower = c.toLower := by
  have hall : ∀ n < 128, (Char.ofNat n).toLower.toNat < 128 ∧
      (Char.ofNat n).toLower.toLower = (Char.ofNat n).toLower := by decide
  simpa using hall c.toNat h

theorem toLower_beyond {c : Char} (h : ¬ c.toNat < 128) : c.toLower = c := by
  unfold Char.toLower
  refine dif_neg fun hcapital => ?_
  have hle : c.toNat ≤ 'Z'.toNat := hcapital.2
  exact h (hle.trans_lt (by decide))

theorem lowerChar_toLower (c : Char) : lowerChar fold c.toLower = lowerChar fold c := by
  by_cases h : c.toNat < 128
  · unfold lowerChar
    rw [if_pos (toLower_ascii h).1, if_pos h, (toLower_ascii h).2]
  · rw [toLower_beyond h]

/-- The case of ASCII letters does not reach the lower case. -/
theorem toLower_asciiLower (s : List Char) : toLower fold (asciiLower s) = toLower fold s := by
  unfold toLower asciiLower
  rw [List.flatMap_map]
  exact List.flatMap_congr fun c _ => lowerChar_toLower fold c

end Case

/-! ## Numbers and patterns -/

def digits : List Char := "0123456789".toList

def hexDigits : List Char := "0123456789abcdefABCDEF".toList

/-- What a digit counts, in any radix up to 16. -/
def digitValue (c : Char) : Nat :=
  if 'a' ≤ c then c.toNat - 'a'.toNat + 10
  else if 'A' ≤ c then c.toNat - 'A'.toNat + 10
  else c.toNat - '0'.toNat

def parseInt (radix : Nat) (s : List Char) : Nat :=
  s.foldl (fun n c => radix * n + digitValue c) 0

def hexFieldRe : RegularExpression Char :=
  char '0' * oneOf ['x', 'X'] * oneOrMore (oneOf hexDigits)

def octFieldRe : RegularExpression Char := char '0' * oneOrMore (oneOf "01234567".toList)

def decFieldRe : RegularExpression Char := oneOrMore (oneOf digits)

def numericHostRe : RegularExpression Char :=
  (hexFieldRe + decFieldRe) * (char '.' * (hexFieldRe + decFieldRe)).star

/-- The pattern `\d{1,3}`. -/
def shortNumberRe : RegularExpression Char :=
  oneOf digits * optionally (oneOf digits) * optionally (oneOf digits)

def dottedRe : RegularExpression Char :=
  shortNumberRe * char '.' * shortNumberRe * char '.' * shortNumberRe * char '.' * shortNumberRe

def ipv4MappedRe : RegularExpression Char := literal "::ffff:".toList * dottedRe

def fullLoopbackV6Re : RegularExpression Char := (char '0' * char ':') ^ 7 * char '1'

def fullUnspecifiedV6Re : RegularExpression Char := (char '0' * char ':') ^ 7 * char '0'

def compressedZeroV6Re : RegularExpression Char :=
  char '0' * (char ':' * char '0').star * char ':' * optionally (char ':') *
    optionally (char '0')

theorem dot_mem_of_dottedRe {d : List Char} (h : dottedRe.rmatch d = true) : '.' ∈ d := by
  obtain ⟨e, _, rfl, he, -⟩ := (mul_rmatch_iff _ _ _).mp h
  obtain ⟨_, _, rfl, -, hp⟩ := (mul_rmatch_iff _ _ _).mp he
  obtain rfl := (char_rmatch_iff _ _).mp hp
  simp

/-! ## IPv4 -/

structure Octets where
  a : Nat
  b : Nat
  c : Nat
  d : Nat
  deriving DecidableEq, Repr

def parseIpField (s : List Char) : Option Nat :=
  if hexFieldRe.rmatch s then some (parseInt 16 (s.drop 2))
  else if octFieldRe.rmatch s then some (parseInt 8 s)
  else if decFieldRe.rmatch s then some (parseInt 10 s)
  else none

/-- `ipv4ToOctets` over a reader of one field. -/
def octetsOf (field : List Char → Option Nat) (host : List Char) : Option Octets :=
  match host.splitOn '.' with
  | [p, q, r, s] => do
    let a ← field p
    let b ← field q
    let c ← field r
    let d ← field s
    if a ≤ 255 ∧ b ≤ 255 ∧ c ≤ 255 ∧ d ≤ 255 then some { a := a, b := b, c := c, d := d } else none
  | [p] => do
    let n ← field p
    if n ≤ 0xffffffff then
      some { a := n / 2 ^ 24 % 256, b := n / 2 ^ 16 % 256, c := n / 2 ^ 8 % 256, d := n % 256 }
    else none
  | _ => none

def ipv4ToOctets : List Char → Option Octets := octetsOf parseIpField

def looksNumeric (host : List Char) : Bool :=
  host.any (· ∈ digits) && numericHostRe.rmatch host

def isBlockedIpv4 (o : Octets) : Bool :=
  o.a == 10 || o.a == 127 || o.a == 0 || (o.a == 169 && o.b == 254) ||
    (o.a == 172 && 16 ≤ o.b && o.b ≤ 31) || (o.a == 192 && o.b == 168) ||
    (o.a == 100 && 64 ≤ o.b && o.b ≤ 127) || 224 ≤ o.a

/-! ## IPv6 -/

def unbracket (h : List Char) : List Char :=
  if h.head? = some '[' && h.getLast? = some ']' then h.tail.dropLast else h

/-- `isBlockedIpv6` after its first two lines, over a reader of dotted addresses. -/
def blockedLiteral (octets : List Char → Option Octets) (h : List Char) : Bool :=
  h == "::1".toList || h == "::".toList || fullLoopbackV6Re.rmatch h ||
    fullUnspecifiedV6Re.rmatch h || compressedZeroV6Re.rmatch h ||
    ["fe8", "fe9", "fea", "feb"].any (·.toList.isPrefixOf h) ||
    ["fc", "fd"].any (·.toList.isPrefixOf h) ||
    match findAtEnd ipv4MappedRe h with
    | some mapped => match octets (mapped.drop 7) with
      | some oct => isBlockedIpv4 oct
      | none => true
    | none => false

def isBlockedIpv6 (fold : Char → List Char) (raw : List Char) : Bool :=
  blockedLiteral ipv4ToOctets (unbracket (toLower fold raw))

/-! ## The policy -/

structure UrlPolicyOptions where
  allowHttp : Option Bool := none
  extraDeny : Option (List String) := none

structure UrlCheckResult where
  allowed : Bool
  reason : Option String
  deriving DecidableEq

def refused (reason : String) : UrlCheckResult := { allowed := false, reason := some reason }

def permitted : UrlCheckResult := { allowed := true, reason := none }

/-- What the policy reads of a `URL`. -/
structure Url where
  protocol : String
  hostname : String
  deriving DecidableEq

/-- `defaultUrlPolicy(opts).check(url)`. -/
def defaultUrlPolicy (fold : Char → List Char) (newUrl : String → Option Url)
    (opts : UrlPolicyOptions) (url : String) : UrlCheckResult :=
  match newUrl url with
  | none => refused "invalid_url"
  | some parsed =>
    let allowHttp := opts.allowHttp.getD true
    let deny := (opts.extraDeny.getD []).map fun s => toLower fold s.toList
    let scheme := parsed.protocol
    if scheme ≠ "https:" ∧ ¬ (allowHttp = true ∧ scheme = "http:") then
      refused ("blocked_scheme:" ++ String.ofList (scheme.toList.erase ':'))
    else
      let host := toLower fold parsed.hostname.toList
      if host ∈ deny then refused "denied_host"
      else if host = "localhost".toList ∨ ".localhost".toList <:+ host then
        refused "loopback_hostname"
      else match ipv4ToOctets host with
        | some v4 => if isBlockedIpv4 v4 then refused "private_or_reserved_ipv4" else permitted
        | none =>
          if looksNumeric host then refused "ambiguous_numeric_host"
          else if ':' ∈ host ∨ parsed.hostname.toList.head? = some '[' ∧
              parsed.hostname.toList.getLast? = some ']' then
            if isBlockedIpv6 fold parsed.hostname.toList then refused "private_or_reserved_ipv6"
            else permitted
          else permitted

end Anyhook.Security
