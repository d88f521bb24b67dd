import Anyhook.Security.UrlPolicy

/-! The default URL policy of go/core/urlpolicy.go. It uses the patterns of the TypeScript
policy, but checks the host as the URL spells it: `url.Parse` does not rewrite an address.
Numbers are read by `strconv.ParseInt`, which fails beyond 63 bits. -/
namespace Anyhook.Go
open Anyhook.Lib.Regex Anyhook.Security

/-- `strconv.ParseInt(s, base, 64)` of digits. -/
def parseInt64 (base : Nat) (s : List Char) : Option Nat :=
  if parseInt base s < 2 ^ 63 then some (parseInt base s) else none

def parseIPField (s : List Char) : Option Nat :=
  if hexFieldRe.rmatch s then parseInt64 16 (s.drop 2)
  else if octFieldRe.rmatch s then parseInt64 8 s
  else if decFieldRe.rmatch s then parseInt64 10 s
  else none

def ipv4ToOctets : List Char → Option Octets := octetsOf parseIPField

def isBlockedIPv6 (fold : Char → List Char) (raw : List Char) : Bool :=
  blockedLiteral ipv4ToOctets (unbracket (toLower fold raw))

structure URLPolicyOptions where
  allowHTTP : Option Bool := none
  extraDeny : List String := []

/-- What the policy reads of a `url.URL`; `hostname` is what `Hostname()` returns. -/
structure URL where
  scheme : String
  host : String
  hostname : String
  deriving DecidableEq

/-- `DefaultURLPolicy(opts).Check(ctx, raw)`. -/
def defaultURLPolicy (fold : Char → List Char) (parse : String → Option URL)
    (opts : URLPolicyOptions) (raw : String) : UrlCheckResult :=
  match parse raw with
  | none => Security.refused "invalid_url"
  | some parsed =>
    if parsed.scheme = "" ∨ parsed.host = "" then Security.refused "invalid_url"
    else
      let allowHTTP := opts.allowHTTP.getD true
      let deny := opts.extraDeny.map fun s => toLower fold s.toList
      if parsed.scheme ≠ "https" ∧ ¬ (allowHTTP = true ∧ parsed.scheme = "http") then
        Security.refused ("blocked_scheme:" ++ parsed.scheme)
      else
        let host := toLower fold parsed.hostname.toList
        if deny.contains host then Security.refused "denied_host"
        else if host = "localhost".toList ∨ ".localhost".toList <:+ host then
          Security.refused "loopback_hostname"
        else match ipv4ToOctets host with
          | some octets =>
            if isBlockedIpv4 octets then Security.refused "private_or_reserved_ipv4" else permitted
          | none =>
            if looksNumeric host then Security.refused "ambiguous_numeric_host"
            else if ':' ∈ host then
              if isBlockedIPv6 fold host then Security.refused "private_or_reserved_ipv6" else permitted
            else permitted

end Anyhook.Go
