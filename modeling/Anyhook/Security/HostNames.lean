import Anyhook.Go.UrlPolicy

/-! Hosts refused by name: `localhost`, the names under it, and the entries of `extraDeny`.
Names are compared as texts once capitals are made small. A name of the DNS has a second
text, with the root's dot at its end, and that is another text here. -/
namespace Anyhook.Security

/-- The texts of one DNS name: case does not count, nor does one dot at the end. -/
def dnsName (s : List Char) : List Char :=
  if (asciiLower s).getLast? = some '.' then (asciiLower s).dropLast else asciiLower s

/-- The host is `localhost` or under it, or an entry of `extraDeny`, as a DNS name. -/
def IsDeniedName (extraDeny : List String) (hostname : String) : Prop :=
  dnsName hostname.toList = "localhost".toList ∨
    ".localhost".toList <:+ dnsName hostname.toList ∨
    ∃ entry ∈ extraDeny, dnsName entry.toList = dnsName hostname.toList

/-- The same as texts, but for the case of ASCII letters. -/
def IsDeniedText (extraDeny : List String) (hostname : String) : Prop :=
  asciiLower hostname.toList = "localhost".toList ∨
    ".localhost".toList <:+ asciiLower hostname.toList ∨
    ∃ entry ∈ extraDeny, asciiLower entry.toList = asciiLower hostname.toList

section Checks
variable (fold : Char → List Char) {extraDeny : List String} {hostname : String}

/-- An entry of `extraDeny` is the host, in lower case. -/
def MeetsEntry (extraDeny : List String) (hostname : String) : Prop :=
  ∃ entry ∈ extraDeny, toLower fold entry.toList = toLower fold hostname.toList

theorem mem_lowered : toLower fold hostname.toList ∈
    extraDeny.map (fun s => toLower fold s.toList) ↔ MeetsEntry fold extraDeny hostname :=
  List.mem_map

/-- Texts that differ in the case of ASCII letters have one lower case. -/
theorem toLower_eq_of_ascii {s t : List Char} (h : asciiLower s = asciiLower t) :
    toLower fold s = toLower fold t := by
  rw [← toLower_asciiLower, h, toLower_asciiLower]

theorem toLower_localhost : toLower fold "localhost".toList = "localhost".toList := by
  refine (toLower_of_ascii fold ?_).trans ?_
  · simp
  · rfl

theorem toLower_underLocalhost : toLower fold ".localhost".toList = ".localhost".toList := by
  refine (toLower_of_ascii fold ?_).trans ?_
  · simp
  · rfl

/-- The checks by name, in the order of both policies. -/
theorem nameChecks_refuse (h : IsDeniedText extraDeny hostname) (rest : UrlCheckResult) :
    (if toLower fold hostname.toList ∈ extraDeny.map (fun s => toLower fold s.toList) then
        refused "denied_host"
      else if toLower fold hostname.toList = "localhost".toList ∨
          ".localhost".toList <:+ toLower fold hostname.toList then refused "loopback_hostname"
      else rest).allowed = false := by
  split
  · rfl
  · rename_i hdeny
    obtain hlocal | ⟨front, hfront⟩ | ⟨entry, hentry, hsame⟩ := h
    · have hhost : toLower fold hostname.toList = "localhost".toList := by
        rw [← toLower_asciiLower, hlocal, toLower_localhost]
      rw [if_pos (.inl hhost)]
      rfl
    · have hhost : toLower fold hostname.toList = toLower fold front ++ ".localhost".toList := by
        rw [← toLower_asciiLower, ← hfront, toLower_append, toLower_underLocalhost]
      rw [if_pos (.inr (hhost ▸ List.suffix_append _ _))]
      rfl
    · exact absurd ((mem_lowered fold).mpr ⟨entry, hentry, toLower_eq_of_ascii fold hsame⟩) hdeny

end Checks

/-- **Hosts are refused by name as texts**: `localhost`, what ends in `.localhost`, and the
entries of `extraDeny`, whatever the case of their letters; and an entry of `extraDeny`
changes the verdict on no host but those with its lower case, in both languages. -/
theorem denied_text_refused (fold : Char → List Char) :
    (∀ (newUrl : String → Option Url) (opts : UrlPolicyOptions) (url : String) (parsed : Url),
      newUrl url = some parsed →
      (IsDeniedText (opts.extraDeny.getD []) parsed.hostname →
        (defaultUrlPolicy fold newUrl opts url).allowed = false) ∧
      (¬ MeetsEntry fold (opts.extraDeny.getD []) parsed.hostname →
        defaultUrlPolicy fold newUrl opts url =
          defaultUrlPolicy fold newUrl { opts with extraDeny := none } url)) ∧
    (∀ (parse : String → Option Go.URL) (opts : Go.URLPolicyOptions) (raw : String)
      (parsed : Go.URL), parse raw = some parsed →
      (IsDeniedText opts.extraDeny parsed.hostname →
        (Go.defaultURLPolicy fold parse opts raw).allowed = false) ∧
      (¬ MeetsEntry fold opts.extraDeny parsed.hostname →
        Go.defaultURLPolicy fold parse opts raw =
          Go.defaultURLPolicy fold parse { opts with extraDeny := [] } raw)) := by
  refine ⟨?_, ?_⟩
  · intro newUrl opts url parsed hparsed
    unfold defaultUrlPolicy
    rw [hparsed]
    dsimp only
    refine ⟨fun hdenied => ?_, fun hother => ?_⟩
    · split
      · rfl
      · exact nameChecks_refuse fold hdenied _
    · rw [if_neg fun h => hother ((mem_lowered fold).mp h), Option.getD_none, List.map_nil,
        if_neg List.not_mem_nil]
  · intro parse opts raw parsed hparsed
    unfold Go.defaultURLPolicy
    rw [hparsed]
    dsimp only
    simp only [List.contains_iff_mem]
    refine ⟨fun hdenied => ?_, fun hother => ?_⟩
    · split
      · rfl
      · split
        · rfl
        · exact nameChecks_refuse fold hdenied _
    · rw [if_neg fun h => hother ((mem_lowered fold).mp h), List.map_nil,
        if_neg List.not_mem_nil]

/-- The one character beyond ASCII with an ASCII letter for its lower case in both languages. -/
def kelvinFold (c : Char) : List Char := if c = '\u212A' then ['k'] else [c]

/-- Two names written with the root's dot; the parsers keep it. -/
def rootedUrls (url : String) : Option Url :=
  if url = "http://localhost./" then some { protocol := "http:", hostname := "localhost." }
  else if url = "http://blocked.example.com./" then
    some { protocol := "http:", hostname := "blocked.example.com." }
  else none

def rootedURLs (url : String) : Option Go.URL :=
  (rootedUrls url).map fun parsed =>
    { scheme := "http", host := parsed.hostname, hostname := parsed.hostname }

/-- A capital letter, and then a Kelvin sign, in the entry: both hosts have its lower case. -/
theorem capital_entry_refused :
    (defaultUrlPolicy kelvinFold
        (fun _ => some { protocol := "http:", hostname := "blocked.example.com" })
        { extraDeny := some ["Blocked.example.com"] } "http://blocked.example.com/").allowed =
          false ∧
      defaultUrlPolicy kelvinFold
          (fun _ => some { protocol := "http:", hostname := "open.example.com" })
          { extraDeny := some ["bloc\u212Aed.example.com"] } "http://open.example.com/" =
        permitted := by
  have hcapital := (denied_text_refused kelvinFold).1
    (fun _ => some { protocol := "http:", hostname := "blocked.example.com" })
    { extraDeny := some ["Blocked.example.com"] } "http://blocked.example.com/"
    { protocol := "http:", hostname := "blocked.example.com" } rfl
  have hkelvin := (denied_text_refused kelvinFold).1
    (fun _ => some { protocol := "http:", hostname := "open.example.com" })
    { extraDeny := some ["bloc\u212Aed.example.com"] } "http://open.example.com/"
    { protocol := "http:", hostname := "open.example.com" } rfl
  refine ⟨hcapital.1 (.inr (.inr ⟨"Blocked.example.com", List.mem_singleton.mpr rfl, ?_⟩)), ?_⟩
  · decide +kernel
  · rw [hkelvin.2 ?_]
    · decide +kernel
    · rintro ⟨entry, hentry, hsame⟩
      obtain rfl := List.mem_singleton.mp hentry
      revert hsame
      decide +kernel

theorem rooted_names_allowed :
    IsDeniedName [] "localhost." ∧
      IsDeniedName ["blocked.example.com"] "blocked.example.com." ∧
      (defaultUrlPolicy kelvinFold rootedUrls {} "http://localhost./").allowed = true ∧
      (Go.defaultURLPolicy kelvinFold rootedURLs {} "http://localhost./").allowed = true ∧
      (defaultUrlPolicy kelvinFold rootedUrls { extraDeny := some ["blocked.example.com"] }
        "http://blocked.example.com./").allowed = true ∧
      (Go.defaultURLPolicy kelvinFold rootedURLs { extraDeny := ["blocked.example.com"] }
        "http://blocked.example.com./").allowed = true := by
  refine ⟨.inl (by decide +kernel), .inr (.inr ?_), ?_, ?_, ?_, ?_⟩
  · exact ⟨"blocked.example.com", List.mem_singleton.mpr rfl, by decide +kernel⟩
  · decide +kernel
  · decide +kernel
  · decide +kernel
  · decide +kernel

end Anyhook.Security
