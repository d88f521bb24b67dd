import Anyhook.Core.JsNumber
import Anyhook.Lib.Base64

/-! Signing and verifying a delivery: secret.ts, sign.ts and verify.ts of packages/signing. -/
namespace Anyhook.Signing
open Anyhook.Core Anyhook.Lib.Base64

/-- A keyed hash of texts, HMAC-SHA256 here. -/
structure Hmac where
  mac : List UInt8 → String → List UInt8
  mac_ne_nil : ∀ key content, mac key content ≠ []

/-! ## Secrets -/

def secretPrefix : String := "whsec_"

/-- The secret of some random bytes. -/
def generateSecret (random : List UInt8) : String :=
  secretPrefix ++ String.ofList (encode random)

/-- A secret without its marker, when it has one. -/
def bare (secret : String) : List Char :=
  if secretPrefix.toList.isPrefixOf secret.toList then secret.toList.drop secretPrefix.length
  else secret.toList

def parseSecret (secret : String) : List UInt8 := decodeLenient (bare secret)

/-! ## Dates -/

/-- A time value of ECMAScript, in epoch milliseconds: what Date.now() returns. -/
structure TimeValue where
  ms : Int
  inRange : ms.natAbs ≤ 8640000000000000

/-- The second of a time value, rounded down. -/
def TimeValue.seconds (t : TimeValue) : Int := t.ms / 1000

theorem TimeValue.seconds_lt (t : TimeValue) : t.seconds.natAbs ≤ 8640000000000 := by
  have hms := t.inRange
  unfold TimeValue.seconds
  omega

/-- A Date; `none` is the Invalid Date. -/
abbrev Date := Option TimeValue

/-- `new Date(ms)`. -/
def newDate (ms : ℚ) : Date :=
  if h : (roundToZero ms).natAbs ≤ 8640000000000000 then some ⟨roundToZero ms, h⟩ else none

/-- `String(Math.floor(date.getTime() / 1000))`. -/
def secondsText : Date → String
  | some t => jsText t.seconds
  | none => "NaN"

/-! ## Signing -/

def signedContent (id seconds payload : String) : String := id ++ "." ++ seconds ++ "." ++ payload

/-- The digest of a content, in base64. -/
def digestOf (hmac : Hmac) (key : List UInt8) (content : String) : List Char :=
  encode (hmac.mac key content)

def sign (hmac : Hmac) (secret id : String) (timestamp : Date) (payload : String) : String :=
  "v1," ++ String.ofList
    (digestOf hmac (parseSecret secret) (signedContent id (secondsText timestamp) payload))

/-- Header names and values, in the order of the map they came from. -/
abbrev Headers := List (String × String)

def Signer.headers (hmac : Hmac) (secrets : List String) (id payload : String) (timestamp : Date) :
    Headers :=
  [("webhook-id", id),
    ("webhook-timestamp", secondsText timestamp),
    ("webhook-signature", " ".intercalate (secrets.map fun secret =>
      sign hmac secret id timestamp payload))]

/-- `createSigner().sign`. -/
def createSigner.sign (hmac : Hmac) (secrets : List String) (id payload : String)
    (timestampMs : ℚ) : Headers :=
  Signer.headers hmac secrets id payload (newDate timestampMs)

/-! ## Verifying -/

def toleranceSeconds : ℚ := 300

/-- Lower case as far as an ASCII name can tell: the Kelvin sign becomes an ASCII letter,
and the dotted capital I one with a combining dot. -/
def lowerChar (c : Char) : List Char :=
  if c = '\u212A' then ['k']
  else if c = '\u0130' then ['i', '\u0307']
  else [c.toLower]

def toLowerCase (name : String) : List Char := name.toList.flatMap lowerChar

/-- `lowercaseHeaders(headers)[name]`: among names that differ in case only, the last wins.
An absent header reads as an empty one, which is all that the caller asks. -/
def lowercaseHeaders (headers : Headers) (name : String) : String :=
  ((headers.reverse.find? fun h => toLowerCase h.1 = name.toList).map Prod.snd).getD ""

/-- The first two parts between commas are the scheme and the digest. -/
def extractSignatureDigest (entry : List Char) : Option (List Char) :=
  match entry.splitOn ',' with
  | scheme :: digest :: _ => if scheme = ['v', '1'] ∧ digest ≠ [] then some digest else none
  | _ => none

def timingSafeEqualBase64 (a b : List Char) : Bool :=
  if (decodeLenient a).length ≠ (decodeLenient b).length then false
  else decodeLenient a == decodeLenient b

/-- One entry of the signature header matches. -/
def matchesDigest (expectedDigest entry : List Char) : Bool :=
  (extractSignatureDigest entry).any (timingSafeEqualBase64 · expectedDigest)

/-- `verify` after it has read the three headers; `json` is JSON.parse, `now` is
Date.now(). -/
def verifyRead {J : Type} (hmac : Hmac) (json : String → Except String J) (now : TimeValue)
    (id timestamp signature rawBody secret : String) : Except String J :=
  if id = "" ∨ timestamp = "" ∨ signature = "" then .error "Missing required webhook headers"
  else match jsNumber timestamp with
    | none => .error "Invalid webhook timestamp"
    | some timestampSeconds =>
      if |(now.seconds : ℚ) - timestampSeconds| > toleranceSeconds then
        .error "Webhook timestamp is outside of tolerance"
      else
        let content := signedContent id (jsText timestampSeconds) rawBody
        let expectedDigest := digestOf hmac (parseSecret secret) content
        if (signature.toList.splitOn ' ').any (matchesDigest expectedDigest) then json rawBody
        else .error "No matching signature found"

def verify {J : Type} (hmac : Hmac) (json : String → Except String J) (now : TimeValue)
    (headers : Headers) (rawBody secret : String) : Except String J :=
  verifyRead hmac json now (lowercaseHeaders headers "webhook-id")
    (lowercaseHeaders headers "webhook-timestamp") (lowercaseHeaders headers "webhook-signature")
    rawBody secret

/-! ## What it accepts -/

/-- Some entry of a signature header decodes to the digest. -/
def Carries (signature : String) (digest : List UInt8) : Prop :=
  ∃ entry ∈ signature.toList.splitOn ' ', ∃ text,
    extractSignatureDigest entry = some text ∧ decodeLenient text = digest

theorem Carries.ne_empty {signature : String} {digest : List UInt8} (h : Carries signature digest) :
    signature ≠ "" := by
  intro hempty
  obtain ⟨entry, hentry, text, htext, -⟩ := h
  rw [hempty, show "".toList.splitOn ' ' = [[]] from rfl, List.mem_singleton] at hentry
  rw [hentry] at htext
  cases htext

theorem timingSafeEqualBase64_encode (text : List Char) (digest : List UInt8) :
    timingSafeEqualBase64 text (encode digest) = true ↔ decodeLenient text = digest := by
  unfold timingSafeEqualBase64
  rw [decodeLenient_encode]
  constructor
  · intro h
    split at h
    · cases h
    · exact eq_of_beq h
  · intro h
    rw [h, if_neg (by simp)]
    exact beq_self_eq_true digest

theorem carries_iff (signature : String) (digest : List UInt8) :
    (signature.toList.splitOn ' ').any (matchesDigest (encode digest)) = true ↔
      Carries signature digest := by
  simp only [List.any_eq_true, matchesDigest, Option.any_eq_true, timingSafeEqualBase64_encode,
    Carries]

/-- What `verify` asks of the three headers it reads. -/
theorem verifyRead_ok_iff {J : Type} (hmac : Hmac) (json : String → Except String J)
    (now : TimeValue) (id timestamp signature rawBody secret : String) (parsed : J) :
    verifyRead hmac json now id timestamp signature rawBody secret = .ok parsed ↔
      ¬ (id = "" ∨ timestamp = "" ∨ signature = "") ∧
      (∃ t, jsNumber timestamp = some t ∧ |(now.seconds : ℚ) - t| ≤ toleranceSeconds ∧
        Carries signature
          (hmac.mac (parseSecret secret) (signedContent id (jsText t) rawBody))) ∧
      json rawBody = .ok parsed := by
  unfold verifyRead digestOf
  by_cases hmissing : id = "" ∨ timestamp = "" ∨ signature = ""
  · simp [hmissing]
  · rw [if_neg hmissing]
    cases hnumber : jsNumber timestamp with
    | none => simp
    | some t =>
      by_cases hwindow : |(now.seconds : ℚ) - t| ≤ toleranceSeconds
      · simp only [gt_iff_lt, not_lt.mpr hwindow, if_false, Option.some.injEq,
          exists_eq_left', hwindow, hmissing, not_false_eq_true, true_and]
        split
        · rename_i hany
          simp [(carries_iff _ _).mp hany]
        · rename_i hany
          simp [mt (carries_iff _ _).mpr hany]
      · simp [lt_of_not_ge hwindow, hwindow]

end Anyhook.Signing
