import Anyhook.Go.Engine
import Anyhook.Signing.Signature

/-! Signing and verifying in Go: secret.go, sign.go and verify.go of go/signing. -/
namespace Anyhook.Go.Signing
open Anyhook.Core Anyhook.Lib.Base64
open Anyhook.Signing (Hmac Headers TimeValue signedContent digestOf bare toleranceSeconds)

def parseSecret (secret : String) : Option (List UInt8) := decodeStrict (bare secret)

/-! ## Signing -/

/-- The timestamp is the time's Unix second. A secret that is not base64 is an error. -/
def sign (hmac : Hmac) (secret id : String) (unix : Int) (payload : String) : Option String :=
  (parseSecret secret).map fun key =>
    "v1," ++ String.ofList (digestOf hmac key (signedContent id (toString unix) payload))

def Signer.headers (hmac : Hmac) (secrets : List String) (id payload : String) (unix : Int) :
    Option Headers :=
  (secrets.mapM fun secret => sign hmac secret id unix payload).map fun sigs =>
    [("webhook-id", id),
      ("webhook-timestamp", toString unix),
      ("webhook-signature", " ".intercalate sigs)]

/-- `CoreSigner.Sign`: with a malformed secret the signature is empty. -/
def CoreSigner.sign (hmac : Hmac) (secrets : List String) (id payload : String)
    (timestampMs : Int) : Headers :=
  (Signer.headers hmac secrets id payload (timestampMs / 1000)).getD
    [("webhook-id", id),
      ("webhook-timestamp", toString (timestampMs / 1000)),
      ("webhook-signature", "")]

/-! ## Verifying -/

/-- Lower case as far as an ASCII name can tell: the Kelvin sign and the dotted capital I
become ASCII letters. -/
def lowerChar (c : Char) : Char :=
  if c = '\u212A' then 'k'
  else if c = '\u0130' then 'i'
  else c.toLower

def toLower (name : String) : List Char := name.toList.map lowerChar

/-- `lowercaseHeaders(headers)[name]`. The list is in the order in which this call ranges
over the map. -/
def lowercaseHeaders (headers : Headers) (name : String) : String :=
  ((headers.reverse.find? fun h => toLower h.1 = name.toList).map Prod.snd).getD ""

/-- The entry is cut at its first comma. -/
def extractSignatureDigest (entry : List Char) : Option (List Char) :=
  match entry.dropWhile (· ≠ ',') with
  | _ :: digest =>
    if entry.takeWhile (· ≠ ',') = ['v', '1'] ∧ digest ≠ [] then some digest else none
  | [] => none

def timingSafeEqualBase64 (a b : List Char) : Bool :=
  match decodeStrict a, decodeStrict b with
  | some bufA, some bufB => if bufA.length ≠ bufB.length then false else bufA == bufB
  | _, _ => false

/-- One entry of the signature header matches. -/
def matchesDigest (expectedDigest entry : List Char) : Bool :=
  (extractSignatureDigest entry).any (timingSafeEqualBase64 · expectedDigest)

/-- `Verify` after it has read the three headers; `now` is time.Now(). The timestamp enters the
content as an int64, cut toward zero: in tolerance of a clock it is in range. -/
def verifyRead (hmac : Hmac) (now : TimeValue) (id timestamp signature rawBody secret : String) :
    Except String String :=
  if id = "" ∨ timestamp = "" ∨ signature = "" then .error "Missing required webhook headers"
  else match parseFloat timestamp.toList with
    | none => .error "Invalid webhook timestamp"
    | some timestampSeconds =>
      if |(now.seconds : ℚ) - timestampSeconds| > toleranceSeconds then
        .error "Webhook timestamp is outside of tolerance"
      else
        let content := signedContent id (toString (roundToZero timestampSeconds)) rawBody
        match parseSecret secret with
        | none => .error "Invalid signing secret"
        | some key =>
          let expectedDigest := digestOf hmac key content
          if (signature.toList.splitOn ' ').any (matchesDigest expectedDigest) then .ok rawBody
          else .error "No matching signature found"

def verify (hmac : Hmac) (now : TimeValue) (headers : Headers) (rawBody secret : String) :
    Except String String :=
  verifyRead hmac now (lowercaseHeaders headers "webhook-id")
    (lowercaseHeaders headers "webhook-timestamp") (lowercaseHeaders headers "webhook-signature")
    rawBody secret

/-! ## What it accepts -/

/-- Some entry of a signature header decodes to the digest. -/
def Carries (signature : String) (digest : List UInt8) : Prop :=
  ∃ entry ∈ signature.toList.splitOn ' ', ∃ text,
    extractSignatureDigest entry = some text ∧ decodeStrict text = some digest

theorem Carries.ne_empty {signature : String} {digest : List UInt8} (h : Carries signature digest) :
    signature ≠ "" := by
  intro hempty
  obtain ⟨entry, hentry, text, htext, -⟩ := h
  rw [hempty, show "".toList.splitOn ' ' = [[]] from rfl, List.mem_singleton] at hentry
  rw [hentry] at htext
  cases htext

theorem timingSafeEqualBase64_encode (text : List Char) (digest : List UInt8) :
    timingSafeEqualBase64 text (encode digest) = true ↔ decodeStrict text = some digest := by
  unfold timingSafeEqualBase64
  rw [decodeStrict_encode]
  cases decodeStrict text with
  | none => simp
  | some buf =>
    by_cases hlength : buf.length = digest.length
    · simp [hlength]
    · have hne : buf ≠ digest := fun h => hlength (congrArg List.length h)
      simp [hlength, hne]

theorem carries_iff (signature : String) (digest : List UInt8) :
    (signature.toList.splitOn ' ').any (matchesDigest (encode digest)) = true ↔
      Carries signature digest := by
  simp only [List.any_eq_true, matchesDigest, Option.any_eq_true, timingSafeEqualBase64_encode,
    Carries]

/-- What `Verify` asks of the three headers it reads. -/
theorem verifyRead_ok_iff (hmac : Hmac) (now : TimeValue)
    (id timestamp signature rawBody secret verified : String) :
    verifyRead hmac now id timestamp signature rawBody secret = .ok verified ↔
      ¬ (id = "" ∨ timestamp = "" ∨ signature = "") ∧
      (∃ t, parseFloat timestamp.toList = some t ∧ |(now.seconds : ℚ) - t| ≤ toleranceSeconds ∧
        ∃ key, parseSecret secret = some key ∧ Carries signature
          (hmac.mac key (signedContent id (toString (roundToZero t)) rawBody))) ∧
      rawBody = verified := by
  unfold verifyRead digestOf
  by_cases hmissing : id = "" ∨ timestamp = "" ∨ signature = ""
  · simp [hmissing]
  · rw [if_neg hmissing]
    cases hnumber : parseFloat timestamp.toList with
    | none => simp
    | some t =>
      by_cases hwindow : |(now.seconds : ℚ) - t| ≤ toleranceSeconds
      · cases hkey : parseSecret secret with
        | none => simp [not_lt.mpr hwindow]
        | some key =>
          simp only [gt_iff_lt, not_lt.mpr hwindow, if_false, Option.some.injEq,
            exists_eq_left', hwindow, hmissing, not_false_eq_true, true_and]
          split
          · rename_i hany
            simp only [(carries_iff _ _).mp hany, Except.ok.injEq, true_and]
          · rename_i hany
            simp only [mt (carries_iff _ _).mpr hany, reduceCtorEq, false_and]
      · simp [lt_of_not_ge hwindow, hwindow]

end Anyhook.Go.Signing
