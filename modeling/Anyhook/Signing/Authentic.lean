import Anyhook.Lib.Joined
import Anyhook.Signing.RoundTrip

/-! What an accepted delivery proves. A keyed hash that is injective and unforgeable lets
only signed contents through. The content joins id, timestamp and body by full stops and
escapes nothing, so it gives the three back only to a reader who knows how many full stops
the id has. -/
namespace Anyhook.Signing
open Anyhook.Core Anyhook.Lib.Base64 Anyhook.Lib.Joined

/-! ## Reading a content back -/

theorem signedContent_toList (id seconds payload : String) :
    (signedContent id seconds payload).toList =
      id.toList ++ '.' :: (seconds.toList ++ '.' :: payload.toList) := by
  simp [signedContent]

theorem stop_not_mem_toString (z : Int) : '.' ∉ (toString z).toList := by
  have hdigits : '.' ∉ Nat.toDigits 10 z.natAbs := fun hc =>
    absurd (digits_of_toDigits _ _ hc) (by decide)
  rw [toString_int]
  split
  · rwa [String.toList_ofList]
  · rw [String.toList_ofList]
    simpa using hdigits

/-- Two contents of whole seconds are equal in one way only, once the ids have as many full
stops. -/
theorem signedContent_inj {id id' payload payload' : String} {z z' : Int}
    (hz : z.natAbs < 10 ^ 21) (hz' : z'.natAbs < 10 ^ 21)
    (hstops : id.toList.count '.' = id'.toList.count '.')
    (h : signedContent id (toString z) payload = signedContent id' (toString z') payload') :
    id = id' ∧ z = z' ∧ payload = payload' := by
  have hlist := congrArg String.toList h
  rw [signedContent_toList, signedContent_toList] at hlist
  obtain ⟨hid, hrest⟩ := cut_unique hlist hstops
  obtain ⟨hseconds, hpayload⟩ := cut_unique hrest (by
    rw [List.count_eq_zero.mpr (stop_not_mem_toString z),
      List.count_eq_zero.mpr (stop_not_mem_toString z')])
  have hnumber := congrArg jsNumber (String.toList_inj.mp hseconds)
  rw [jsNumber_int hz, jsNumber_int hz'] at hnumber
  exact ⟨String.toList_inj.mp hid, by exact_mod_cast Option.some.inj hnumber,
    String.toList_inj.mp hpayload⟩

/-! ## Digests -/

/-- The strict reading of an entry is one the lenient reader makes too. -/
theorem extract_of_go {entry text : List Char} {digest : List UInt8}
    (h : Go.Signing.extractSignatureDigest entry = some text)
    (hdecode : decodeStrict text = some digest) : extractSignatureDigest entry = some text := by
  have hcomma : ',' ∉ text := by
    intro hc
    rcases decodeStrict_chars hdecode ',' hc with hb | hv | hpad
    · exact absurd hb (by decide)
    · exact absurd hv (by decide)
    · exact absurd hpad (by decide)
  unfold Go.Signing.extractSignatureDigest at h
  split at h
  · rename_i c digest hdrop
    split at h
    · rename_i hscheme
      obtain rfl := Option.some.inj h
      have hc : c = ',' := by
        have hstop := List.head_dropWhile_not (· ≠ ',') (hdrop ▸ List.cons_ne_nil c digest)
        simp only [hdrop, List.head_cons] at hstop
        simpa using hstop
      have hentry := List.takeWhile_append_dropWhile (p := (· ≠ ',')) (l := entry)
      rw [hscheme.1, hdrop, hc] at hentry
      unfold extractSignatureDigest
      rw [← hentry, List.splitOn_append_cons_self_of_not_mem (by decide),
        List.splitOn_eq_singleton hcomma]
      exact if_pos ⟨rfl, hscheme.2⟩
    · cases h
  · cases h

theorem carries_of_go {signature : String} {digest : List UInt8}
    (h : Go.Signing.Carries signature digest) : Carries signature digest := by
  obtain ⟨entry, hentry, text, htext, hdecode⟩ := h
  exact ⟨entry, hentry, text, extract_of_go htext hdecode, decodeStrict_lenient hdecode⟩

theorem parseSecret_of_go {secret : String} {key : List UInt8}
    (h : Go.Signing.parseSecret secret = some key) : parseSecret secret = key :=
  decodeStrict_lenient h

/-! ## Authenticity -/

/-- A call of `sign`. -/
structure Signed where
  id : String
  timestamp : TimeValue
  payload : String

def Signed.content (c : Signed) : String :=
  signedContent c.id (toString c.timestamp.seconds) c.payload

/-- A digest is only available for a content that was signed: what a header carries of the
digests under the secret's key is the digest of a signature made. -/
def Unforged (hmac : Hmac) (secret : String) (made : Set Signed) (signature : String) : Prop :=
  ∀ content, Carries signature (hmac.mac (parseSecret secret) content) →
    ∃ c ∈ made, sign hmac secret c.id (some c.timestamp) c.payload =
      "v1," ++ String.ofList (digestOf hmac (parseSecret secret) content)

theorem entryOf_injective : Function.Injective entryOf := by
  intro digest digest' h
  have hencode : encode digest = encode digest' := by simpa [entryOf] using h
  rw [← decodeLenient_encode digest, hencode, decodeLenient_encode]

/-- The content of an available digest is that of a signature made. -/
theorem Unforged.content {hmac : Hmac} {secret signature : String} {made : Set Signed}
    (h : Unforged hmac secret made signature)
    (hinj : Function.Injective (hmac.mac (parseSecret secret))) {content : String}
    (hcarries : Carries signature (hmac.mac (parseSecret secret) content)) :
    ∃ c ∈ made, c.content = content := by
  obtain ⟨c, hc, hsign⟩ := h content hcarries
  refine ⟨c, hc, hinj ?_⟩
  unfold sign digestOf at hsign
  rw [entry_text, entry_text, secondsText_some] at hsign
  exact entryOf_injective (String.ofList_injective hsign)

/-- A signature made stands behind a delivery: it has the same content, and if the timestamp is
a whole number and the ids have as many full stops, the same id, second and body. -/
def Vouched (made : Set Signed) (id : String) (t : ℚ) (body : String) : Prop :=
  ∃ c ∈ made, c.content = signedContent id (jsText t) body ∧
    ((∃ z : Int, t = z) → c.id.toList.count '.' = id.toList.count '.' →
      c.id = id ∧ (c.timestamp.seconds : ℚ) = t ∧ c.payload = body)

/-- A whole number in tolerance of the clock is in range. -/
theorem natAbs_of_near {now : TimeValue} {z : Int}
    (h : |(now.seconds : ℚ) - z| ≤ toleranceSeconds) : z.natAbs < 10 ^ 21 := by
  have hnow := now.seconds_lt
  have hint : |now.seconds - z| ≤ 300 := by
    have hcast : |((now.seconds - z : Int) : ℚ)| ≤ 300 := by
      rw [Int.cast_sub]
      exact h
    exact_mod_cast hcast
  rw [abs_le] at hint
  omega

theorem vouched_of_content {made : Set Signed} {id body : String} {t : ℚ} {now : TimeValue}
    (hnear : |(now.seconds : ℚ) - t| ≤ toleranceSeconds)
    (h : ∃ c ∈ made, c.content = signedContent id (jsText t) body) : Vouched made id t body := by
  obtain ⟨c, hc, hcontent⟩ := h
  refine ⟨c, hc, hcontent, ?_⟩
  intro hwhole hstops
  obtain ⟨z, rfl⟩ := hwhole
  have hz := natAbs_of_near hnear
  rw [jsText_intCast hz] at hcontent
  obtain ⟨hid, hseconds, hpayload⟩ := signedContent_inj
    (c.timestamp.seconds_lt.trans_lt (by decide)) hz hstops hcontent
  exact ⟨hid, by rw [hseconds], hpayload⟩

/-- **Authenticity**: a delivery is accepted only with the content of a signature made. -/
theorem accepted_was_signed {J : Type} (hmac : Hmac) (json : String → Except String J)
    (now : TimeValue) (headers : Headers) (rawBody secret : String) (made : Set Signed)
    (hinj : Function.Injective (hmac.mac (parseSecret secret)))
    (hunforged : Unforged hmac secret made (lowercaseHeaders headers "webhook-signature"))
    (hunforgedGo :
      Unforged hmac secret made (Go.Signing.lowercaseHeaders headers "webhook-signature")) :
    (∀ parsed, verify hmac json now headers rawBody secret = .ok parsed →
      ∃ t, jsNumber (lowercaseHeaders headers "webhook-timestamp") = some t ∧
        Vouched made (lowercaseHeaders headers "webhook-id") t rawBody) ∧
    (∀ verified, Go.Signing.verify hmac now headers rawBody secret = .ok verified →
      ∃ t, Go.parseFloat (Go.Signing.lowercaseHeaders headers "webhook-timestamp").toList = some t ∧
        ((∃ z : Int, t = z) →
          Vouched made (Go.Signing.lowercaseHeaders headers "webhook-id") t rawBody)) := by
  constructor
  · intro parsed hverify
    obtain ⟨-, ⟨t, hnumber, hnear, hcarries⟩, -⟩ := (verifyRead_ok_iff ..).mp hverify
    exact ⟨t, hnumber, vouched_of_content hnear (hunforged.content hinj hcarries)⟩
  · intro verified hverify
    obtain ⟨-, ⟨t, hnumber, hnear, key, hkey, hcarries⟩, -⟩ :=
      (Go.Signing.verifyRead_ok_iff ..).mp hverify
    refine ⟨t, hnumber, ?_⟩
    intro hwhole
    obtain ⟨z, rfl⟩ := hwhole
    rw [← parseSecret_of_go hkey, roundToZero_intCast, ← jsText_intCast (natAbs_of_near hnear)]
      at hcarries
    exact vouched_of_content hnear (hunforgedGo.content hinj (carries_of_go hcarries))

/-- A keyed hash that is HMAC-SHA256 on one content, under the first key, and injective. -/
def sealed (content : String) (digest : List UInt8) (h : digest.length = 32) : Hmac where
  mac key c :=
    if key = firstKey ∧ c = content then digest
    else List.replicate 33 0 ++ c.toByteArray.data.toList
  mac_ne_nil key c := by
    split
    · exact List.ne_nil_of_length_pos (by omega)
    · simp

theorem sealed_injective {content : String} {digest : List UInt8} (h : digest.length = 32)
    (key : List UInt8) : Function.Injective ((sealed content digest h).mac key) := by
  intro c c' hmac
  simp only [sealed] at hmac
  split at hmac <;> split at hmac
  · rename_i hc hc'
    rw [hc.2, hc'.2]
  · have hlength := congrArg List.length hmac
    simp [h] at hlength
  · have hlength := congrArg List.length hmac
    simp [h] at hlength
  · exact String.toByteArray_inj.mp
      (ByteArray.ext (Array.toList_inj.mp (List.append_cancel_left hmac)))

/-- A header with the one signature made is not forged. -/
theorem unforged_sign (hmac : Hmac) (key : List UInt8) (c : Signed) :
    Unforged hmac (generateSecret key) {c}
      (sign hmac (generateSecret key) c.id (some c.timestamp) c.payload) := by
  intro content hcarries
  obtain ⟨entry, hentry, text, htext, hdecode⟩ := hcarries
  rw [sign_generateSecret, String.toList_ofList,
    List.splitOn_eq_singleton (space_not_mem_entryOf _), List.mem_singleton] at hentry
  rw [hentry, extractSignatureDigest_entryOf (hmac.mac_ne_nil _ _), Option.some.injEq] at htext
  rw [← htext, decodeLenient_encode] at hdecode
  refine ⟨c, rfl, ?_⟩
  rw [sign_generateSecret, hdecode, digestOf, entry_text]

def splitCall : Signed where
  id := "msg_1"
  timestamp := goldenTime
  payload := "1700000000.5"

def splitHmac : Hmac := sealed "msg_1.1700000000.1700000000.5"
  [10, 218, 235, 206, 144, 81, 60, 199, 207, 1, 117, 170, 91, 219, 56, 251, 128, 218, 178, 252, 76,
    7, 245, 35, 253, 191, 81, 95, 137, 80, 49, 230] rfl

/-- The id takes the second, and the body's whole part takes its place. -/
def splitHeaders : Headers :=
  [("webhook-id", "msg_1.1700000000"),
    ("webhook-timestamp", "1700000000"),
    ("webhook-signature", sign splitHmac (generateSecret firstKey) "msg_1" (some goldenTime)
      "1700000000.5")]

def fiveParse (body : String) : Except String Nat :=
  if body = "5" then .ok 5 else .error "Unexpected token"

theorem split_elsewhere_accepted :
    Function.Injective (splitHmac.mac (parseSecret (generateSecret firstKey))) ∧
    Unforged splitHmac (generateSecret firstKey) {splitCall}
      (lowercaseHeaders splitHeaders "webhook-signature") ∧
    verify splitHmac fiveParse goldenTime splitHeaders "5" (generateSecret firstKey) = .ok 5 ∧
    Go.Signing.verify splitHmac goldenTime splitHeaders "5" (generateSecret firstKey) =
      .ok "5" ∧
    jsNumber (lowercaseHeaders splitHeaders "webhook-timestamp") = some 1700000000 ∧
    ¬ ∃ c ∈ ({splitCall} : Set Signed),
      c.id = lowercaseHeaders splitHeaders "webhook-id" ∧
        (c.timestamp.seconds : ℚ) = 1700000000 ∧ c.payload = "5" := by
  have hid : lowercaseHeaders splitHeaders "webhook-id" = "msg_1.1700000000" := by decide +kernel
  have hsignature : lowercaseHeaders splitHeaders "webhook-signature" =
      sign splitHmac (generateSecret firstKey) "msg_1" (some goldenTime) "1700000000.5" := by
    decide +kernel
  refine ⟨sealed_injective rfl _, ?_, by decide +kernel, by decide +kernel, by decide +kernel, ?_⟩
  · rw [hsignature]
    exact unforged_sign splitHmac firstKey splitCall
  · intro hfound
    obtain ⟨c, hc, hpresented, -⟩ := hfound
    rw [Set.mem_singleton_iff.mp hc, hid] at hpresented
    exact absurd hpresented (by decide)

def goldenCall : Signed where
  id := "msg_1"
  timestamp := goldenTime
  payload := goldenBody

def goldenHmac : Hmac := sealed "msg_1.1700000000.\x7b\"a\":1\x7d"
  [131, 209, 8, 4, 18, 48, 155, 125, 64, 64, 73, 15, 238, 174, 180, 13, 95, 35, 13, 102, 27, 174,
    53, 123, 77, 54, 73, 47, 227, 200, 112, 202] rfl

def goldenHeaders : Headers :=
  [("webhook-id", "msg_1"),
    ("webhook-timestamp", "1700000000"),
    ("webhook-signature", sign goldenHmac (generateSecret firstKey) "msg_1" (some goldenTime)
      goldenBody)]

theorem golden_was_signed :
    (∃ t, jsNumber (lowercaseHeaders goldenHeaders "webhook-timestamp") = some t ∧
      Vouched {goldenCall} (lowercaseHeaders goldenHeaders "webhook-id") t goldenBody) ∧
    (∃ t, Go.parseFloat (Go.Signing.lowercaseHeaders goldenHeaders "webhook-timestamp").toList =
        some t ∧
      ((∃ z : Int, t = z) →
        Vouched {goldenCall} (Go.Signing.lowercaseHeaders goldenHeaders "webhook-id") t
          goldenBody)) := by
  have hread : lowercaseHeaders goldenHeaders "webhook-signature" =
      sign goldenHmac (generateSecret firstKey) "msg_1" (some goldenTime) goldenBody := by
    decide +kernel
  have hreadGo : Go.Signing.lowercaseHeaders goldenHeaders "webhook-signature" =
      sign goldenHmac (generateSecret firstKey) "msg_1" (some goldenTime) goldenBody := by
    decide +kernel
  have hunforged := unforged_sign goldenHmac firstKey goldenCall
  obtain ⟨hts, hgo⟩ := accepted_was_signed goldenHmac goldenParse goldenTime goldenHeaders
    goldenBody (generateSecret firstKey) {goldenCall} (sealed_injective rfl _)
    (hread ▸ hunforged) (hreadGo ▸ hunforged)
  have haccepted : verify goldenHmac goldenParse goldenTime goldenHeaders goldenBody
      (generateSecret firstKey) = .ok [("a", 1)] := by decide +kernel
  have hacceptedGo : Go.Signing.verify goldenHmac goldenTime goldenHeaders goldenBody
      (generateSecret firstKey) = .ok goldenBody := by decide +kernel
  exact ⟨hts _ haccepted, hgo _ hacceptedGo⟩

end Anyhook.Signing
