import Anyhook.Go.Signing
import Anyhook.Go.Numbers
import Anyhook.Testing.MemoryState

/-! Signatures verify through any rotation: the endpoint keeps the last two secrets it was
given, a delivery is signed with both, and either of them verifies it, whichever of the two
implementations signs and whichever verifies. -/
namespace Anyhook.Signing
open Anyhook.Core Anyhook.Testing Anyhook.Lib.Base64 Anyhook.Lib.OrderedMap

/-! ## Secrets -/

/-- The secret of a base64 text. -/
def secretOf (text : List Char) : String := secretPrefix ++ String.ofList text

theorem bare_secretOf (text : List Char) : bare (secretOf text) = text := by
  have htext : (secretOf text).toList = secretPrefix.toList ++ text := by
    unfold secretOf
    rw [String.toList_append, String.toList_ofList]
  unfold bare
  rw [htext, if_pos (List.isPrefixOf_iff_prefix.mpr (List.prefix_append _ _))]
  exact List.drop_left

theorem bare_generateSecret (random : List UInt8) :
    bare (generateSecret random) = encode random :=
  bare_secretOf (encode random)

theorem parseSecret_generateSecret (random : List UInt8) :
    parseSecret (generateSecret random) = random := by
  unfold parseSecret
  rw [bare_generateSecret, decodeLenient_encode]

theorem go_parseSecret_generateSecret (random : List UInt8) :
    Go.Signing.parseSecret (generateSecret random) = some random := by
  unfold Go.Signing.parseSecret
  rw [bare_generateSecret, decodeStrict_encode]

/-! ## Entries -/

/-- One entry of the signature header. -/
def entryOf (digest : List UInt8) : List Char := 'v' :: '1' :: ',' :: encode digest

theorem not_mem_encode {c : Char} (h : c ∉ '=' :: alphabet) (digest : List UInt8) :
    c ∉ encode digest := fun hc => h (encode_chars digest c hc)

theorem space_not_mem_entryOf (digest : List UInt8) : ' ' ∉ entryOf digest := by
  have henc : ' ' ∉ encode digest := not_mem_encode (by decide +kernel) digest
  simp [entryOf, henc]

theorem extractSignatureDigest_entryOf {digest : List UInt8} (h : digest ≠ []) :
    extractSignatureDigest (entryOf digest) = some (encode digest) := by
  have henc : ',' ∉ encode digest := not_mem_encode (by decide +kernel) digest
  have hsplit : (entryOf digest).splitOn ',' = [['v', '1'], encode digest] := by
    rw [show entryOf digest = ['v', '1'] ++ ',' :: encode digest from rfl,
      List.splitOn_append_cons_self_of_not_mem (by decide), List.splitOn_eq_singleton henc]
  unfold extractSignatureDigest
  rw [hsplit]
  exact if_pos ⟨rfl, encode_ne_nil h⟩

theorem go_extractSignatureDigest_entryOf {digest : List UInt8} (h : digest ≠ []) :
    Go.Signing.extractSignatureDigest (entryOf digest) = some (encode digest) :=
  if_pos ⟨rfl, encode_ne_nil h⟩

/-- The entries of some digests, joined by spaces. -/
def joined (digests : List (List UInt8)) : String :=
  " ".intercalate (digests.map fun digest => String.ofList (entryOf digest))

theorem joined_splitOn {digests : List (List UInt8)} (hne : digests ≠ []) :
    (joined digests).toList.splitOn ' ' = digests.map entryOf := by
  have htexts : (digests.map fun digest => String.ofList (entryOf digest)).map String.toList =
      digests.map entryOf := by
    simp
  unfold joined
  rw [String.toList_intercalate, htexts, show " ".toList = [' '] from rfl]
  refine List.splitOn_intercalate ' ' ?_ (by simpa using hne)
  intro entry hentry
  obtain ⟨digest, -, rfl⟩ := List.mem_map.mp hentry
  exact space_not_mem_entryOf digest

theorem carries_joined {digests : List (List UInt8)} {digest : List UInt8} (hne : digest ≠ [])
    (h : digest ∈ digests) : Carries (joined digests) digest := by
  refine ⟨entryOf digest, ?_, encode digest, extractSignatureDigest_entryOf hne,
    decodeLenient_encode digest⟩
  rw [joined_splitOn (List.ne_nil_of_mem h)]
  exact List.mem_map_of_mem h

theorem go_carries_joined {digests : List (List UInt8)} {digest : List UInt8} (hne : digest ≠ [])
    (h : digest ∈ digests) : Go.Signing.Carries (joined digests) digest := by
  refine ⟨entryOf digest, ?_, encode digest, go_extractSignatureDigest_entryOf hne,
    decodeStrict_encode digest⟩
  rw [joined_splitOn (List.ne_nil_of_mem h)]
  exact List.mem_map_of_mem h


/-! ## Headers -/

theorem entry_text (digest : List UInt8) :
    "v1," ++ String.ofList (encode digest) = String.ofList (entryOf digest) := by
  rw [show entryOf digest = ['v', '1', ','] ++ encode digest from rfl, String.ofList_append]

theorem secondsText_some (t : TimeValue) : secondsText (some t) = toString t.seconds :=
  jsText_intCast (t.seconds_lt.trans_lt (by decide))

theorem sign_generateSecret (hmac : Hmac) (key : List UInt8) (id : String) (t : TimeValue)
    (payload : String) :
    sign hmac (generateSecret key) id (some t) payload = String.ofList
      (entryOf (hmac.mac key (signedContent id (toString t.seconds) payload))) := by
  unfold sign digestOf
  rw [parseSecret_generateSecret, secondsText_some, entry_text]

theorem go_sign_generateSecret (hmac : Hmac) (key : List UInt8) (id : String) (unix : Int)
    (payload : String) :
    Go.Signing.sign hmac (generateSecret key) id unix payload = some (String.ofList
      (entryOf (hmac.mac key (signedContent id (toString unix) payload)))) := by
  unfold Go.Signing.sign digestOf
  rw [go_parseSecret_generateSecret, Option.map_some, entry_text]

/-- The headers of a delivery signed with some keys. -/
def deliveryHeaders (hmac : Hmac) (keys : List (List UInt8)) (id payload : String)
    (seconds : Int) : Headers :=
  [("webhook-id", id),
    ("webhook-timestamp", toString seconds),
    ("webhook-signature", joined (keys.map fun key =>
      hmac.mac key (signedContent id (toString seconds) payload)))]

theorem newDate_ms (t : TimeValue) : newDate t.ms = some t := by
  unfold newDate
  simp only [roundToZero_intCast, t.inRange, dif_pos]

theorem createSigner_headers (hmac : Hmac) (keys : List (List UInt8)) (id payload : String)
    (t : TimeValue) :
    createSigner.sign hmac (keys.map generateSecret) id payload t.ms =
      deliveryHeaders hmac keys id payload t.seconds := by
  unfold createSigner.sign Signer.headers deliveryHeaders joined
  simp only [newDate_ms, secondsText_some, List.map_map, Function.comp_def, sign_generateSecret]

theorem coreSigner_headers (hmac : Hmac) (keys : List (List UInt8)) (id payload : String)
    (t : TimeValue) :
    Go.Signing.CoreSigner.sign hmac (keys.map generateSecret) id payload t.ms =
      deliveryHeaders hmac keys id payload t.seconds := by
  have hsigs : ((keys.map generateSecret).mapM fun secret =>
      Go.Signing.sign hmac secret id t.seconds payload) =
      some (keys.map fun key => String.ofList
        (entryOf (hmac.mac key (signedContent id (toString t.seconds) payload)))) := by
    induction keys with
    | nil => rfl
    | cons key keys ih =>
      rw [List.map_cons, List.mapM_cons, ih, go_sign_generateSecret]
      rfl
  unfold Go.Signing.CoreSigner.sign Go.Signing.Signer.headers deliveryHeaders joined
  rw [show t.ms / 1000 = t.seconds from rfl, hsigs, List.map_map]
  rfl

/-! ## Verifying -/

/-- Two times at most 300 s apart are so by their seconds. -/
theorem seconds_near {t now : TimeValue} (h : (now.ms - t.ms).natAbs ≤ 300000) :
    |(now.seconds : ℚ) - t.seconds| ≤ toleranceSeconds := by
  have hint : |now.seconds - t.seconds| ≤ 300 := by
    unfold TimeValue.seconds
    rw [abs_le]
    omega
  have hcast : |((now.seconds - t.seconds : Int) : ℚ)| ≤ 300 := by exact_mod_cast hint
  rw [Int.cast_sub] at hcast
  exact hcast

/-- The verifiers read the headers under the names the signers give them. -/
theorem verify_three {J : Type} (hmac : Hmac) (json : String → Except String J) (now : TimeValue)
    (id timestamp signature rawBody secret : String) :
    verify hmac json now [("webhook-id", id), ("webhook-timestamp", timestamp),
      ("webhook-signature", signature)] rawBody secret =
      verifyRead hmac json now id timestamp signature rawBody secret := by
  have hid : toLowerCase "webhook-id" = "webhook-id".toList := by decide
  have htime : toLowerCase "webhook-timestamp" = "webhook-timestamp".toList := by decide
  have hsig : toLowerCase "webhook-signature" = "webhook-signature".toList := by decide
  unfold verify lowercaseHeaders
  simp only [List.reverse_cons, List.reverse_nil, List.nil_append, List.cons_append,
    List.find?_cons, List.find?_nil, hid, htime, hsig]
  rfl

theorem go_verify_three (hmac : Hmac) (now : TimeValue)
    (id timestamp signature rawBody secret : String) :
    Go.Signing.verify hmac now [("webhook-id", id), ("webhook-timestamp", timestamp),
      ("webhook-signature", signature)] rawBody secret =
      Go.Signing.verifyRead hmac now id timestamp signature rawBody secret := by
  have hid : Go.Signing.toLower "webhook-id" = "webhook-id".toList := by decide
  have htime : Go.Signing.toLower "webhook-timestamp" = "webhook-timestamp".toList := by decide
  have hsig : Go.Signing.toLower "webhook-signature" = "webhook-signature".toList := by decide
  unfold Go.Signing.verify Go.Signing.lowercaseHeaders
  simp only [List.reverse_cons, List.reverse_nil, List.nil_append, List.cons_append,
    List.find?_cons, List.find?_nil, hid, htime, hsig]
  rfl

section Verify
variable (hmac : Hmac) {keys : List (List UInt8)} {key : List UInt8} (hkey : key ∈ keys)
  {id : String} (hid : id ≠ "") (payload : String) {t now : TimeValue}
  (hnear : (now.ms - t.ms).natAbs ≤ 300000)
include hkey hid hnear

theorem verify_deliveryHeaders {J : Type} {json : String → Except String J} {parsed : J}
    (hjson : json payload = .ok parsed) :
    verify hmac json now (deliveryHeaders hmac keys id payload t.seconds) payload
      (generateSecret key) = .ok parsed := by
  have hbound : t.seconds.natAbs < 10 ^ 21 := t.seconds_lt.trans_lt (by decide)
  have hcarries : Carries (joined (keys.map fun key =>
      hmac.mac key (signedContent id (toString t.seconds) payload))) _ :=
    carries_joined (hmac.mac_ne_nil key _) (List.mem_map_of_mem hkey)
  unfold deliveryHeaders
  rw [verify_three]
  refine (verifyRead_ok_iff ..).mpr ⟨?_, ⟨t.seconds, jsNumber_int hbound, seconds_near hnear, ?_⟩,
    hjson⟩
  · intro hmissing
    rcases hmissing with hempty | hempty | hempty
    · exact hid hempty
    · exact toString_int_ne_empty _ hempty
    · exact hcarries.ne_empty hempty
  · rw [parseSecret_generateSecret, jsText_intCast hbound]
    exact hcarries

theorem go_verify_deliveryHeaders :
    Go.Signing.verify hmac now (deliveryHeaders hmac keys id payload t.seconds) payload
      (generateSecret key) = .ok payload := by
  have hbound : t.seconds.natAbs < 10 ^ 21 := t.seconds_lt.trans_lt (by decide)
  have hcarries : Go.Signing.Carries (joined (keys.map fun key =>
      hmac.mac key (signedContent id (toString t.seconds) payload))) _ :=
    go_carries_joined (hmac.mac_ne_nil key _) (List.mem_map_of_mem hkey)
  unfold deliveryHeaders
  rw [go_verify_three]
  refine (Go.Signing.verifyRead_ok_iff ..).mpr ⟨?_, ⟨t.seconds, Go.parseFloat_int hbound,
    seconds_near hnear, key, go_parseSecret_generateSecret key, ?_⟩, rfl⟩
  · intro hmissing
    rcases hmissing with hempty | hempty | hempty
    · exact hid hempty
    · exact toString_int_ne_empty _ hempty
    · exact hcarries.ne_empty hempty
  · rw [roundToZero_intCast]
    exact hcarries

end Verify

/-! ## The life of an endpoint -/

/-- A change of an endpoint. A rotation draws its random bytes. -/
inductive Edit where
  | update (patch : MemoryStateStore.EndpointPatch)
  | rotate (random : List UInt8)

/-- The store, and the secrets that creating and rotating have returned, the last one first. -/
structure Life where
  store : MemoryStateStore
  returned : List String

def Life.create (s : MemoryStateStore) (input : MemoryStateStore.CreateInput) (endpointId : String)
    (random : List UInt8) (now : Time) : Life where
  store := s.createEndpoint input endpointId (generateSecret random) now
  returned := [generateSecret random]

def Life.edit (tenant endpointId : String) (l : Life) : Edit → Life
  | .update patch => { l with store := (l.store.updateEndpoint tenant endpointId patch).2 }
  | .rotate random =>
    match l.store.rotateSecret tenant endpointId (generateSecret random) with
    | (.ok secret, store) => { store, returned := secret :: l.returned }
    | (.error _, store) => { l with store }

/-- The endpoint holds the last two secrets returned, each made of a key. -/
def Life.InForce (tenant endpointId : String) (l : Life) : Prop :=
  ∃ (e : Endpoint) (keys : List (List UInt8)),
    l.store.getEndpoint tenant endpointId = some e ∧
      l.returned = keys.map generateSecret ∧ e.secrets = (keys.take 2).map generateSecret

theorem Life.create_inForce (s : MemoryStateStore) (input : MemoryStateStore.CreateInput)
    (endpointId : String) (random : List UInt8) (now : Time) :
    (Life.create s input endpointId random now).InForce input.tenant endpointId := by
  refine ⟨input.endpoint endpointId (generateSecret random) now, [random], ?_, rfl, rfl⟩
  simp [Life.create, MemoryStateStore.createEndpoint, MemoryStateStore.getEndpoint, KMap.set]

theorem Life.edit_inForce {tenant endpointId : String} {l : Life} (h : l.InForce tenant endpointId)
    (ed : Edit) : (l.edit tenant endpointId ed).InForce tenant endpointId := by
  obtain ⟨e, keys, hget, hreturned, hsecrets⟩ := h
  cases ed with
  | update patch =>
    exact ⟨patch.apply e, keys, MemoryStateStore.getEndpoint_updateEndpoint hget patch, hreturned,
      hsecrets⟩
  | rotate random =>
    obtain ⟨hok, hkept⟩ := MemoryStateStore.getEndpoint_rotateSecret hget (generateSecret random)
    cases hrotate : l.store.rotateSecret tenant endpointId (generateSecret random) with
    | mk answer store =>
      rw [hrotate] at hok hkept
      obtain rfl : answer = .ok (generateSecret random) := hok
      simp only [Life.edit, hrotate]
      refine ⟨MemoryStateStore.rotated e (generateSecret random), random :: keys, hkept, ?_, ?_⟩
      · rw [hreturned]
        rfl
      · show generateSecret random :: e.secrets.take 1 = _
        rw [hsecrets, ← List.map_take, List.take_take]
        rfl

/-- The last two secrets returned stay in force along every run. -/
theorem Life.run_inForce {tenant endpointId : String} (edits : List Edit) {l : Life}
    (h : l.InForce tenant endpointId) :
    (edits.foldl (Life.edit tenant endpointId) l).InForce tenant endpointId := by
  induction edits generalizing l with
  | nil => exact h
  | cons ed edits ih => exact ih (Life.edit_inForce h ed)

/-- **Signatures verify through any rotation**, by either verifier and whichever signs, with
the last secret returned and with the one returned before it. -/
theorem verifies_through_rotation {J : Type} (hmac : Hmac) (json : String → Except String J)
    (s : MemoryStateStore) (input : MemoryStateStore.CreateInput) (endpointId : String)
    (random : List UInt8) (createdAt : Time) (edits : List Edit) (id body : String) (parsed : J)
    (t now : TimeValue) (hid : id ≠ "") (hjson : json body = .ok parsed)
    (hnear : (now.ms - t.ms).natAbs ≤ 300000) :
    let life := edits.foldl (Life.edit input.tenant endpointId)
      (Life.create s input endpointId random createdAt)
    ∃ e, life.store.getEndpoint input.tenant endpointId = some e ∧
      ∀ secret ∈ life.returned.take 2,
        ∀ headers ∈ [createSigner.sign hmac e.secrets id body t.ms,
          Go.Signing.CoreSigner.sign hmac e.secrets id body t.ms],
        verify hmac json now headers body secret = .ok parsed ∧
          Go.Signing.verify hmac now headers body secret = .ok body := by
  intro life
  obtain ⟨e, keys, hget, hreturned, hsecrets⟩ :=
    Life.run_inForce edits (Life.create_inForce s input endpointId random createdAt)
  refine ⟨e, hget, ?_⟩
  intro secret hsecret headers hheaders
  rw [hreturned, ← List.map_take] at hsecret
  obtain ⟨key, hkey, rfl⟩ := List.mem_map.mp hsecret
  rw [hsecrets, createSigner_headers, coreSigner_headers] at hheaders
  have hsame : headers = deliveryHeaders hmac (keys.take 2) id body t.seconds := by
    simpa using hheaders
  rw [hsame]
  exact ⟨verify_deliveryHeaders hmac hkey hid body hnear hjson,
    go_verify_deliveryHeaders hmac hkey hid body hnear⟩

/-! A delivery of `msg_1` at 1700000000.123, signed after one rotation. -/

def firstKey : List UInt8 := List.replicate 24 1

def secondKey : List UInt8 := List.replicate 24 2

def goldenBody : String := "\x7b\"a\":1\x7d"

/-- HMAC-SHA256 of the content `msg_1.1700000000.` and the body, under the two keys. -/
def golden : Hmac where
  mac key content :=
    if content = "msg_1.1700000000." ++ goldenBody then
      if key = firstKey then
        [131, 209, 8, 4, 18, 48, 155, 125, 64, 64, 73, 15, 238, 174, 180, 13, 95, 35, 13, 102, 27,
          174, 53, 123, 77, 54, 73, 47, 227, 200, 112, 202]
      else if key = secondKey then
        [218, 150, 29, 203, 137, 108, 167, 134, 165, 255, 166, 9, 54, 225, 233, 165, 104, 23, 77,
          252, 153, 82, 157, 14, 63, 1, 27, 139, 31, 161, 178, 83]
      else [0]
    else [0]
  mac_ne_nil key content := by
    split
    · split
      · nofun
      · split <;> nofun
    · nofun

def goldenParse (body : String) : Except String (List (String × Nat)) :=
  if body = goldenBody then .ok [("a", 1)] else .error "Unexpected token"

def goldenTime : TimeValue := ⟨1700000000123, by decide⟩

def goldenCheck : TimeValue := ⟨1700000300123, by decide⟩

def goldenInput : MemoryStateStore.CreateInput where
  tenant := "acme"
  url := "https://acme.example/hook"
  eventTypes := ["*"]
  description := none
  rateLimit := none

theorem golden_verifies_after_rotation :
    let life := [Edit.rotate secondKey].foldl (Life.edit "acme" "ep_1")
      (Life.create .empty goldenInput "ep_1" firstKey 0)
    ∃ e, life.store.getEndpoint "acme" "ep_1" = some e ∧
      ∀ secret ∈ life.returned.take 2,
        ∀ headers ∈ [createSigner.sign golden e.secrets "msg_1" goldenBody goldenTime.ms,
          Go.Signing.CoreSigner.sign golden e.secrets "msg_1" goldenBody goldenTime.ms],
        verify golden goldenParse goldenCheck headers goldenBody secret = .ok [("a", 1)] ∧
          Go.Signing.verify golden goldenCheck headers goldenBody secret = .ok goldenBody :=
  verifies_through_rotation golden goldenParse .empty goldenInput "ep_1" firstKey 0
    [.rotate secondKey] "msg_1" goldenBody [("a", 1)] goldenTime goldenCheck (by decide) rfl
    (by decide)

end Anyhook.Signing
