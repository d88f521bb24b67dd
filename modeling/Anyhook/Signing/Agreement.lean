import Mathlib.Data.List.Find
import Anyhook.Signing.Authentic

/-! When the two verifiers agree. They read the headers, the timestamp and the base64 of a
signature by the rules of their languages; what separates them is a right signature that
only one of them can see. -/
namespace Anyhook.Signing
open Anyhook.Core Anyhook.Lib.Base64

/-! ## Headers -/

/-- The headers that a verifier reads. -/
def readNames : List String := ["webhook-id", "webhook-timestamp", "webhook-signature"]

/-- Of the headers read there is at most one of each name, letter case aside, and none with the
dotted capital I, whose lower case is not the same in the two languages. -/
structure Plain (headers : Headers) : Prop where
  undotted : ∀ h ∈ headers, ∀ name ∈ readNames, Go.Signing.toLower h.1 = name.toList →
    '\u0130' ∉ h.1.toList
  single : ∀ name ∈ readNames,
    (headers.filter fun h => toLowerCase h.1 = name.toList).length ≤ 1

theorem toLowerCase_eq_toLower {name : String} (h : '\u0130' ∉ name.toList) :
    toLowerCase name = Go.Signing.toLower name := by
  unfold toLowerCase Go.Signing.toLower
  generalize name.toList = cs at h
  induction cs with
  | nil => rfl
  | cons c cs ih =>
    have hc : c ≠ '\u0130' := fun he => h (he ▸ List.mem_cons_self)
    have hchar : lowerChar c = [Go.Signing.lowerChar c] := by
      unfold lowerChar Go.Signing.lowerChar
      rw [if_neg hc, if_neg hc]
      split <;> rfl
    rw [List.flatMap_cons, List.map_cons, hchar, ih fun hmem => h (List.mem_cons_of_mem _ hmem)]
    rfl

/-- In JavaScript the dotted capital I leaves a combining dot behind. -/
theorem undotted_of_toLowerCase {name text : String} (h : toLowerCase name = text.toList)
    (htext : '\u0307' ∉ text.toList) : '\u0130' ∉ name.toList := by
  intro hdotted
  refine htext (h ▸ List.mem_flatMap.mpr ⟨'\u0130', hdotted, ?_⟩)
  decide

/-- Both languages see the same headers under a name they read. -/
theorem Plain.toLower_iff {headers : Headers} (hplain : Plain headers) {name : String}
    (hname : name ∈ readNames) {h : String × String} (hh : h ∈ headers) :
    Go.Signing.toLower h.1 = name.toList ↔ toLowerCase h.1 = name.toList := by
  have hascii : ∀ name ∈ readNames, '\u0307' ∉ name.toList :=
    List.all_iff_forall_prop.mp (by decide)
  constructor
  · intro hgo
    rwa [toLowerCase_eq_toLower (hplain.undotted h hh name hname hgo)]
  · intro hjs
    rwa [← toLowerCase_eq_toLower (undotted_of_toLowerCase hjs (hascii name hname))]

/-- What is found at most once is found in whatever order. -/
theorem find_eq_of_perm {α : Type} {p : α → Bool} {l l' : List α} (hperm : l'.Perm l)
    (hsingle : (l.filter p).length ≤ 1) : l'.find? p = l.find? p := by
  have hfiltered : (l'.filter p).Perm (l.filter p) := hperm.filter p
  rw [← List.head?_filter, ← List.head?_filter]
  cases hl : l.filter p with
  | nil =>
    have hnone : l'.filter p = [] := List.perm_nil.mp (hl ▸ hfiltered)
    rw [hnone]
  | cons x rest =>
    obtain rfl : rest = [] := by
      rw [hl, List.length_cons] at hsingle
      exact List.eq_nil_of_length_eq_zero (by omega)
    have hone : l'.filter p = [x] := List.perm_singleton.mp (hl ▸ hfiltered)
    rw [hone]

/-- Over plain headers the order of the map does not matter. -/
theorem lowercaseHeaders_perm {headers order : Headers} (hplain : Plain headers)
    (hperm : order.Perm headers) {name : String} (hname : name ∈ readNames) :
    Go.Signing.lowercaseHeaders order name = lowercaseHeaders headers name := by
  have hfind : order.reverse.find? (fun h => Go.Signing.toLower h.1 = name.toList) =
      order.reverse.find? (fun h => toLowerCase h.1 = name.toList) := by
    refine List.find?_congr fun h hh => ?_
    exact decide_eq_decide.mpr
      (hplain.toLower_iff hname (hperm.subset (List.mem_reverse.mp hh)))
  have hreverse : order.reverse.Perm headers.reverse :=
    (List.reverse_perm order).trans (hperm.trans (List.reverse_perm headers).symm)
  have hsingle : (headers.reverse.filter fun h => toLowerCase h.1 = name.toList).length ≤ 1 := by
    rw [List.filter_reverse, List.length_reverse]
    exact hplain.single name hname
  unfold Go.Signing.lowercaseHeaders lowercaseHeaders
  rw [hfind, find_eq_of_perm hreverse hsingle]

/-! ## Where they part -/

/-- In tolerance of the clock. -/
def Near (now : TimeValue) (t : ℚ) : Prop := |(now.seconds : ℚ) - t| ≤ toleranceSeconds

/-- No right signature is seen by one of the verifiers only. -/
structure SeenAlike (hmac : Hmac) (key : List UInt8) (now : TimeValue)
    (id timestamp signature body : String) : Prop where
  /-- Only JavaScript reads the timestamp: white space around it, or an integer in another
  base. -/
  jsOnly : ∀ t, jsNumber timestamp = some t → Go.parseFloat timestamp.toList = none → Near now t →
    ¬ Carries signature (hmac.mac key (signedContent id (jsText t) body))
  /-- Only Go reads it: underscores, or a hexadecimal float. -/
  goOnly : ∀ t, jsNumber timestamp = none → Go.parseFloat timestamp.toList = some t → Near now t →
    ¬ Go.Signing.Carries signature
      (hmac.mac key (signedContent id (toString (roundToZero t)) body))
  /-- Go cuts a fraction off, JavaScript signs it. -/
  fraction : ∀ t, jsNumber timestamp = some t → Go.parseFloat timestamp.toList = some t →
    Near now t → (¬ ∃ z : Int, t = z) →
    (Carries signature (hmac.mac key (signedContent id (jsText t) body)) ↔
      Go.Signing.Carries signature
        (hmac.mac key (signedContent id (toString (roundToZero t)) body)))
  /-- A signature that is right in lenient base64 is there in strict base64 too. -/
  whole : ∀ z : Int, jsNumber timestamp = some (z : ℚ) →
    Go.parseFloat timestamp.toList = some (z : ℚ) → Near now z →
    Carries signature (hmac.mac key (signedContent id (toString z) body)) →
    Go.Signing.Carries signature (hmac.mac key (signedContent id (toString z) body))

section Read
variable (hmac : Hmac) (key : List UInt8) (now : TimeValue)
  (id timestamp signature body : String)

/-- What the JavaScript verifier sees. -/
def JsSees : Prop :=
  ∃ t, jsNumber timestamp = some t ∧ Near now t ∧
    Carries signature (hmac.mac key (signedContent id (jsText t) body))

/-- What the Go verifier sees. -/
def GoSees : Prop :=
  ∃ t, Go.parseFloat timestamp.toList = some t ∧ Near now t ∧
    Go.Signing.Carries signature (hmac.mac key (signedContent id (toString (roundToZero t)) body))

/-- The two see alike exactly when nothing is seen by one of them only. -/
theorem sees_iff : (JsSees hmac key now id timestamp signature body ↔
      GoSees hmac key now id timestamp signature body) ↔
    SeenAlike hmac key now id timestamp signature body := by
  constructor
  · intro hiff
    refine ⟨?_, ?_, ?_, ?_⟩
    · intro t hjs hgo hnear hcarries
      obtain ⟨t', hgo', -⟩ := hiff.mp ⟨t, hjs, hnear, hcarries⟩
      cases hgo.symm.trans hgo'
    · intro t hjs hgo hnear hcarries
      obtain ⟨t', hjs', -⟩ := hiff.mpr ⟨t, hgo, hnear, hcarries⟩
      cases hjs.symm.trans hjs'
    · intro t hjs hgo hnear _
      constructor
      · intro hcarries
        obtain ⟨t', hgo', -, hstrict⟩ := hiff.mp ⟨t, hjs, hnear, hcarries⟩
        rwa [Option.some.inj (hgo'.symm.trans hgo)] at hstrict
      · intro hcarries
        obtain ⟨t', hjs', -, hlenient⟩ := hiff.mpr ⟨t, hgo, hnear, hcarries⟩
        rwa [Option.some.inj (hjs'.symm.trans hjs)] at hlenient
    · intro z hjs hgo hnear hcarries
      rw [← jsText_intCast (natAbs_of_near hnear)] at hcarries
      obtain ⟨t', hgo', -, hstrict⟩ := hiff.mp ⟨z, hjs, hnear, hcarries⟩
      rwa [Option.some.inj (hgo'.symm.trans hgo), roundToZero_intCast] at hstrict
  · intro halike
    constructor
    · intro hsees
      obtain ⟨t, hjs, hnear, hcarries⟩ := hsees
      cases hgo : Go.parseFloat timestamp.toList with
      | none => exact absurd hcarries (halike.jsOnly t hjs hgo hnear)
      | some t' =>
        obtain rfl := Go.jsNumber_eq_parseFloat hjs hgo
        refine ⟨t, hgo, hnear, ?_⟩
        by_cases hwhole : ∃ z : Int, t = z
        · obtain ⟨z, rfl⟩ := hwhole
          rw [jsText_intCast (natAbs_of_near hnear)] at hcarries
          rw [roundToZero_intCast]
          exact halike.whole z hjs hgo hnear hcarries
        · exact (halike.fraction t hjs hgo hnear hwhole).mp hcarries
    · intro hsees
      obtain ⟨t, hgo, hnear, hcarries⟩ := hsees
      cases hjs : jsNumber timestamp with
      | none => exact absurd hcarries (halike.goOnly t hjs hgo hnear)
      | some t' =>
        obtain rfl := Go.jsNumber_eq_parseFloat hjs hgo
        refine ⟨t', hjs, hnear, ?_⟩
        by_cases hwhole : ∃ z : Int, t' = z
        · obtain ⟨z, rfl⟩ := hwhole
          rw [roundToZero_intCast] at hcarries
          rw [jsText_intCast (natAbs_of_near hnear)]
          exact carries_of_go hcarries
        · exact (halike.fraction t' hjs hgo hnear hwhole).mpr hcarries

end Read

section Accepts
variable {hmac : Hmac} {now nowGo : TimeValue} {id timestamp signature rawBody secret : String}
  {key : List UInt8}

theorem accepts_iff_jsSees {J : Type} {json : String → Except String J} {parsed : J}
    (hkey : parseSecret secret = key) (hjson : json rawBody = .ok parsed) :
    (∃ v, verifyRead hmac json now id timestamp signature rawBody secret = .ok v) ↔
      ¬ (id = "" ∨ timestamp = "") ∧ JsSees hmac key now id timestamp signature rawBody := by
  subst hkey
  constructor
  · intro haccepts
    obtain ⟨v, hv⟩ := haccepts
    obtain ⟨hmissing, hsees, -⟩ := (verifyRead_ok_iff ..).mp hv
    exact ⟨fun h => hmissing (or_assoc.mp (.inl h)), hsees⟩
  · intro hsees
    obtain ⟨hmissing, t, hjs, hnear, hcarries⟩ := hsees
    refine ⟨parsed, (verifyRead_ok_iff ..).mpr ⟨?_, ⟨t, hjs, hnear, hcarries⟩, hjson⟩⟩
    rw [← or_assoc]
    exact fun h => h.elim hmissing hcarries.ne_empty

theorem accepts_iff_goSees (hsecond : now.seconds = nowGo.seconds)
    (hkey : Go.Signing.parseSecret secret = some key) :
    (∃ v, Go.Signing.verifyRead hmac nowGo id timestamp signature rawBody secret = .ok v) ↔
      ¬ (id = "" ∨ timestamp = "") ∧ GoSees hmac key now id timestamp signature rawBody := by
  unfold GoSees Near
  rw [hsecond]
  constructor
  · intro haccepts
    obtain ⟨v, hv⟩ := haccepts
    obtain ⟨hmissing, ⟨t, hgo, hnear, key', hkey', hcarries⟩, -⟩ :=
      (Go.Signing.verifyRead_ok_iff ..).mp hv
    obtain rfl := Option.some.inj (hkey'.symm.trans hkey)
    exact ⟨fun h => hmissing (or_assoc.mp (.inl h)), t, hgo, hnear, hcarries⟩
  · intro hsees
    obtain ⟨hmissing, t, hgo, hnear, hcarries⟩ := hsees
    refine ⟨rawBody, (Go.Signing.verifyRead_ok_iff ..).mpr
      ⟨?_, ⟨t, hgo, hnear, key, hkey, hcarries⟩, rfl⟩⟩
    rw [← or_assoc]
    exact fun h => h.elim hmissing hcarries.ne_empty

end Accepts

/-- **The two verifiers agree** exactly when they see the right signatures alike. -/
theorem verifiers_agree_iff {J : Type} (hmac : Hmac) (json : String → Except String J)
    (now nowGo : TimeValue) (headers order : Headers) (rawBody : String) (parsed : J)
    (text : List Char) (key : List UInt8) (hsecond : now.seconds = nowGo.seconds)
    (hplain : Plain headers) (hperm : order.Perm headers) (hjson : json rawBody = .ok parsed)
    (hsecret : decodeStrict text = some key) :
    ((∃ v, verify hmac json now headers rawBody (secretOf text) = .ok v) ↔
      ∃ v, Go.Signing.verify hmac nowGo order rawBody (secretOf text) = .ok v) ↔
    (lowercaseHeaders headers "webhook-id" = "" ∨ lowercaseHeaders headers "webhook-timestamp" = "" ∨
      SeenAlike hmac key now (lowercaseHeaders headers "webhook-id")
        (lowercaseHeaders headers "webhook-timestamp")
        (lowercaseHeaders headers "webhook-signature") rawBody) := by
  have hkey : parseSecret (secretOf text) = key := by
    unfold parseSecret
    rw [bare_secretOf, decodeStrict_lenient hsecret]
  have hkeyGo : Go.Signing.parseSecret (secretOf text) = some key := by
    unfold Go.Signing.parseSecret
    rw [bare_secretOf, hsecret]
  unfold verify Go.Signing.verify
  have hread : ∀ name ∈ readNames,
      Go.Signing.lowercaseHeaders order name = lowercaseHeaders headers name :=
    fun name hname => lowercaseHeaders_perm hplain hperm hname
  rw [hread "webhook-id" (by decide), hread "webhook-timestamp" (by decide),
    hread "webhook-signature" (by decide)]
  rw [accepts_iff_jsSees hkey hjson, accepts_iff_goSees hsecond hkeyGo, ← sees_iff, ← or_assoc]
  by_cases hmissing : lowercaseHeaders headers "webhook-id" = "" ∨
      lowercaseHeaders headers "webhook-timestamp" = ""
  · simp [hmissing]
  · simp [hmissing]

/-- The golden delivery with the padding of its signature left out. -/
def unpaddedHeaders : Headers :=
  [("webhook-id", "msg_1"),
    ("webhook-timestamp", "1700000000"),
    ("webhook-signature", "v1,g9EIBBIwm31AQEkP7q60DV8jDWYbrjV7TTZJL+PIcMo")]

theorem unpadded_accepted_by_one :
    verify golden goldenParse goldenTime unpaddedHeaders goldenBody (generateSecret firstKey) =
      .ok [("a", 1)] ∧
    Go.Signing.verify golden goldenTime unpaddedHeaders goldenBody (generateSecret firstKey) =
      .error "No matching signature found" := by
  constructor <;> decide +kernel

def paddedHeaders : Headers :=
  [("webhook-id", "msg_1"),
    ("webhook-timestamp", "1700000000"),
    ("webhook-signature", "v1,g9EIBBIwm31AQEkP7q60DV8jDWYbrjV7TTZJL+PIcMo=")]

theorem padded_seen_alike :
    SeenAlike golden firstKey goldenTime "msg_1" "1700000000"
      "v1,g9EIBBIwm31AQEkP7q60DV8jDWYbrjV7TTZJL+PIcMo=" goldenBody := by
  have hplain : Plain paddedHeaders := ⟨by decide +kernel, by decide +kernel⟩
  have haccepts : verify golden goldenParse goldenTime paddedHeaders goldenBody
      (secretOf (encode firstKey)) = .ok [("a", 1)] := by decide +kernel
  have hacceptsGo : Go.Signing.verify golden goldenTime paddedHeaders goldenBody
      (secretOf (encode firstKey)) = .ok goldenBody := by decide +kernel
  have halike := (verifiers_agree_iff golden goldenParse goldenTime goldenTime paddedHeaders
    paddedHeaders goldenBody [("a", 1)] (encode firstKey) firstKey rfl hplain (.refl _) rfl
    (decodeStrict_encode firstKey)).mp ⟨fun _ => ⟨_, hacceptsGo⟩, fun _ => ⟨_, haccepts⟩⟩
  have hid : lowercaseHeaders paddedHeaders "webhook-id" = "msg_1" := by decide +kernel
  have htime : lowercaseHeaders paddedHeaders "webhook-timestamp" = "1700000000" := by
    decide +kernel
  have hsignature : lowercaseHeaders paddedHeaders "webhook-signature" =
      "v1,g9EIBBIwm31AQEkP7q60DV8jDWYbrjV7TTZJL+PIcMo=" := by decide +kernel
  rw [hid, htime, hsignature] at halike
  rcases halike with hempty | hempty | halike
  · exact absurd hempty (by decide)
  · exact absurd hempty (by decide)
  · exact halike

end Anyhook.Signing
