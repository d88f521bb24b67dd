import Anyhook.Lib.Joined
import Anyhook.Lib.Scan
import Anyhook.Aws.DynamoStore

/-! The keys of the table. Eleven helpers of config.ts make the sort keys; ids and
idempotency keys go into them unescaped. `RowId` names a row of a tenant by what it stands
for: no two of them share a key, and a `begins_with` query of the store finds the rows of
one family, or of one message, only. -/
namespace Anyhook.Aws.Store
open Anyhook.Core Anyhook.Testing Anyhook.Lib Anyhook.Lib.Program Anyhook.Lib.Padded

inductive RowId where
  | event (idemKey : String)
  | endpoint (endpointId : String)
  | message (messageId : String)
  | index (messageId : String)
  | attempt (messageId : String) (seq : Nat)
  | attemptCounter (messageId : String)
  | circuit (endpointId : String)
  | rate (endpointId : String)
  | dead (seq : Nat)
  | deadCounter
  deriving DecidableEq

namespace RowId

def sk : RowId → String
  | .event idemKey => idemSk idemKey
  | .endpoint endpointId => endpointSk endpointId
  | .message messageId => messageSk messageId
  | .index messageId => messageIndexSk messageId
  | .attempt messageId seq => attemptSk messageId seq
  | .attemptCounter messageId => attemptCounterSk messageId
  | .circuit endpointId => circuitSk endpointId
  | .rate endpointId => rateSk endpointId
  | .dead seq => dlqSk seq
  | .deadCounter => dlqCounterSk

/-- The key splits into the tag of the row family and a body. -/
def tag : RowId → List Char
  | .event _ => ['I', 'D', 'E', 'M', '#']
  | .endpoint _ => ['E', 'P', '#']
  | .message _ => ['M', 'S', 'G', '#']
  | .index _ => ['M', 'I', 'D', 'X', '#']
  | .attempt .. => ['A', 'T', 'T', '#']
  | .attemptCounter _ => ['A', 'T', 'T', 'C', 'O', 'U', 'N', 'T', '#']
  | .circuit _ => ['C', 'I', 'R', 'C', 'U', 'I', 'T', '#']
  | .rate _ => ['R', 'A', 'T', 'E', '#']
  | .dead _ => ['D', 'L', 'Q', '#']
  | .deadCounter => ['D', 'L', 'Q', 'S', 'E', 'Q']

def body : RowId → List Char
  | .event id | .endpoint id | .message id | .index id | .attemptCounter id | .circuit id
  | .rate id => id.toList
  | .attempt messageId seq => messageId.toList ++ '#' :: (padStart 10 seq).toList
  | .dead seq => (padStart 16 seq).toList
  | .deadCounter => []

theorem sk_toList (r : RowId) : r.sk.toList = r.tag ++ r.body := by
  cases r with
  | attempt messageId seq =>
    simp [sk, attemptSk, attemptSkPrefix, tag, body, String.toList_append]
  | deadCounter => simp [sk, dlqCounterSk, tag, body]
  | event => simp [sk, idemSk, tag, body, String.toList_append]
  | endpoint => simp [sk, endpointSk, tag, body, String.toList_append]
  | message => simp [sk, messageSk, tag, body, String.toList_append]
  | index => simp [sk, messageIndexSk, tag, body, String.toList_append]
  | attemptCounter => simp [sk, attemptCounterSk, tag, body, String.toList_append]
  | circuit => simp [sk, circuitSk, tag, body, String.toList_append]
  | rate => simp [sk, rateSk, tag, body, String.toList_append]
  | dead => simp [sk, dlqSk, tag, body, String.toList_append]

/-- No tag begins another, ATT# and ATTCOUNT#, DLQ# and DLQSEQ included. -/
theorem tag_eq_of_prefix (r r' : RowId) (h : r.tag <+: r'.tag) : r.tag = r'.tag := by
  cases r <;> cases r' <;> first | rfl | exact absurd h (by simp [tag])

/-- A key that begins with a tag is of its family. -/
theorem tag_eq_of_prefix_sk {r r' : RowId} (h : r.tag <+: r'.sk.toList) : r.tag = r'.tag := by
  rw [sk_toList] at h
  exact Scan.tag_eq_of_prefix tag_eq_of_prefix h (List.prefix_append r'.tag r'.body)

/-- A message id that can stand in an attempt's key. -/
def Plain : RowId → Prop
  | .attempt messageId _ => '#' ∉ messageId.toList
  | _ => True

theorem eq_of_body {r r' : RowId} (hr : r.Plain) (hr' : r'.Plain) (htag : r.tag = r'.tag)
    (hbody : r.body = r'.body) : r = r' := by
  cases r <;> cases r' <;> simp [tag] at htag
  case attempt.attempt id seq id' seq' =>
    obtain ⟨hid, hseq⟩ := Joined.cut_first hr hr' hbody
    rw [String.toList_injective hid, padStart_injective (String.toList_injective hseq)]
  case dead.dead seq seq' => rw [padStart_injective (String.toList_injective hbody)]
  case deadCounter.deadCounter => rfl
  all_goals exact congrArg _ (String.toList_injective hbody)

/-- No two logical rows of a tenant share a sort key. -/
theorem sk_injective {r r' : RowId} (hr : r.Plain) (hr' : r'.Plain) (h : r.sk = r'.sk) :
    r = r' := by
  have htag : r.tag = r'.tag := by
    refine tag_eq_of_prefix_sk ?_
    rw [← h, sk_toList]
    exact List.prefix_append _ _
  refine eq_of_body hr hr' htag ?_
  have hl := congrArg String.toList h
  rw [sk_toList, sk_toList, htag] at hl
  exact List.append_cancel_left hl

end RowId

theorem tenantPk_injective {t t' : String} (h : tenantPk t = tenantPk t') : t = t' := by
  have hl := congrArg String.toList h
  simp only [tenantPk, String.toList_append] at hl
  exact String.toList_injective (List.append_cancel_left hl)

/-! ## What the queries find -/

section Prefixes
variable {r : RowId}

theorem tag_prefix_iff (r₀ : RowId) :
    r₀.tag.isPrefixOf r.sk.toList = true ↔ r₀.tag = r.tag := by
  rw [List.isPrefixOf_iff_prefix]
  constructor
  · exact RowId.tag_eq_of_prefix_sk
  · intro h
    rw [RowId.sk_toList, h]
    exact List.prefix_append _ _

theorem endpointSk_prefix_iff :
    (endpointSk "").toList.isPrefixOf r.sk.toList = true ↔ ∃ id, r = .endpoint id := by
  have htag : (endpointSk "").toList = (RowId.endpoint "").tag := by simp [endpointSk, RowId.tag]
  rw [htag, tag_prefix_iff]
  cases r <;> simp [RowId.tag]

theorem messageSk_prefix_iff :
    (messageSk "").toList.isPrefixOf r.sk.toList = true ↔ ∃ id, r = .message id := by
  have htag : (messageSk "").toList = (RowId.message "").tag := by simp [messageSk, RowId.tag]
  rw [htag, tag_prefix_iff]
  cases r <;> simp [RowId.tag]

theorem dlqSk_prefix_iff :
    "DLQ#".toList.isPrefixOf r.sk.toList = true ↔ ∃ seq, r = .dead seq := by
  have htag : "DLQ#".toList = (RowId.dead 0).tag := by simp [RowId.tag]
  rw [htag, tag_prefix_iff]
  cases r <;> simp [RowId.tag]

theorem attemptSkPrefix_prefix_iff {messageId : String} (hid : '#' ∉ messageId.toList)
    (hr : r.Plain) :
    (attemptSkPrefix messageId).toList.isPrefixOf r.sk.toList = true ↔
      ∃ seq, r = .attempt messageId seq := by
  have hpre : (attemptSkPrefix messageId).toList =
      (RowId.attempt "" 0).tag ++ (messageId.toList ++ ['#']) := by
    simp [attemptSkPrefix, RowId.tag, String.toList_append]
  rw [List.isPrefixOf_iff_prefix, hpre]
  constructor
  · intro h
    have heq := RowId.tag_eq_of_prefix_sk ((List.prefix_append _ _).trans h)
    cases r with
    | attempt id seq =>
      rw [RowId.sk_toList, RowId.tag] at h
      obtain ⟨rest, hrest⟩ := (List.prefix_append_right_inj _).mp h
      rw [List.append_assoc] at hrest
      obtain ⟨hl, -⟩ := Joined.cut_first hid hr hrest
      exact ⟨seq, by rw [String.toList_injective hl]⟩
    | _ => simp [RowId.tag] at heq
  · rintro ⟨seq, rfl⟩
    rw [RowId.sk_toList]
    refine (List.prefix_append_right_inj _).mpr ⟨(padStart 10 seq).toList, ?_⟩
    simp [RowId.body]

end Prefixes
end Anyhook.Aws.Store
