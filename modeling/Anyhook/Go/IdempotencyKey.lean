import Anyhook.Lib.Joined
import Anyhook.Go.Engine

/-! The key the Go engine derives for an event that names none. It hashes tenant, type and
payload joined by spaces; where one of them has a space, another event has the same text. -/
namespace Anyhook.Go
open Anyhook.Core Anyhook.Lib.Joined

/-- The text `DeriveIdempotencyKey` hashes. -/
def canonical (e : SendEvent) : String := e.tenant ++ " " ++ e.type ++ " " ++ e.payload

/-- The digits of the hash that go into a key. -/
def keyDigits (en : Engine) (text : String) : List Char := (en.sha256Hex text).toList.take 32

theorem deriveIdempotencyKey_eq_iff (en : Engine) (e e' : SendEvent) :
    deriveIdempotencyKey en e = deriveIdempotencyKey en e' ↔
      keyDigits en (canonical e) = keyDigits en (canonical e') := by
  unfold deriveIdempotencyKey
  rw [String.append_right_inj, String.ofList_inj]
  rfl

theorem canonical_toList (e : SendEvent) :
    (canonical e).toList = joined ' ' e.tenant.toList e.type.toList e.payload.toList := by
  simp [canonical, joined]

/-- The events differ in tenant, type or payload. -/
def Differs (e e' : SendEvent) : Prop :=
  e.tenant ≠ e'.tenant ∨ e.type ≠ e'.type ∨ e.payload ≠ e'.payload

/-- The two texts share the digits of their hash only if they are one. -/
def NoCollision (en : Engine) (text text' : String) : Prop :=
  keyDigits en text = keyDigits en text' → text = text'

def SpaceFree (e : SendEvent) : Prop :=
  ' ' ∉ e.tenant.toList ∧ ' ' ∉ e.type.toList ∧ ' ' ∉ e.payload.toList

/-- The hashed text gives an event back exactly when the event has no space in it. -/
theorem canonical_determines_iff (e : SendEvent) :
    (∀ e', canonical e = canonical e' → ¬ Differs e e') ↔ SpaceFree e := by
  refine Iff.trans ?_ (joined_unique_iff ' ' e.tenant.toList e.type.toList e.payload.toList)
  constructor
  · intro h xs ys zs hjoined
    have hcanonical : canonical e = canonical { e with
        tenant := String.ofList xs, type := String.ofList ys, payload := String.ofList zs } := by
      rw [← String.toList_inj, canonical_toList, canonical_toList]
      simpa using hjoined.symm
    have hsame := h _ hcanonical
    unfold Differs at hsame
    simp only [not_or, not_not] at hsame
    obtain ⟨htenant, htype, hpayload⟩ := hsame
    exact ⟨by rw [htenant, String.toList_ofList], by rw [htype, String.toList_ofList],
      by rw [hpayload, String.toList_ofList]⟩
  · intro h e' hcanonical hdiffers
    have hlist := congrArg String.toList hcanonical
    rw [canonical_toList, canonical_toList] at hlist
    obtain ⟨htenant, htype, hpayload⟩ := h _ _ _ hlist.symm
    rcases hdiffers with hne | hne | hne
    · exact hne (String.toList_inj.mp htenant.symm)
    · exact hne (String.toList_inj.mp htype.symm)
    · exact hne (String.toList_inj.mp hpayload.symm)

/-- **Derived keys separate events** as far as the hash does, for the events without a space
in tenant, type and payload and for no others. -/
theorem derived_keys_separate_iff (en : Engine) (e : SendEvent) :
    ((∀ e', NoCollision en (canonical e) (canonical e') → Differs e e' →
        deriveIdempotencyKey en e ≠ deriveIdempotencyKey en e') ↔ SpaceFree e) ∧
      ((∀ e', canonical e = canonical e' → ¬ Differs e e') ↔ SpaceFree e) := by
  refine ⟨?_, canonical_determines_iff e⟩
  rw [← canonical_determines_iff]
  constructor
  · intro h e' hcanonical hdiffers
    refine h e' (fun _ => hcanonical) hdiffers ?_
    rw [deriveIdempotencyKey_eq_iff, hcanonical]
  · intro h e' hsafe hdiffers hkey
    exact h e' (hsafe ((deriveIdempotencyKey_eq_iff en e e').mp hkey)) hdiffers

/-- Two events of one tenant: the space between type and payload is the last character of the
type, or the first of the payload. -/
def trailingSpace : SendEvent where
  type := "order.created "
  tenant := "acme"
  payload := "1"
  idempotencyKey := none

def leadingSpace : SendEvent where
  type := "order.created"
  tenant := "acme"
  payload := " 1"
  idempotencyKey := none

theorem moved_space_same_key : Differs trailingSpace leadingSpace ∧ ∀ en : Engine,
    NoCollision en (canonical trailingSpace) (canonical leadingSpace) ∧
      deriveIdempotencyKey en trailingSpace = deriveIdempotencyKey en leadingSpace := by
  have hcanonical : canonical trailingSpace = canonical leadingSpace := by decide
  refine ⟨.inr (.inl (by decide)), fun en => ⟨fun _ => hcanonical, ?_⟩⟩
  rw [deriveIdempotencyKey_eq_iff, hcanonical]

end Anyhook.Go
