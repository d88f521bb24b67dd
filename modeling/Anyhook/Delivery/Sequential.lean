import Anyhook.Delivery.Phase
import Anyhook.Testing.Card
import Anyhook.Testing.Pool

/-! One call of `processMessage` run to its end. Each port call moves the phase and
touches one card, so a relation between the phase and the card of the message that
every allowed operation keeps holds when the call ends. -/
namespace Anyhook.Delivery
open Anyhook.Core Anyhook.Testing Anyhook.Lib.Program

/-- A 2xx answer. -/
def isSuccess : HttpResult → Bool
  | .response status _ _ => 200 ≤ status && status < 300
  | _ => false

/-- The message was answered with success and is stored as delivered. -/
def Card.deliveredOk (c : Card) : Prop :=
  (∃ r ∈ c.answers, isSuccess r = true) ∧ ∃ m, c.stored = some m ∧ m.status = .delivered

instance (c : Card) : Decidable (Card.deliveredOk c) :=
  decidable_of_iff (c.answers.any isSuccess = true ∧ c.stored.map Message.status = some .delivered)
    (by simp [Card.deliveredOk])

/-- A call leaves the cards of other messages alone. -/
theorem touch_other {m : Message} {op : Op} {a : Answer} {c : Card} (hf : Footprint m op)
    {key : String × String} (hk : m.key ≠ key) : touch (some m) a key op c = c := by
  cases op with
  | putMessage x => exact if_neg (by rw [hf.key]; exact hk)
  | addToDlq x r => exact if_neg (by rw [hf.key]; exact hk)
  | scheduleRetry x t => exact if_neg (by rw [hf.key]; exact hk)
  | appendAttempt x =>
    obtain ⟨ht, hi, -⟩ := hf
    exact if_neg (by rw [ht, hi]; exact hk)
  | post url body headers timeoutMs => exact if_neg (by simpa using hk)
  | transportSend x => exact absurd hf id
  | _ => rfl

/-! ## Taking one copy out -/

theorem filter_eraseIdx {α : Type} {P : α → Bool} {l : List α} {k : Nat} {x : α}
    (hx : l[k]? = some x) (hp : P x = false) : (l.eraseIdx k).filter P = l.filter P := by
  induction l generalizing k with
  | nil => simp at hx
  | cons y rest ih =>
    cases k with
    | zero =>
      obtain rfl : y = x := by simpa using hx
      simp [hp]
    | succ k =>
      simp only [List.eraseIdx_cons_succ, List.filter_cons]
      rw [ih (by simpa using hx)]

theorem filter_eraseIdx_length {α : Type} {P : α → Bool} {l : List α} {k : Nat} {x : α}
    (hx : l[k]? = some x) (hp : P x = true) :
    ((l.eraseIdx k).filter P).length + 1 = (l.filter P).length := by
  induction l generalizing k with
  | nil => simp at hx
  | cons y rest ih =>
    cases k with
    | zero =>
      obtain rfl : y = x := by simpa using hx
      simp [hp]
    | succ k =>
      have := ih (by simpa using hx)
      simp only [List.eraseIdx_cons_succ, List.filter_cons]
      split <;> simp [this]

/-! ## A whole call -/

section Call
variable {en : Engine} {m : Message} {w : World} {R : Phase → Card → Prop} {E : Card → Prop}

/-- `R`, between the phase and the message's card, is kept by every answered call;
however the call is cut short, `E` holds of the card. -/
structure Carries (en : Engine) (m : Message) (R : Phase → Card → Prop) (E : Card → Prop) :
    Prop where
  answered : ∀ p c op a r, p.keyed m → p.allows en m op → R p c →
    R (p.next m op r) (touch (some m) a m.key op c)
  failed : ∀ p c op a, p.keyed m → p.allows en m op → R p c → E (touch (some m) a m.key op c)
  cut : ∀ p c, R p c → E c

/-- What a call knows about the world while it runs. -/
structure Going (m : Message) (w : World) (R : Phase → Card → Prop) (g : Message × Phase)
    (s : World × Nat) : Prop where
  message : g.1 = m
  keyed : g.2.keyed m
  others : ∀ key, m.key ≠ key → card s.1 key = card w key
  own : R g.2 (card s.1 m.key)

/-- One answered port call. -/
theorem Carries.going (h : Carries en m R E) {g : Message × Phase} {s : World × Nat} {op : Op}
    {a : Answer} {r : Res op} (hg : Going m w R g s) (hal : (monitor en).allows g op) (n : Nat) :
    Going m w R ((monitor en).next g op r) ((exec (some m) a op s.1).2, n) := by
  obtain ⟨m', p⟩ := g
  obtain ⟨rfl, hk, ho, hr⟩ := hg
  have hf := Phase.footprint hk hal
  refine ⟨rfl, Phase.keyed_next hk hal r, fun key hkey => ?_, ?_⟩
  · rw [card_exec, touch_other hf hkey]
    exact ho key hkey
  · rw [card_exec]
    exact h.answered p _ op a r hk hal hr

/-- **A call run to its end** leaves the other cards alone; if it returned, it did so in
a phase its program may end in, with `R`; if it was cut short, it leaves `E`. -/
theorem Carries.run (h : Carries en m R E) {α : Type} {prog : Eng α}
    {done : Message × Phase → α → Prop} {p0 : Phase} (hobey : Obeys (monitor en) done (m, p0) prog)
    (hk : p0.keyed m) (hr : R p0 (card w m.key)) (inputs : Nat → Input) :
    (∀ key, m.key ≠ key → card (runSeq (some m) inputs prog w).2 key = card w key) ∧
      match (runSeq (some m) inputs prog w).1 with
        | .ok a => ∃ p, done (m, p) a ∧ R p (card (runSeq (some m) inputs prog w).2 m.key)
        | .error _ => E (card (runSeq (some m) inputs prog w).2 m.key) := by
  have hrun := hobey.run_inv (execSeq (some m) inputs) (s := (w, 0))
    (I := Going m w R)
    (E := fun s => (∀ key, m.key ≠ key → card s.1 key = card w key) ∧ E (card s.1 m.key))
    ?_ ?_ ?_ ⟨rfl, hk, fun _ _ => rfl, hr⟩
  · simp only [runSeq]
    revert hrun
    cases hout : prog.run (execSeq (some m) inputs) (w, 0) with
    | mk out s =>
      cases out with
      | ok a =>
        rintro ⟨g, hd, hm, -, ho, hr⟩
        obtain ⟨m', p⟩ := g
        obtain rfl : m' = m := hm
        exact ⟨ho, p, hd, hr⟩
      | error x => exact id
  · intro g op s r s' hg hal hx
    simp only [execSeq, Prod.mk.injEq] at hx
    obtain ⟨hx, rfl⟩ := hx
    cases hf : (inputs s.2).2 with
    | none =>
      simp only [execFault]
      exact h.going hg hal _
    | before => simp [hf, execFault] at hx
    | after => simp [hf, execFault] at hx
  · intro g op s x s' hg hal hx
    simp only [execSeq, Prod.mk.injEq] at hx
    obtain ⟨hx, rfl⟩ := hx
    obtain ⟨m', p⟩ := g
    obtain ⟨rfl, hk, ho, hr⟩ := hg
    cases hf : (inputs s.2).2 with
    | none => simp [hf, execFault] at hx
    | before =>
      simp only [execFault]
      exact ⟨ho, h.cut p _ hr⟩
    | after =>
      simp only [execFault]
      refine ⟨fun key hkey => ?_, ?_⟩
      · rw [card_exec, touch_other (Phase.footprint hk hal) hkey]
        exact ho key hkey
      · rw [card_exec]
        exact h.failed p _ op _ hk hal hr
  · intro g s hg
    exact ⟨hg.others, h.cut g.2 _ hg.own⟩

end Call
end Anyhook.Delivery
