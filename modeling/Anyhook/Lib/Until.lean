import Anyhook.Lib.Program

/-! One program over two implementations of its operations. The first implementation is the
reference. Both answer every call alike and stay related until the reference is spoilt; once
spoilt it stays so. So a run of the reference that ends unspoilt is matched by the run of the
other one, call by call. -/
namespace Anyhook.Lib.Program

variable {Op : Type} {Res : Op → Type} {ε α σ τ G : Type}

/-- What a call does to the two implementations. `R` relates their states, `Spoilt` is about the
state of the reference; both know the state of a monitor. -/
structure AlikeUntil (M : Monitor Op Res G) (exec : (op : Op) → σ → Except ε (Res op) × σ)
    (exec' : (op : Op) → τ → Except ε (Res op) × τ) (R : G → σ → τ → Prop)
    (Spoilt : G → σ → Prop) : Prop where
  returns : ∀ op s, ∃ r s', exec op s = (.ok r, s')
  stays : ∀ g op s r s', Spoilt g s → M.allows g op → exec op s = (.ok r, s') →
    Spoilt (M.next g op r) s'
  step : ∀ g op s t r s', R g s t → M.allows g op → exec op s = (.ok r, s') →
    Spoilt (M.next g op r) s' ∨ ∃ t', exec' op t = (.ok r, t') ∧ R (M.next g op r) s' t'

variable {M : Monitor Op Res G} {exec : (op : Op) → σ → Except ε (Res op) × σ}
  {exec' : (op : Op) → τ → Except ε (Res op) × τ} {R : G → σ → τ → Prop}
  {Spoilt : G → σ → Prop} {done : G → α → Prop}

/-- A run over the reference that is spoilt somewhere ends spoilt. -/
theorem AlikeUntil.run_spoilt (h : AlikeUntil M exec exec' R Spoilt) {g : G} {s : σ}
    {p : Prog Op Res ε α} (hp : Obeys M done g p) (hs : Spoilt g s) :
    ∃ g', (∀ a, (p.run exec s).1 = .ok a → done g' a) ∧ Spoilt g' (p.run exec s).2 := by
  induction p generalizing g s with
  | pure a =>
    refine ⟨g, fun b hb => ?_, hs⟩
    cases hb
    exact hp
  | throw e =>
    refine ⟨g, fun b hb => ?_, hs⟩
    cases hb
  | call op k ih =>
    obtain ⟨r, s', hx⟩ := h.returns op s
    rw [Prog.run_call_ok hx]
    exact ih r (hp.2 r) (h.stays g op s r s' hs hp.1 hx)

/-- **Alike until spoilt.** A run of the reference ends spoilt, or the other run returns the same
and ends in a related state. -/
theorem AlikeUntil.run (h : AlikeUntil M exec exec' R Spoilt) {g : G} {s : σ} {t : τ}
    {p : Prog Op Res ε α} (hp : Obeys M done g p) (hr : R g s t) :
    ∃ g', (∀ a, (p.run exec s).1 = .ok a → done g' a) ∧
      (Spoilt g' (p.run exec s).2 ∨
        (p.run exec' t).1 = (p.run exec s).1 ∧ R g' (p.run exec s).2 (p.run exec' t).2) := by
  induction p generalizing g s t with
  | pure a =>
    refine ⟨g, fun b hb => ?_, .inr ⟨rfl, hr⟩⟩
    cases hb
    exact hp
  | throw e =>
    refine ⟨g, fun b hb => ?_, .inr ⟨rfl, hr⟩⟩
    cases hb
  | call op k ih =>
    obtain ⟨r, s', hx⟩ := h.returns op s
    rw [Prog.run_call_ok hx]
    obtain hspoilt | ⟨t', hx', hr'⟩ := h.step g op s t r s' hr hp.1 hx
    · obtain ⟨g', hdone, hs'⟩ := h.run_spoilt (hp.2 r) hspoilt
      exact ⟨g', hdone, .inl hs'⟩
    · rw [Prog.run_call_ok hx']
      exact ih r (hp.2 r) hr'

end Anyhook.Lib.Program
