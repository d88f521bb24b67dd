import Mathlib.Data.List.Basic

/-! Runs of a deterministic machine: a step function over states and events, and what
holds at every step of a run. -/
namespace Anyhook.Lib.Run

variable {σ ε : Type} (step : σ → ε → σ)

/-- `P` holds of every step of the run. -/
def Along (P : σ → ε → Prop) : σ → List ε → Prop
  | _, [] => True
  | s, e :: es => P s e ∧ Along P (step s e) es

instance decidableAlong (P : σ → ε → Prop) [hP : ∀ s e, Decidable (P s e)] :
    (s : σ) → (es : List ε) → Decidable (Along step P s es)
  | _, [] => .isTrue trivial
  | s, e :: es =>
    have := decidableAlong P (step s e) es
    inferInstanceAs (Decidable (P s e ∧ Along step P (step s e) es))

variable {step} {P Q : σ → ε → Prop} {I : σ → Prop} {s : σ} {es : List ε}

/-- An invariant that allowed steps keep gives what every step of the run satisfies. -/
theorem Along.strengthen (hs : ∀ s e, I s → P s e → I (step s e))
    (hq : ∀ s e, I s → P s e → Q s e) (h0 : I s) (h : Along step P s es) : Along step Q s es := by
  induction es generalizing s with
  | nil => trivial
  | cons e es ih => exact ⟨hq _ _ h0 h.1, ih (hs _ _ h0 h.1) h.2⟩

/-- What holds of every step holds of the step after any prefix. -/
theorem Along.after {e : ε} {es' : List ε} (h : Along step P s (es ++ e :: es')) :
    P (es.foldl step s) e := by
  induction es generalizing s with
  | nil => exact h.1
  | cons e' es ih => exact ih h.2

/-! ## Leaving events out -/

section Outputs
variable {O : ε → Type} (step) (out : σ → (e : ε) → O e) (keep : ε → Bool)

/-- What the kept events of a run give out. -/
def outputs : σ → List ε → List ((e : ε) × O e)
  | _, [] => []
  | s, e :: es =>
    if keep e then ⟨e, out s e⟩ :: outputs (step s e) es else outputs (step s e) es

variable {step out keep} {R : σ → σ → Prop} {t : σ}

/-- Where kept events answer alike in related states, and other events leave a state related,
the run without the other events gives out the same. -/
theorem outputs_filter
    (hkeep : ∀ s t e, keep e = true → R s t → out s e = out t e ∧ R (step s e) (step t e))
    (hdrop : ∀ s t e, keep e = false → R s t → R (step s e) t) (h : R s t) :
    outputs step out keep s es = outputs step out keep t (es.filter keep) := by
  induction es generalizing s t with
  | nil => rfl
  | cons e es ih =>
    cases he : keep e with
    | true =>
      obtain ⟨hout, hstep⟩ := hkeep s t e he h
      rw [List.filter_cons_of_pos he]
      simp only [outputs, he, if_true]
      rw [hout, ih hstep]
    | false =>
      rw [List.filter_cons_of_neg (by simp [he])]
      simp only [outputs, he, Bool.false_eq_true, if_false]
      exact ih (hdrop s t e he h)

end Outputs
end Anyhook.Lib.Run
