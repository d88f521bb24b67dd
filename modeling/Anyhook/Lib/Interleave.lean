import Anyhook.Lib.Program
import Mathlib.Data.List.Basic

/-! Many programs over one shared state, interleaved call by call. A call of the
pool has a name in `ι`; an event names the call that moves and the input its
environment gives it (an answer, a fault). Every list of events is a run, so a
statement about all lists of events is a statement about all interleavings.
The monitor of the system travels with each call as its `view`. -/
namespace Anyhook.Lib.Interleave
open Anyhook.Lib.Program

structure System (Op : Type) (Res : Op → Type) (ε σ Inp ι G : Type) where
  exec : ι → Inp → (op : Op) → σ → Except ε (Res op) × σ
  monitor : Monitor Op Res G

structure Conf (Op : Type) (Res : Op → Type) (ε α σ ι G : Type) where
  shared : σ
  rest : ι → Prog Op Res ε α
  view : ι → G

variable {Op : Type} {Res : Op → Type} {ε α σ Inp ι G : Type} [DecidableEq ι]
variable (S : System Op Res ε σ Inp ι G)

namespace System

/-- One call performs its next operation. A failed operation ends the call. -/
def step (c : Conf Op Res ε α σ ι G) (e : ι × Inp) : Conf Op Res ε α σ ι G :=
  match c.rest e.1 with
  | .call op k => match S.exec e.1 e.2 op c.shared with
    | (.ok r, s) => {
        shared := s
        rest := Function.update c.rest e.1 (k r)
        view := Function.update c.view e.1 (S.monitor.next (c.view e.1) op r) }
    | (.error x, s) => { c with shared := s, rest := Function.update c.rest e.1 (.throw x) }
  | _ => c

def run (c : Conf Op Res ε α σ ι G) (es : List (ι × Inp)) : Conf Op Res ε α σ ι G :=
  es.foldl S.step c

/-- `P` holds of every step of the run. -/
def Along (P : Conf Op Res ε α σ ι G → ι × Inp → Prop) :
    Conf Op Res ε α σ ι G → List (ι × Inp) → Prop
  | _, [] => True
  | c, e :: es => P c e ∧ Along P (S.step c e) es

instance decidableAlong (P : Conf Op Res ε α σ ι G → ι × Inp → Prop)
    [hP : ∀ c e, Decidable (P c e)] : (c : Conf Op Res ε α σ ι G) → (es : List (ι × Inp)) →
    Decidable (S.Along P c es)
  | _, [] => .isTrue trivial
  | c, e :: es =>
    have := decidableAlong P (S.step c e) es
    inferInstanceAs (Decidable (P c e ∧ S.Along P (S.step c e) es))

variable {S} {c : Conf Op Res ε α σ ι G} {e : ι × Inp} {es : List (ι × Inp)}

/-- Everything a step can do. -/
theorem step_cases (c : Conf Op Res ε α σ ι G) (i : ι) (inp : Inp) :
    (S.step c (i, inp) = c ∧ (c.rest i).head = none) ∨
    ∃ op k, c.rest i = .call op k ∧
      ((∃ r s, S.exec i inp op c.shared = (.ok r, s) ∧ S.step c (i, inp) = {
          shared := s
          rest := Function.update c.rest i (k r)
          view := Function.update c.view i (S.monitor.next (c.view i) op r) }) ∨
       (∃ x s, S.exec i inp op c.shared = (.error x, s) ∧ S.step c (i, inp) =
          { c with shared := s, rest := Function.update c.rest i (.throw x) })) := by
  unfold step
  cases hr : c.rest i with
  | pure a => exact .inl ⟨rfl, rfl⟩
  | throw x => exact .inl ⟨rfl, rfl⟩
  | call op k =>
    refine .inr ⟨op, k, rfl, ?_⟩
    dsimp only
    cases hx : S.exec i inp op c.shared with
    | mk out s =>
      cases out with
      | ok r => exact .inl ⟨r, s, rfl, rfl⟩
      | error x => exact .inr ⟨x, s, rfl, rfl⟩

theorem step_shared_of_call {i : ι} {inp : Inp} {op : Op} {k : Res op → Prog Op Res ε α}
    (h : c.rest i = .call op k) :
    (S.step c (i, inp)).shared = (S.exec i inp op c.shared).2 := by
  unfold step
  simp only [h]
  split <;> simp_all

/-- A step whose operation is answered. -/
theorem step_answered {i : ι} {inp : Inp} {op : Op} {k : Res op → Prog Op Res ε α} {r : Res op}
    {s : σ} (h : c.rest i = .call op k) (hx : S.exec i inp op c.shared = (.ok r, s)) :
    S.step c (i, inp) = {
      shared := s
      rest := Function.update c.rest i (k r)
      view := Function.update c.view i (S.monitor.next (c.view i) op r) } := by
  unfold step
  simp only [h, hx]

/-- A call that does not move keeps its program and its view. -/
theorem step_other {i j : ι} (hij : j ≠ i) (inp : Inp) :
    (S.step c (i, inp)).rest j = c.rest j ∧ (S.step c (i, inp)).view j = c.view j := by
  obtain ⟨h, -⟩ | ⟨op, k, -, ⟨r, s, -, h⟩ | ⟨x, s, -, h⟩⟩ := S.step_cases c i inp <;>
    simp [h, hij]

/-- A view moves by the monitor, at an answered call of its own, or not at all. -/
theorem step_view (c : Conf Op Res ε α σ ι G) (i : ι) (inp : Inp) (j : ι) :
    (S.step c (i, inp)).view j = c.view j ∨
      j = i ∧ ∃ op k r, c.rest i = .call op k ∧ (S.exec i inp op c.shared).1 = .ok r ∧
        (S.step c (i, inp)).view j = S.monitor.next (c.view i) op r := by
  by_cases hj : j = i
  · subst hj
    obtain ⟨h, -⟩ | ⟨op, k, hc, ⟨r, s, hx, h⟩ | ⟨x, s, -, h⟩⟩ := S.step_cases c j inp
    · exact .inl (by rw [h])
    · exact .inr ⟨rfl, op, k, r, hc, by rw [hx], by simp [h]⟩
    · exact .inl (by rw [h])
  · exact .inl (step_other hj inp).2

/-! ## Invariants along runs -/

theorem Along.mono {P Q : Conf Op Res ε α σ ι G → ι × Inp → Prop} (hpq : ∀ c e, P c e → Q c e)
    (h : S.Along P c es) : S.Along Q c es := by
  induction es generalizing c with
  | nil => trivial
  | cons e es ih => exact ⟨hpq _ _ h.1, ih h.2⟩

/-- An invariant that allowed steps keep holds at the end of a run of allowed steps. -/
theorem Along.invariant {P : Conf Op Res ε α σ ι G → ι × Inp → Prop}
    {I : Conf Op Res ε α σ ι G → Prop} (hs : ∀ c e, I c → P c e → I (S.step c e))
    (h0 : I c) (h : S.Along P c es) : I (S.run c es) := by
  induction es generalizing c with
  | nil => exact h0
  | cons e es ih => exact ih (hs _ _ h0 h.1) h.2

/-- The same invariant gives what every step of the run satisfies. -/
theorem Along.strengthen {P Q : Conf Op Res ε α σ ι G → ι × Inp → Prop}
    {I : Conf Op Res ε α σ ι G → Prop} (hs : ∀ c e, I c → P c e → I (S.step c e))
    (hq : ∀ c e, I c → P c e → Q c e) (h0 : I c) (h : S.Along P c es) : S.Along Q c es := by
  induction es generalizing c with
  | nil => trivial
  | cons e es ih => exact ⟨hq _ _ h0 h.1, ih (hs _ _ h0 h.1) h.2⟩

/-- What holds of every step holds of the step after any prefix. -/
theorem Along.after {P : Conf Op Res ε α σ ι G → ι × Inp → Prop} {es' : List (ι × Inp)}
    (h : S.Along P c (es ++ e :: es')) : P (S.run c es) e := by
  induction es generalizing c with
  | nil => exact h.1
  | cons e' es ih => exact ih h.2

theorem along_true : S.Along (fun _ _ => True) c es := by
  induction es generalizing c with
  | nil => trivial
  | cons e es ih => exact ⟨trivial, ih⟩

/-- An invariant that every step keeps holds after every run. -/
theorem run_invariant {I : Conf Op Res ε α σ ι G → Prop} (hs : ∀ c e, I c → I (S.step c e))
    (h0 : I c) : I (S.run c es) :=
  Along.invariant (fun c e hi _ => hs c e hi) h0 along_true

/-! ## Runs with a record of what happened -/

section Noted
variable {γ : Type} (note : γ → Conf Op Res ε α σ ι G → ι × Inp → γ)

/-- `P` holds of every step of the run, given what was noted before it. -/
def AlongWith (S : System Op Res ε σ Inp ι G)
    (P : γ → Conf Op Res ε α σ ι G → ι × Inp → Prop) :
    γ → Conf Op Res ε α σ ι G → List (ι × Inp) → Prop
  | _, _, [] => True
  | g, c, e :: es => P g c e ∧ AlongWith S P (note g c e) (S.step c e) es

instance decidableAlongWith (P : γ → Conf Op Res ε α σ ι G → ι × Inp → Prop)
    [hP : ∀ g c e, Decidable (P g c e)] : (g : γ) → (c : Conf Op Res ε α σ ι G) →
    (es : List (ι × Inp)) → Decidable (S.AlongWith note P g c es)
  | _, _, [] => .isTrue trivial
  | g, c, e :: es =>
    have := decidableAlongWith P (note g c e) (S.step c e) es
    inferInstanceAs (Decidable (P g c e ∧ S.AlongWith note P (note g c e) (S.step c e) es))

/-- What a run leaves noted. -/
def noted (S : System Op Res ε σ Inp ι G) : γ → Conf Op Res ε α σ ι G → List (ι × Inp) → γ
  | g, _, [] => g
  | g, c, e :: es => noted S (note g c e) (S.step c e) es

variable {note} {g : γ}

theorem AlongWith.strengthen {P Q : γ → Conf Op Res ε α σ ι G → ι × Inp → Prop}
    {I : γ → Conf Op Res ε α σ ι G → Prop}
    (hs : ∀ g c e, I g c → P g c e → I (note g c e) (S.step c e))
    (hq : ∀ g c e, I g c → P g c e → Q g c e) (h0 : I g c) (h : S.AlongWith note P g c es) :
    S.AlongWith note Q g c es := by
  induction es generalizing g c with
  | nil => trivial
  | cons e es ih => exact ⟨hq _ _ _ h0 h.1, ih (hs _ _ _ h0 h.1) h.2⟩

/-- An invariant over what is noted that allowed steps keep holds at the end of the run. -/
theorem Along.noted_invariant {P : Conf Op Res ε α σ ι G → ι × Inp → Prop}
    {I : γ → Conf Op Res ε α σ ι G → Prop}
    (hs : ∀ g c e, I g c → P c e → I (note g c e) (S.step c e)) (h0 : I g c)
    (h : S.Along P c es) : I (S.noted note g c es) (S.run c es) := by
  induction es generalizing g c with
  | nil => exact h0
  | cons e es ih => exact ih (hs g c e h0 h.1) h.2

/-- An invariant over what is noted, kept by every step. -/
theorem noted_invariant {I : γ → Conf Op Res ε α σ ι G → Prop}
    (hs : ∀ g c e, I g c → I (note g c e) (S.step c e)) (h0 : I g c) :
    I (S.noted note g c es) (S.run c es) :=
  Along.noted_invariant (fun g c e hi _ => hs g c e hi) h0 along_true

/-- An invariant over what is noted, kept by the allowed steps of a run. -/
theorem Along.noting {P : Conf Op Res ε α σ ι G → ι × Inp → Prop}
    {Q : γ → Conf Op Res ε α σ ι G → ι × Inp → Prop} {I : γ → Conf Op Res ε α σ ι G → Prop}
    (hs : ∀ g c e, I g c → P c e → I (note g c e) (S.step c e))
    (hq : ∀ g c e, I g c → P c e → Q g c e) (h0 : I g c) (h : S.Along P c es) :
    S.AlongWith note Q g c es := by
  induction es generalizing g c with
  | nil => trivial
  | cons e es ih => exact ⟨hq _ _ _ h0 h.1, ih (hs _ _ _ h0 h.1) h.2⟩

theorem AlongWith.after {P : γ → Conf Op Res ε α σ ι G → ι × Inp → Prop} {es' : List (ι × Inp)}
    (h : S.AlongWith note P g c (es ++ e :: es')) :
    P (S.noted note g c es) (S.run c es) e := by
  induction es generalizing g c with
  | nil => exact h.1
  | cons e' es ih => exact ih h.2

end Noted

/-! ## Monitored pools -/

/-- Every call of the pool obeys the monitor from here on. -/
def Obeyed (S : System Op Res ε σ Inp ι G) (done : G → α → Prop)
    (c : Conf Op Res ε α σ ι G) : Prop :=
  ∀ i, Obeys S.monitor done (c.view i) (c.rest i)

variable {done : G → α → Prop}

omit [DecidableEq ι] in
theorem Obeyed.allows {i : ι} {op : Op} {k : Res op → Prog Op Res ε α} (h : S.Obeyed done c)
    (hc : c.rest i = .call op k) : S.monitor.allows (c.view i) op := by
  have hi := h i
  rw [hc] at hi
  exact hi.1

theorem Obeyed.step (h : S.Obeyed done c) : S.Obeyed done (S.step c e) := by
  obtain ⟨i, inp⟩ := e
  intro j
  by_cases hj : j = i
  · subst hj
    have hi := h j
    obtain ⟨hs, -⟩ | ⟨op, k, hc, ⟨r, s, -, hs⟩ | ⟨x, s, -, hs⟩⟩ := S.step_cases c j inp
    · rw [hs]; exact hi
    · rw [hc] at hi
      simpa [hs] using hi.2 r
    · simp [hs]
  · obtain ⟨hr, hv⟩ := step_other (S := S) (c := c) hj inp
    rw [hr, hv]; exact h j

/-- Two pools look the same to the calls in `own`, as far as `proj` can see. -/
structure Agrees {π : Type} (own : ι → Prop) (proj : σ → π)
    (c c' : Conf Op Res ε α σ ι G) : Prop where
  shared : proj c.shared = proj c'.shared
  rest : ∀ i, own i → c.rest i = c'.rest i
  view : ∀ i, own i → c.view i = c'.view i

/-- A foreign call's allowed operations do not change what `proj` sees. -/
def Respects {π : Type} (S : System Op Res ε σ Inp ι G) (own : ι → Prop) (proj : σ → π)
    (i : ι) (g : G) : Prop :=
  ¬ own i → ∀ op, S.monitor.allows g op → ∀ inp s, proj (S.exec i inp op s).2 = proj s

/-- An own call's allowed operations answer and act on what `proj` sees only. -/
def Consistent {π : Type} (S : System Op Res ε σ Inp ι G) (own : ι → Prop) (proj : σ → π)
    (i : ι) (g : G) : Prop :=
  own i → ∀ op, S.monitor.allows g op → ∀ inp s s', proj s = proj s' →
    (S.exec i inp op s).1 = (S.exec i inp op s').1 ∧
      proj (S.exec i inp op s).2 = proj (S.exec i inp op s').2

section Purge
variable {π : Type} {own : ι → Prop} {proj : σ → π} {c' : Conf Op Res ε α σ ι G}

theorem Agrees.step_foreign (ho : S.Obeyed done c) (hr : ∀ i, S.Respects own proj i (c.view i))
    (he : ¬ own e.1) (h : Agrees own proj c c') : Agrees own proj (S.step c e) c' := by
  obtain ⟨i, inp⟩ := e
  have hne : ∀ j, own j → j ≠ i := by rintro j hj rfl; exact he hj
  have hsh : proj (S.step c (i, inp)).shared = proj c.shared := by
    cases hc : c.rest i with
    | call op k =>
      rw [step_shared_of_call hc]
      exact hr i he op (ho.allows hc) inp _
    | pure a => simp [System.step, hc]
    | throw x => simp [System.step, hc]
  exact ⟨hsh.trans h.shared,
    fun j hj => (step_other (hne j hj) inp).1.trans (h.rest j hj),
    fun j hj => (step_other (hne j hj) inp).2.trans (h.view j hj)⟩

theorem Agrees.step_own (ho : S.Obeyed done c) (hcon : ∀ i, S.Consistent own proj i (c.view i))
    (he : own e.1) (h : Agrees own proj c c') : Agrees own proj (S.step c e) (S.step c' e) := by
  obtain ⟨i, inp⟩ := e
  cases hc : c.rest i with
  | call op k =>
    have hc' : c'.rest i = .call op k := (h.rest i he).symm.trans hc
    obtain ⟨h1, h2⟩ := hcon i he op (ho.allows hc) inp _ _ h.shared
    have hs : ∀ j, own j → (S.step c (i, inp)).rest j = (S.step c' (i, inp)).rest j ∧
        (S.step c (i, inp)).view j = (S.step c' (i, inp)).view j := by
      intro j hj
      by_cases hji : j = i
      · subst hji
        unfold System.step
        simp only [hc, hc']
        cases hx : S.exec j inp op c.shared with
        | mk out s =>
          cases hx' : S.exec j inp op c'.shared with
          | mk out' s' =>
            have ho : out = out' := by simpa [hx, hx'] using h1
            subst ho
            cases out with
            | ok r => simp [h.view j hj]
            | error x => simp [h.view j hj]
      · rw [(step_other hji inp).1, (step_other hji inp).2, (step_other hji inp).1,
          (step_other hji inp).2]
        exact ⟨h.rest j hj, h.view j hj⟩
    refine ⟨?_, fun j hj => (hs j hj).1, fun j hj => (hs j hj).2⟩
    rw [step_shared_of_call hc, step_shared_of_call hc']
    exact h2
  | pure a =>
    have hc' : c'.rest i = .pure a := (h.rest i he).symm.trans hc
    simpa [System.step, hc, hc'] using h
  | throw x =>
    have hc' : c'.rest i = .throw x := (h.rest i he).symm.trans hc
    simpa [System.step, hc, hc'] using h

/-- **Purging.** If every view the run can reach respects and is consistent with
`proj`, deleting the events of foreign calls changes nothing `proj` or an own
call can see. -/
theorem Agrees.run_purge [DecidablePred own] {V : G → ι → Prop}
    (hV : ∀ g i op r, V g i → S.monitor.allows g op → V (S.monitor.next g op r) i)
    (hr : ∀ g i, V g i → S.Respects own proj i g)
    (hcon : ∀ g i, V g i → S.Consistent own proj i g)
    (ho : S.Obeyed done c) (hv : ∀ i, V (c.view i) i) (h : Agrees own proj c c')
    (es : List (ι × Inp)) :
    Agrees own proj (S.run c es) (S.run c' (es.filter fun e => own e.1)) := by
  induction es generalizing c c' with
  | nil => exact h
  | cons e es ih =>
    have hv' : ∀ i, V ((S.step c e).view i) i := by
      intro j
      obtain ⟨i, inp⟩ := e
      by_cases hji : j = i
      · subst hji
        obtain ⟨hs, -⟩ | ⟨op, k, hc, ⟨r, s, -, hs⟩ | ⟨x, s, -, hs⟩⟩ := S.step_cases c j inp
        · rw [hs]; exact hv j
        · simpa [hs] using hV _ _ op r (hv j) (ho.allows hc)
        · simpa [hs] using hv j
      · rw [(step_other hji inp).2]; exact hv j
    by_cases he : own e.1
    · rw [List.filter_cons_of_pos (by simpa using he)]
      exact ih ho.step hv' (h.step_own ho (fun i => hcon _ i (hv i)) he)
    · rw [List.filter_cons_of_neg (by simpa using he)]
      exact ih ho.step hv' (h.step_foreign ho (fun i => hr _ i (hv i)) he)

end Purge
end System
end Anyhook.Lib.Interleave
