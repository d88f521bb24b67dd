import Mathlib.Logic.Function.Basic

/-! Programs over a signature of operations, as finite trees: a program returns,
throws, or calls one operation and continues with its answer. Nothing is said
here about what an operation does. A semantics is chosen later, by `run` for one
program alone or by `Interleave` for many programs over one shared state.
A `Monitor` watches the calls of one program; `Obeys` says that no path of the
program makes a call its monitor forbids. -/
namespace Anyhook.Lib.Program

inductive Prog (Op : Type) (Res : Op → Type) (ε α : Type) where
  | pure (a : α)
  | throw (e : ε)
  | call (op : Op) (k : Res op → Prog Op Res ε α)

variable {Op : Type} {Res : Op → Type} {Op' : Type} {Res' : Op' → Type}
variable {ε α β σ G : Type}

namespace Prog

def bind : Prog Op Res ε α → (α → Prog Op Res ε β) → Prog Op Res ε β
  | .pure a, f => f a
  | .throw e, _ => .throw e
  | .call op k, f => .call op fun r => (k r).bind f

instance : Monad (Prog Op Res ε) where
  pure := Prog.pure
  bind := Prog.bind

/-- One call, returning its answer. -/
def perform (op : Op) : Prog Op Res ε (Res op) := .call op .pure

@[simp] theorem call_bind (op : Op) (k : Res op → Prog Op Res ε α) (f : α → Prog Op Res ε β) :
    (Prog.call op k >>= f) = .call op fun r => k r >>= f := rfl
@[simp] theorem perform_bind (op : Op) (f : Res op → Prog Op Res ε β) :
    ((perform op : Prog Op Res ε (Res op)) >>= f) = .call op f := rfl

instance : LawfulMonad (Prog Op Res ε) := LawfulMonad.mk' _
  (fun p => by
    induction p with
    | pure a => rfl
    | throw e => rfl
    | call op k ih => exact congrArg (Prog.call op) (funext ih))
  (fun _ _ => rfl)
  (fun p f g => by
    induction p with
    | pure a => rfl
    | throw e => rfl
    | call op k ih => exact congrArg (Prog.call op) (funext ih))

/-- Handle what a program throws. What it called before stays called. -/
def tryCatch : Prog Op Res ε α → (ε → Prog Op Res ε α) → Prog Op Res ε α
  | .pure a, _ => .pure a
  | .throw e, h => h e
  | .call op k, h => .call op fun r => (k r).tryCatch h

/-- What a program has returned. -/
def result? : Prog Op Res ε α → Option α
  | .pure a => some a
  | _ => none

/-- The operation a program is about to call. -/
def head : Prog Op Res ε α → Option Op
  | .call op _ => some op
  | _ => none

/-! ## One program alone -/

/-- Run a program to its end over a state. An operation may fail after it
changed the state; the failure ends the program and the change stays. -/
def run (exec : (op : Op) → σ → Except ε (Res op) × σ) : Prog Op Res ε α → σ → Except ε α × σ
  | .pure a, s => (.ok a, s)
  | .throw e, s => (.error e, s)
  | .call op k, s => match exec op s with
    | (.ok r, s') => run exec (k r) s'
    | (.error e, s') => (.error e, s')

variable {exec : (op : Op) → σ → Except ε (Res op) × σ}

@[simp] theorem run_throw (e : ε) (s : σ) :
    run exec (Prog.throw e : Prog Op Res ε α) s = (.error e, s) := rfl

theorem run_call (op : Op) (k : Res op → Prog Op Res ε α) (s : σ) :
    run exec (.call op k) s = match exec op s with
      | (.ok r, s') => run exec (k r) s'
      | (.error e, s') => (.error e, s') := by rw [run]

theorem run_call_ok {op : Op} {k : Res op → Prog Op Res ε α} {s s' : σ} {r : Res op}
    (h : exec op s = (.ok r, s')) : run exec (.call op k) s = run exec (k r) s' := by
  rw [run_call, h]

theorem run_call_error {op : Op} {k : Res op → Prog Op Res ε α} {s s' : σ} {e : ε}
    (h : exec op s = (.error e, s')) : run exec (.call op k) s = (.error e, s') := by
  rw [run_call, h]

theorem run_bind (p : Prog Op Res ε α) (f : α → Prog Op Res ε β) (s : σ) :
    run exec (p >>= f) s = match run exec p s with
      | (.ok a, s') => run exec (f a) s'
      | (.error e, s') => (.error e, s') := by
  induction p generalizing s with
  | pure a => rfl
  | throw e => rfl
  | call op k ih =>
    rw [call_bind, run_call, run_call]
    cases h : exec op s with
    | mk out s' =>
      cases out with
      | error e => rfl
      | ok r => exact ih r s'

/-- What every operation keeps, a program alone keeps. -/
theorem run_keeps {I : σ → Prop} (hs : ∀ op s, I s → I (exec op s).2) (p : Prog Op Res ε α) {s : σ}
    (h : I s) : I (run exec p s).2 := by
  induction p generalizing s with
  | pure a => exact h
  | throw e => exact h
  | call op k ih =>
    have hop := hs op s h
    rw [run_call]
    cases hx : exec op s with
    | mk out s' =>
      rw [hx] at hop
      cases out with
      | ok r => exact ih r hop
      | error e => exact hop

/-! ## Programs that do not throw of their own accord -/

def Total : Prog Op Res ε α → Prop
  | .pure _ => True
  | .throw _ => False
  | .call _ k => ∀ r, Total (k r)

theorem total_perform (op : Op) : Total (perform op : Prog Op Res ε (Res op)) := fun _ => trivial

theorem total_bind {p : Prog Op Res ε α} {f : α → Prog Op Res ε β} (hp : Total p)
    (hf : ∀ a, Total (f a)) : Total (p >>= f) := by
  induction p with
  | pure a => exact hf a
  | throw e => exact absurd hp id
  | call op k ih => exact fun r => ih r (hp r)

theorem total_call {op : Op} {f : Res op → Prog Op Res ε β} (hf : ∀ r, Total (f r)) :
    Total (perform op >>= f) := hf

/-- Where no operation fails, such a program returns. -/
theorem Total.run_ok {p : Prog Op Res ε α} (hp : Total p)
    (exec : (op : Op) → σ → Except ε (Res op) × σ) (hx : ∀ op s, ∃ r s', exec op s = (.ok r, s'))
    (s : σ) : ∃ a s', run exec p s = (.ok a, s') := by
  induction p generalizing s with
  | pure a => exact ⟨a, s, rfl⟩
  | throw e => exact absurd hp id
  | call op k ih =>
    obtain ⟨r, s', h⟩ := hx op s
    rw [run_call_ok h]
    exact ih r (hp r) s'

/-! ## What a run that returns ends with -/

/-- The program returns, with a result and a state of which `Q` holds. -/
def Ends (exec : (op : Op) → σ → Except ε (Res op) × σ) (p : Prog Op Res ε α)
    (Q : α → σ → Prop) (s : σ) : Prop :=
  ∃ a s', run exec p s = (.ok a, s') ∧ Q a s'

theorem ends_pure {Q : α → σ → Prop} {a : α} {s : σ} (h : Q a s) :
    Ends exec (pure a : Prog Op Res ε α) Q s := ⟨a, s, rfl, h⟩

theorem ends_call {op : Op} {k : Res op → Prog Op Res ε α} {Q : α → σ → Prop} {s s' : σ}
    {r : Res op} (hx : exec op s = (.ok r, s')) (h : Ends exec (k r) Q s') :
    Ends exec (.call op k) Q s := by
  obtain ⟨a, s'', hrun, hq⟩ := h
  exact ⟨a, s'', (run_call_ok hx).trans hrun, hq⟩

/-- Sequencing: the second part starts where the first one ends. -/
theorem Ends.bind {p : Prog Op Res ε α} {f : α → Prog Op Res ε β} {P : α → σ → Prop}
    {Q : β → σ → Prop} {s : σ} (hp : Ends exec p P s)
    (hf : ∀ a s', P a s' → Ends exec (f a) Q s') : Ends exec (p >>= f) Q s := by
  obtain ⟨a, s', hrun, hP⟩ := hp
  obtain ⟨b, s'', hrun', hQ⟩ := hf a s' hP
  exact ⟨b, s'', by rw [run_bind, hrun]; exact hrun', hQ⟩

/-- Sequencing before a part that throws. -/
theorem Ends.throws {p : Prog Op Res ε α} {f : α → Prog Op Res ε β} {P : α → σ → Prop} {s : σ}
    (hp : Ends exec p P s) (hf : ∀ a s', P a s' → ∃ e, (run exec (f a) s').1 = .error e) :
    ∃ e, (run exec (p >>= f) s).1 = .error e := by
  obtain ⟨a, s', hrun, hP⟩ := hp
  obtain ⟨e, he⟩ := hf a s' hP
  exact ⟨e, by rw [run_bind, hrun]; exact he⟩

theorem Ends.mono {p : Prog Op Res ε α} {P Q : α → σ → Prop} {s : σ} (hp : Ends exec p P s)
    (h : ∀ a s', P a s' → Q a s') : Ends exec p Q s := by
  obtain ⟨a, s', hrun, hP⟩ := hp
  exact ⟨a, s', hrun, h a s' hP⟩

/-! ## What some path of a program does -/

/-- Some path makes the call. -/
inductive Calls (op : Op) : Prog Op Res ε α → Prop
  | here (k : Res op → Prog Op Res ε α) : Calls op (.call op k)
  | later {op' : Op} {k : Res op' → Prog Op Res ε α} (r : Res op') (h : Calls op (k r)) :
    Calls op (.call op' k)

/-- Some path returns the value. -/
inductive Returns (a : α) : Prog Op Res ε α → Prop
  | pure : Returns a (.pure a)
  | call {op : Op} {k : Res op → Prog Op Res ε α} (r : Res op) (h : Returns a (k r)) :
    Returns a (.call op k)

theorem Returns.bind {p : Prog Op Res ε α} {f : α → Prog Op Res ε β} {a : α} {b : β}
    (hp : Returns a p) (hf : Returns b (f a)) : Returns b (p >>= f) := by
  induction hp with
  | pure => exact hf
  | call r _ ih => exact .call r ih

theorem Returns.calls {p : Prog Op Res ε α} {f : α → Prog Op Res ε β} {a : α} {op : Op}
    (hp : Returns a p) (hf : Calls op (f a)) : Calls op (p >>= f) := by
  induction hp with
  | pure => exact hf
  | call r _ ih => exact .later r ih

/-- The program throws nothing of its own and makes calls in `P` only. -/
def Only (P : Op → Prop) : Prog Op Res ε α → Prop
  | .pure _ => True
  | .throw _ => False
  | .call op k => P op ∧ ∀ r, Only P (k r)

theorem only_bind {P : Op → Prop} {p : Prog Op Res ε α} {f : α → Prog Op Res ε β}
    (hp : Only P p) (hf : ∀ a, Only P (f a)) : Only P (p >>= f) := by
  induction p with
  | pure a => exact hf a
  | throw e => exact absurd hp id
  | call op k ih => exact ⟨hp.1, fun r => ih r (hp.2 r)⟩

theorem only_call {P : Op → Prop} {op : Op} {f : Res op → Prog Op Res ε β} (hop : P op)
    (hf : ∀ r, Only P (f r)) : Only P (perform op >>= f) := ⟨hop, hf⟩

/-- What every such call does to the state, the program does. -/
theorem Only.ends {P : Op → Prop} {R : σ → σ → Prop} (hrefl : ∀ s, R s s)
    (htrans : ∀ s t u, R s t → R t u → R s u) {I : σ → Prop}
    (hstep : ∀ op s, P op → I s → ∃ r s', exec op s = (.ok r, s') ∧ R s s' ∧ I s')
    {p : Prog Op Res ε α} (hp : Only P p) {s : σ} (hs : I s) :
    Ends exec p (fun _ s' => R s s' ∧ I s') s := by
  induction p generalizing s with
  | pure a => exact ends_pure ⟨hrefl s, hs⟩
  | throw e => exact absurd hp id
  | call op k ih =>
    obtain ⟨r, s', hx, hr, hs'⟩ := hstep op s hp.1 hs
    refine ends_call hx ((ih r (hp.2 r) hs').mono ?_)
    intro a t ht
    exact ⟨htrans s s' t hr ht.1, ht.2⟩

/-! ## Implementing one signature by another -/

/-- Replace each operation by a program over a lower signature. -/
def interp (f : (op : Op) → Prog Op' Res' ε (Res op)) : Prog Op Res ε α → Prog Op' Res' ε α
  | .pure a => .pure a
  | .throw e => .throw e
  | .call op k => f op >>= fun r => interp f (k r)

end Prog

/-! ## Monitored programs -/

/-- A monitor remembers what a program did (`next`) and says which call it may
make then (`allows`). It has no effect on the program. -/
structure Monitor (Op : Type) (Res : Op → Type) (G : Type) where
  allows : G → Op → Prop
  next : G → (op : Op) → Res op → G

/-- Every path of the program makes only allowed calls, and every path that
returns ends with `done`. A path that throws owes nothing. -/
def Obeys (M : Monitor Op Res G) (done : G → α → Prop) : G → Prog Op Res ε α → Prop
  | g, .pure a => done g a
  | _, .throw _ => True
  | g, .call op k => M.allows g op ∧ ∀ r, Obeys M done (M.next g op r) (k r)

variable {M : Monitor Op Res G} {done : G → α → Prop}

@[simp] theorem obeys_pure (g : G) (a : α) :
    Obeys M done g (pure a : Prog Op Res ε α) ↔ done g a := Iff.rfl
@[simp] theorem obeys_throw (g : G) (e : ε) :
    Obeys M done g (.throw e : Prog Op Res ε α) ↔ True := Iff.rfl
@[simp] theorem obeys_call (g : G) (op : Op) (k : Res op → Prog Op Res ε α) :
    Obeys M done g (.call op k) ↔ M.allows g op ∧ ∀ r, Obeys M done (M.next g op r) (k r) :=
  Iff.rfl
theorem obeys_perform (op : Op) (done : G → Res op → Prop) (g : G) :
    Obeys M done g (Prog.perform op : Prog Op Res ε (Res op)) ↔
      M.allows g op ∧ ∀ r, done (M.next g op r) r := Iff.rfl

theorem obeys_perform_bind {done : G → β → Prop} {op : Op} {f : Res op → Prog Op Res ε β} {g : G} :
    Obeys M done g (Prog.perform op >>= f) ↔
      M.allows g op ∧ ∀ r, Obeys M done (M.next g op r) (f r) := Iff.rfl

/-- Sequencing: what the first part leaves is what the second part starts from. -/
theorem obeys_bind {done : G → β → Prop} (p : Prog Op Res ε α) (f : α → Prog Op Res ε β) (g : G) :
    Obeys M done g (p >>= f) ↔ Obeys M (fun g a => Obeys M done g (f a)) g p := by
  induction p generalizing g with
  | pure a => exact Iff.rfl
  | throw e => exact Iff.rfl
  | call op k ih =>
    rw [Prog.call_bind, obeys_call, obeys_call]
    exact and_congr_right fun _ => forall_congr' fun r => ih r _

/-- What a monitor keeps, it has kept when a path makes a call, and the call is allowed. -/
theorem Obeys.of_calls {I : G → Prop} (hI : ∀ g op r, I g → M.allows g op → I (M.next g op r))
    {p : Prog Op Res ε α} {op : Op} (hc : Prog.Calls op p) {g : G} (h : Obeys M done g p)
    (hg : I g) : ∃ g', I g' ∧ M.allows g' op := by
  induction hc generalizing g with
  | here k => exact ⟨g, hg, h.1⟩
  | later r _ ih => exact ih (h.2 r) (hI g _ r hg h.1)

theorem obeys_tryCatch {p : Prog Op Res ε α} {h : ε → Prog Op Res ε α} {g : G}
    (hp : Obeys M done g p) (hh : ∀ g e, Obeys M done g (h e)) :
    Obeys M done g (p.tryCatch h) := by
  induction p generalizing g with
  | pure a => exact hp
  | throw e => exact hh g e
  | call op k ih => exact ⟨hp.1, fun r => ih r (hp.2 r)⟩

theorem Obeys.mono {done' : G → α → Prop} (hd : ∀ g a, done g a → done' g a) {g : G}
    {p : Prog Op Res ε α} (h : Obeys M done g p) : Obeys M done' g p := by
  induction p generalizing g with
  | pure a => exact hd g a h
  | throw e => trivial
  | call op k ih => exact ⟨h.1, fun r => ih r (h.2 r)⟩

/-- A program alone that obeys its monitor keeps every relation between the monitor's
state and the shared state that allowed operations keep. A failed operation leaves
`E`. -/
theorem Obeys.run_inv (exec : (op : Op) → σ → Except ε (Res op) × σ) {I : G → σ → Prop}
    {E : σ → Prop}
    (hok : ∀ g op s r s', I g s → M.allows g op → exec op s = (.ok r, s') → I (M.next g op r) s')
    (herr : ∀ g op s x s', I g s → M.allows g op → exec op s = (.error x, s') → E s')
    (hthrow : ∀ g s, I g s → E s) {g : G} {s : σ} {p : Prog Op Res ε α} (h : Obeys M done g p)
    (hi : I g s) :
    match p.run exec s with
      | (.ok a, s') => ∃ g', done g' a ∧ I g' s'
      | (.error _, s') => E s' := by
  induction p generalizing g s with
  | pure a => exact ⟨g, h, hi⟩
  | throw e => exact hthrow g s hi
  | call op k ih =>
    cases hx : exec op s with
    | mk out s' =>
      cases out with
      | ok r =>
        rw [Prog.run_call_ok hx]
        exact ih r (h.2 r) (hok g op s r s' hi h.1 hx)
      | error x =>
        rw [Prog.run_call_error hx]
        exact herr g op s x s' hi h.1 hx

/-- Where no operation fails, what allowed ones keep holds at the end, also of a program that
throws. -/
theorem Obeys.run_kept (exec : (op : Op) → σ → Except ε (Res op) × σ) {I : G → σ → Prop}
    (hstep : ∀ g op s, I g s → M.allows g op →
      ∃ r, (exec op s).1 = .ok r ∧ I (M.next g op r) (exec op s).2) {g : G} {s : σ}
    {p : Prog Op Res ε α} (h : Obeys M done g p) (hi : I g s) :
    ∃ g', I g' (p.run exec s).2 := by
  induction p generalizing g s with
  | pure a => exact ⟨g, hi⟩
  | throw e => exact ⟨g, hi⟩
  | call op k ih =>
    obtain ⟨r, hr, hnext⟩ := hstep g op s hi h.1
    rw [Prog.run_call_ok (Prod.ext hr rfl)]
    exact ih r (h.2 r) hnext

/-- Two runs of one program agree in their result, and end in related states, if allowed
operations answer alike in related states and keep them related. -/
theorem Obeys.run_rel (exec : (op : Op) → σ → Except ε (Res op) × σ) {R : σ → σ → Prop}
    (hop : ∀ g op s t, R s t → M.allows g op →
      (exec op s).1 = (exec op t).1 ∧ R (exec op s).2 (exec op t).2) {g : G} {s t : σ}
    {p : Prog Op Res ε α} (h : Obeys M done g p) (hr : R s t) :
    (p.run exec s).1 = (p.run exec t).1 ∧ R (p.run exec s).2 (p.run exec t).2 := by
  induction p generalizing g s t with
  | pure a => exact ⟨rfl, hr⟩
  | throw e => exact ⟨rfl, hr⟩
  | call op k ih =>
    obtain ⟨hans, hrel⟩ := hop g op s t hr h.1
    rw [Prog.run_call, Prog.run_call]
    cases hs : exec op s with
    | mk out s' =>
      cases ht : exec op t with
      | mk out' t' =>
        rw [hs, ht] at hans hrel
        obtain rfl : out = out' := hans
        cases out with
        | ok r => exact ih r (h.2 r) hrel
        | error e => exact ⟨rfl, hrel⟩

/-- Lowering: if the program of each allowed call obeys the lower monitor and ends
where the upper monitor goes, the lowered program obeys it throughout. -/
theorem Obeys.interp {M' : Monitor Op' Res' G} {f : (op : Op) → Prog Op' Res' ε (Res op)}
    (hf : ∀ g op, M.allows g op → Obeys M' (fun g' r => g' = M.next g op r) g (f op)) {g : G}
    {p : Prog Op Res ε α} (h : Obeys M done g p) : Obeys M' done g (p.interp f) := by
  induction p generalizing g with
  | pure a => exact h
  | throw e => trivial
  | call op k ih =>
    rw [Prog.interp, obeys_bind]
    refine (hf g op h.1).mono ?_
    rintro g' r rfl
    exact ih r (h.2 r)

/-! ## Programs within a set of calls -/

/-- The program makes calls in `P` only, whatever it throws. -/
def Within (P : Op → Prop) (p : Prog Op Res ε α) : Prop :=
  Obeys (⟨fun _ op => P op, fun g _ _ => g⟩ : Monitor Op Res Unit) (fun _ _ => True) () p

variable {P : Op → Prop}

theorem within_pure (a : α) : Within P (pure a : Prog Op Res ε α) := trivial

theorem within_throw (e : ε) : Within P (.throw e : Prog Op Res ε α) := trivial

theorem within_perform {op : Op} (h : P op) :
    Within P (Prog.perform op : Prog Op Res ε (Res op)) := ⟨h, fun _ => trivial⟩

theorem within_bind {p : Prog Op Res ε α} {f : α → Prog Op Res ε β} (hp : Within P p)
    (hf : ∀ a, Within P (f a)) : Within P (p >>= f) := by
  refine (obeys_bind p f ()).mpr (Obeys.mono ?_ hp)
  intro _ a _
  exact hf a

theorem Within.of_calls {p : Prog Op Res ε α} (h : Within P p) {op : Op} (hc : Prog.Calls op p) :
    P op := by
  obtain ⟨_, -, hop⟩ := Obeys.of_calls (I := fun _ => True) (fun _ _ _ _ _ => trivial) hc h trivial
  exact hop

/-- What the calls in `P` keep, the program keeps, however it ends. -/
theorem Within.run_keeps {exec : (op : Op) → σ → Except ε (Res op) × σ} {I : σ → Prop}
    {p : Prog Op Res ε α} (h : Within P p) (hop : ∀ op s, P op → I s → I (exec op s).2) {s : σ}
    (hs : I s) : I (p.run exec s).2 := by
  have hrun := h.run_inv exec (I := fun _ s => I s) (E := I)
    (fun _ op s r s' hi hallowed hx => by
      have hnext := hop op s hallowed hi
      rwa [hx] at hnext)
    (fun _ op s e s' hi hallowed hx => by
      have hnext := hop op s hallowed hi
      rwa [hx] at hnext)
    (fun _ _ hi => hi) hs
  cases hout : p.run exec s with
  | mk out s' =>
    rw [hout] at hrun
    cases out with
    | ok a =>
      obtain ⟨_, -, hi⟩ := hrun
      exact hi
    | error e => exact hrun

/-! ## Programs blind to a part of the answers -/

/-- The program makes calls in `P` only and goes on alike on answers that `Rel` relates. -/
def Blind (P : Op → Prop) (Rel : (op : Op) → Res op → Res op → Prop) : Prog Op Res ε α → Prop
  | .pure _ => True
  | .throw _ => True
  | .call op k => P op ∧ ∀ r r', Rel op r r' → k r = k r' ∧ Blind P Rel (k r)

variable {Rel : (op : Op) → Res op → Res op → Prop}

theorem Blind.bind {p : Prog Op Res ε α} {f : α → Prog Op Res ε β} (hp : Blind P Rel p)
    (hf : ∀ a, Blind P Rel (f a)) : Blind P Rel (p >>= f) := by
  induction p with
  | pure a => exact hf a
  | throw e => trivial
  | call op k ih =>
    refine ⟨hp.1, ?_⟩
    intro r r' hr
    obtain ⟨heq, hk⟩ := hp.2 r r' hr
    exact ⟨congrArg (fun q => q >>= f) heq, ih r hk⟩

theorem Blind.tryCatch {p : Prog Op Res ε α} {h : ε → Prog Op Res ε α} (hp : Blind P Rel p)
    (hh : ∀ e, Blind P Rel (h e)) : Blind P Rel (p.tryCatch h) := by
  induction p with
  | pure a => trivial
  | throw e => exact hh e
  | call op k ih =>
    refine ⟨hp.1, ?_⟩
    intro r r' hr
    obtain ⟨heq, hk⟩ := hp.2 r r' hr
    exact ⟨congrArg (fun q => q.tryCatch h) heq, ih r hk⟩

/-- Two runs of a blind program from related states agree in their result, and end in related
states. -/
theorem Blind.run (exec : (op : Op) → σ → Except ε (Res op) × σ) {R : σ → σ → Prop}
    (hx : ∀ op s t, P op → R s t → ∃ r r' s' t', exec op s = (.ok r, s') ∧
      exec op t = (.ok r', t') ∧ Rel op r r' ∧ R s' t') {p : Prog Op Res ε α}
    (hp : Blind P Rel p) {s t : σ} (hr : R s t) :
    (p.run exec s).1 = (p.run exec t).1 ∧ R (p.run exec s).2 (p.run exec t).2 := by
  induction p generalizing s t with
  | pure a => exact ⟨rfl, hr⟩
  | throw e => exact ⟨rfl, hr⟩
  | call op k ih =>
    obtain ⟨r, r', s', t', hs, ht, hrel, hst⟩ := hx op s t hp.1 hr
    obtain ⟨heq, hk⟩ := hp.2 r r' hrel
    rw [Prog.run_call_ok hs, Prog.run_call_ok ht, ← heq]
    exact ih r hk hst

/-! ## Two programs side by side -/

/-- Two programs, each from its own state, return alike and end in states that `Q` relates. -/
def Alongside (exec : (op : Op) → σ → Except ε (Res op) × σ) (Q : σ → σ → Prop)
    (p q : Prog Op Res ε α) (s t : σ) : Prop :=
  (p.run exec s).1 = (q.run exec t).1 ∧ Q (p.run exec s).2 (q.run exec t).2

section Alongside
variable {exec : (op : Op) → σ → Except ε (Res op) × σ} {Q R : σ → σ → Prop} {s t : σ}

theorem alongside_pure (a : α) (h : Q s t) :
    Alongside exec Q (pure a) (pure a : Prog Op Res ε α) s t :=
  ⟨rfl, h⟩

/-- Both go one call on. -/
theorem alongside_call {op op' : Op} {k : Res op → Prog Op Res ε α} {k' : Res op' → Prog Op Res ε α}
    {s' t' : σ} {r : Res op} {r' : Res op'} (hs : exec op s = (.ok r, s'))
    (ht : exec op' t = (.ok r', t')) (h : Alongside exec Q (k r) (k' r') s' t') :
    Alongside exec Q (.call op k) (.call op' k') s t := by
  unfold Alongside
  rw [Prog.run_call_ok hs, Prog.run_call_ok ht]
  exact h

/-- The second one goes a call on alone. -/
theorem alongside_call_right {p : Prog Op Res ε α} {op : Op} {k : Res op → Prog Op Res ε α}
    {t' : σ} {r : Res op} (ht : exec op t = (.ok r, t')) (h : Alongside exec Q p (k r) s t') :
    Alongside exec Q p (.call op k) s t := by
  unfold Alongside
  rw [Prog.run_call_ok ht]
  exact h

/-- Sequencing: the second parts start where the first ones end. -/
theorem Alongside.bind {p q : Prog Op Res ε α} {f g : α → Prog Op Res ε β}
    (hp : Alongside exec R p q s t) (hR : ∀ s t, R s t → Q s t)
    (hf : ∀ a s' t', R s' t' → Alongside exec Q (f a) (g a) s' t') :
    Alongside exec Q (p >>= f) (q >>= g) s t := by
  obtain ⟨hout, hstate⟩ := hp
  unfold Alongside
  rw [Prog.run_bind, Prog.run_bind]
  cases hs : p.run exec s with
  | mk out s' =>
    cases ht : q.run exec t with
    | mk out' t' =>
      rw [hs, ht] at hout hstate
      obtain rfl : out = out' := hout
      cases out with
      | ok a => exact hf a s' t' hstate
      | error e => exact ⟨rfl, hR s' t' hstate⟩

/-- One program, where operations answer alike in related states and keep them related. -/
theorem alongside_self (hop : ∀ op s t, R s t →
      (exec op s).1 = (exec op t).1 ∧ R (exec op s).2 (exec op t).2)
    (p : Prog Op Res ε α) (h : R s t) : Alongside exec R p p s t := by
  induction p generalizing s t with
  | pure a => exact ⟨rfl, h⟩
  | throw e => exact ⟨rfl, h⟩
  | call op k ih =>
    obtain ⟨hans, hrel⟩ := hop op s t h
    unfold Alongside
    rw [Prog.run_call, Prog.run_call]
    cases hs : exec op s with
    | mk out s' =>
      cases ht : exec op t with
      | mk out' t' =>
        rw [hs, ht] at hans hrel
        obtain rfl : out = out' := hans
        cases out with
        | ok r => exact ih r hrel
        | error e => exact ⟨rfl, hrel⟩

end Alongside

end Anyhook.Lib.Program
