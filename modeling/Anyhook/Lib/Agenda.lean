import Mathlib.Algebra.BigOperators.Group.List.Basic
import Mathlib.Algebra.Order.Ring.Nat
import Mathlib.Data.List.MinMax
import Mathlib.Data.List.Perm.Basic
import Mathlib.Tactic.Linarith
import Mathlib.Tactic.Ring

/-! A diary of jobs that are ready or wait for a time, and a clock that jumps to the earliest of
these times. A job that is served is done, waits for another try, or is turned away at one of two
gates until a time at which that gate will let it pass. `load` is a potential that goes down
with every service, although a service may shut either gate for all other jobs. -/
namespace Anyhook.Lib.Agenda

variable {K J : Type}

structure Diary (K J : Type) where
  clock : K
  ready : List J
  waiting : List (K × J)

section Clock
variable [LinearOrder K]

/-- Every job, with the time from which it can be served. -/
def Diary.live (a : Diary K J) : List (K × J) :=
  a.ready.map (fun j => (a.clock, j)) ++ a.waiting.map fun p => (max a.clock p.1, p.2)

/-- The earliest time a job waits for. -/
def nextDue (waiting : List (K × J)) : Option K := (waiting.map Prod.fst).min?

/-- The clock does not go back. -/
def setClock (clock : K) : Option K → K
  | some next => max clock next
  | none => clock

/-- Jump to the next due time and release what is due by then. -/
def Diary.jump (a : Diary K J) : Diary K J where
  clock := setClock a.clock (nextDue a.waiting)
  ready := a.ready ++
    (a.waiting.filter fun p => p.1 ≤ setClock a.clock (nextDue a.waiting)).map Prod.snd
  waiting := a.waiting.filter fun p => setClock a.clock (nextDue a.waiting) < p.1

theorem nextDue_le {waiting : List (K × J)} {next : K} (h : nextDue waiting = some next)
    {p : K × J} (hp : p ∈ waiting) : next ≤ p.1 :=
  (List.min?_eq_some_iff.mp h).2 p.1 (List.mem_map_of_mem hp)

theorem nextDue_mem {waiting : List (K × J)} {next : K} (h : nextDue waiting = some next) :
    ∃ p ∈ waiting, p.1 = next :=
  List.mem_map.mp (List.min?_eq_some_iff.mp h).1

theorem nextDue_isSome {waiting : List (K × J)} (h : waiting ≠ []) :
    ∃ next, nextDue waiting = some next := by
  cases hnext : nextDue waiting with
  | some next => exact ⟨next, rfl⟩
  | none =>
    refine absurd ?_ h
    simpa [nextDue] using hnext

theorem le_setClock (clock : K) (next : Option K) : clock ≤ setClock clock next := by
  cases next with
  | none => exact le_rfl
  | some next => exact le_max_left clock next

theorem Diary.clock_le {a : Diary K J} {p : K × J} (hp : p ∈ a.live) : a.clock ≤ p.1 := by
  rcases List.mem_append.mp hp with hready | hwaiting
  · obtain ⟨j, -, rfl⟩ := List.mem_map.mp hready
    exact le_rfl
  · obtain ⟨q, -, rfl⟩ := List.mem_map.mp hwaiting
    exact le_max_left _ _

/-- A jump that finds nothing ready serves nobody earlier or later. -/
theorem Diary.jump_live {a : Diary K J} (hready : a.ready = []) : a.jump.live.Perm a.live := by
  cases hnext : nextDue a.waiting with
  | none =>
    have hnil : a.waiting = [] := by simpa [nextDue] using hnext
    simp [Diary.live, Diary.jump, hready, hnil, setClock]
  | some next =>
    have hjump : setClock a.clock (nextDue a.waiting) = max a.clock next := by
      rw [hnext]
      rfl
    -- A released job wakes at the new clock, a waiting one where it did.
    have hreleased : ∀ p ∈ a.waiting.filter fun p => p.1 ≤ max a.clock next,
        (max a.clock next, p.2) = (max a.clock p.1, p.2) := by
      intro p hp
      obtain ⟨hmem, hle⟩ := List.mem_filter.mp hp
      have hnp := nextDue_le hnext hmem
      refine congrArg (·, p.2) (le_antisymm (max_le_max le_rfl hnp) ?_)
      exact max_le (le_max_left _ _) (of_decide_eq_true hle)
    have hleft : ∀ p ∈ a.waiting.filter fun p => max a.clock next < p.1,
        (max (max a.clock next) p.1, p.2) = (max a.clock p.1, p.2) := by
      intro p hp
      have hlt := of_decide_eq_true (List.mem_filter.mp hp).2
      rw [max_eq_right hlt.le, max_eq_right ((le_max_left _ _).trans hlt.le)]
    have hsplit : (a.waiting.filter (fun p => p.1 ≤ max a.clock next) ++
        a.waiting.filter fun p => max a.clock next < p.1).Perm a.waiting := by
      have hnot : (fun p : K × J => decide (max a.clock next < p.1)) =
          fun p => !decide (p.1 ≤ max a.clock next) := by
        funext p
        rw [← decide_not, decide_eq_decide]
        exact not_le.symm
      rw [hnot]
      exact List.filter_append_perm _ a.waiting
    unfold Diary.live Diary.jump
    rw [hjump, hready, List.nil_append, List.map_nil, List.nil_append, List.map_map]
    have hboth := hsplit.map fun p : K × J => (max a.clock p.1, p.2)
    rw [List.map_append] at hboth
    refine List.Perm.trans ?_ hboth
    rw [← List.map_congr_left hreleased, ← List.map_congr_left hleft]
    exact List.Perm.refl _

/-- A jump makes some waiting job ready. -/
theorem Diary.jump_ready {a : Diary K J} (h : a.waiting ≠ []) : a.jump.ready ≠ [] := by
  obtain ⟨next, hnext⟩ := nextDue_isSome h
  obtain ⟨p, hp, rfl⟩ := nextDue_mem hnext
  have hdue : p.2 ∈ a.jump.ready := by
    refine List.mem_append_right _ (List.mem_map_of_mem (List.mem_filter.mpr ⟨hp, ?_⟩))
    rw [hnext]
    exact decide_eq_true (le_max_right a.clock p.1)
  exact List.ne_nil_of_mem hdue

end Clock

/-! ## The load -/

/-- All tries the jobs have left. -/
def tries (left : J → Nat) (live : List (K × J)) : Nat := (live.map fun p => left p.2).sum

/-- Tries weigh most, then jobs behind the first gate, then jobs behind the second. `n`
bounds the number of jobs. -/
def load (n : Nat) (left : J → Nat) (first second : K × J → Bool) (live : List (K × J)) : Nat :=
  tries left live * (n + 1) ^ 2 + live.countP first * (n + 1) + live.countP second

section Load
variable {n : Nat} {left : J → Nat} {first second first' second' : K × J → Bool}
  {live live' : List (K × J)}

theorem tries_perm (h : live.Perm live') : tries left live = tries left live' :=
  (h.map fun p : K × J => left p.2).sum_eq

theorem tries_cons (p : K × J) : tries left (p :: live) = left p.2 + tries left live := rfl

theorem tries_concat (p : K × J) : tries left (live ++ [p]) = tries left live + left p.2 := by
  simp [tries]

theorem load_perm (h : live.Perm live') :
    load n left first second live = load n left first second live' := by
  unfold load
  rw [tries_perm h, h.countP_eq, h.countP_eq]

theorem load_lt (hn : live.length ≤ n) :
    load n left first second live < (tries left live + 1) * (n + 1) ^ 2 := by
  have hfirst : live.countP first ≤ n := List.countP_le_length.trans hn
  have hsecond : live.countP second ≤ n := List.countP_le_length.trans hn
  have hmul : live.countP first * (n + 1) ≤ n * (n + 1) := Nat.mul_le_mul_right _ hfirst
  unfold load
  nlinarith

/-- A try used up pays for both gates. -/
theorem load_lt_of_tries (hn : live'.length ≤ n) (h : tries left live' < tries left live) :
    load n left first' second' live' < load n left first second live := by
  have hbound : load n left first' second' live' < (tries left live' + 1) * (n + 1) ^ 2 :=
    load_lt hn
  have hmul : (tries left live' + 1) * (n + 1) ^ 2 ≤ tries left live * (n + 1) ^ 2 :=
    Nat.mul_le_mul_right _ h
  unfold load at hbound ⊢
  omega

/-- A job past the first gate pays for the second. -/
theorem load_lt_of_first (hn : live'.length ≤ n) (htries : tries left live' ≤ tries left live)
    (h : live'.countP first' < live.countP first) :
    load n left first' second' live' < load n left first second live := by
  have hsecond : live'.countP second' ≤ n := List.countP_le_length.trans hn
  have htry : tries left live' * (n + 1) ^ 2 ≤ tries left live * (n + 1) ^ 2 :=
    Nat.mul_le_mul_right _ htries
  have hmul : (live'.countP first' + 1) * (n + 1) ≤ live.countP first * (n + 1) :=
    Nat.mul_le_mul_right _ h
  rw [Nat.add_mul, Nat.one_mul] at hmul
  unfold load
  omega

theorem load_lt_of_second (htries : tries left live' ≤ tries left live)
    (hfirst : live'.countP first' ≤ live.countP first)
    (h : live'.countP second' < live.countP second) :
    load n left first' second' live' < load n left first second live := by
  have htry : tries left live' * (n + 1) ^ 2 ≤ tries left live * (n + 1) ^ 2 :=
    Nat.mul_le_mul_right _ htries
  have hmul : live'.countP first' * (n + 1) ≤ live.countP first * (n + 1) :=
    Nat.mul_le_mul_right _ hfirst
  unfold load
  omega

end Load

end Anyhook.Lib.Agenda
