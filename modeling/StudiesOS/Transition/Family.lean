import Mathlib.Algebra.BigOperators.Group.Finset.Basic
import Mathlib.Algebra.Order.BigOperators.Group.Finset
import Mathlib.Data.Fintype.Basic
import Mathlib.Tactic.Common

/-! # Sums over a family of components
A concurrent state holds one component per thread, `f : ι → β`. Counting the threads in a phase, or
adding up what each of them still owes, is a sum `∑ i, w i (f i)`. A step replaces the component of
one thread; `sum_update_add` is the bookkeeping of that, in any commutative monoid, and
`of_update_of_not` what a statement about one component needs. -/

namespace StudiesOS

open Finset

universe u v w

variable {ι : Type u} [Fintype ι] [DecidableEq ι] {β : Type v} {M : Type w}

omit [Fintype ι] in
/-- What is said of a component after a replacement, and is not true of the new one, was true of it
before. -/
theorem of_update_of_not {P : β → Prop} {f : ι → β} {i j : ι} {b : β}
    (h : P (Function.update f i b j)) (hb : ¬ P b) : P (f j) ∧ j ≠ i := by
  by_cases hj : j = i
  · rw [hj, Function.update_self] at h
    exact absurd h hb
  · rw [Function.update_of_ne hj] at h
    exact ⟨h, hj⟩

/-- **Replacing one component** changes the sum by the difference of its two weights. -/
theorem sum_update_add [AddCommMonoid M] (w : ι → β → M) (f : ι → β) (i : ι) (b : β) :
    ∑ j, w j (Function.update f i b j) + w i (f i) = ∑ j, w j (f j) + w i b := by
  have hrest : ∑ j ∈ univ.erase i, w j (Function.update f i b j)
      = ∑ j ∈ univ.erase i, w j (f j) := by
    refine sum_congr rfl fun j hj => ?_
    rw [Function.update_of_ne (ne_of_mem_erase hj)]
  rw [← add_sum_erase _ (fun j => w j (Function.update f i b j)) (mem_univ i),
    ← add_sum_erase _ (fun j => w j (f j)) (mem_univ i), hrest, Function.update_self]
  rw [add_right_comm, add_comm (w i b), add_right_comm, add_right_comm (w i (f i)), add_comm (w i (f i))]

/-- Replacing a component by one of the same weight leaves the sum alone. -/
theorem sum_update_eq [AddCommMonoid M] (w : ι → β → M) (f : ι → β) (i : ι) (b : β)
    (h : w i b = w i (f i)) : ∑ j, w j (Function.update f i b j) = ∑ j, w j (f j) := by
  refine sum_congr rfl fun j _ => ?_
  by_cases hj : j = i
  · rw [hj, Function.update_self, h]
  · rw [Function.update_of_ne hj]

end StudiesOS
