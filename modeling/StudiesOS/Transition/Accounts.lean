import StudiesOS.Transition.Family
import Mathlib.Data.Multiset.AddSub

/-! # Accounts
A table has places; each is in some state, and bears an identifier unless it is idle. The places move
from state to state, and a book records every move under the identifier of the place. Then for every
state but the idle one, who has come to it is who is there, and who has left it (`Balanced`). -/

namespace StudiesOS

open Finset

universe u v w x

variable {ι : Type u} {S : Type v} {N : Type w} {E : Type x}

/-! ## Books -/

/-- The identifiers under which the moves of some kinds are recorded, in order. -/
def booked (kind : E → Prop) [DecidablePred kind] (book : List (E × N)) : List N :=
  (book.filter fun m => kind m.1).map Prod.snd

variable {kind kind' : E → Prop} [DecidablePred kind] [DecidablePred kind'] {book : List (E × N)}

/-- Another move. -/
theorem booked_snoc (e : E) (n : N) :
    booked kind (book ++ [(e, n)]) = booked kind book ++ if kind e then [n] else [] := by
  unfold booked
  rw [List.filter_append, List.map_append]
  split_ifs with he <;> simp [he]

/-- Only the kinds matter. -/
theorem booked_congr (h : ∀ e, kind e ↔ kind' e) : booked kind book = booked kind' book := by
  unfold booked
  simp only [h]

/-- The moves of two kinds, none of which is of both. -/
theorem booked_or (h : ∀ e, kind e → ¬ kind' e) :
    (booked (fun e => kind e ∨ kind' e) book : Multiset N) = booked kind book + booked kind' book := by
  induction book using List.reverseRecOn with
  | nil => rfl
  | append_singleton book m ih =>
      obtain ⟨e, n⟩ := m
      rw [booked_snoc, booked_snoc, booked_snoc, ← Multiset.coe_add, ← Multiset.coe_add,
        ← Multiset.coe_add, ih]
      by_cases he : kind e
      · rw [if_pos (Or.inl he), if_pos he, if_neg (h e he), Multiset.coe_nil, add_zero, add_right_comm]
      · by_cases he' : kind' e
        · rw [if_pos (Or.inr he'), if_neg he, if_pos he', Multiset.coe_nil, add_zero, add_assoc]
        · rw [if_neg (not_or.mpr ⟨he, he'⟩), if_neg he, if_neg he', Multiset.coe_nil, add_zero, add_zero,
            add_zero]

/-! ## Tables -/

variable [Fintype ι] [DecidableEq S] {table table' : ι → S × N}

/-- **The identifiers of the places in the state** `s`. -/
def holders (table : ι → S × N) (s : S) : Multiset N :=
  ∑ i, if (table i).1 = s then {(table i).2} else 0

/-- Nobody is in a state. -/
theorem holders_eq_zero {s : S} (h : ∀ i, (table i).1 ≠ s) : holders table s = 0 :=
  Finset.sum_eq_zero fun i _ => if_neg (h i)

variable {src tgt : E → S} {idle : S}

/-- **A place makes the move** `e`, under the identifier `n`. -/
structure Moves [DecidableEq ι] (src tgt : E → S) (idle : S) (table : ι → S × N) (e : E) (n : N)
    (table' : ι → S × N) (i : ι) : Prop where
  /-- The state left. -/
  source : (table i).1 = src e
  /-- The state entered. -/
  target : (table' i).1 = tgt e
  /-- The identifier borne before. -/
  old : src e ≠ idle → (table i).2 = n
  /-- The identifier borne then. -/
  new : tgt e ≠ idle → (table' i).2 = n
  /-- The other places stay as they are. -/
  others : table' = Function.update table i (table' i)

/-- **What a move does to the holders** of a state. -/
theorem Moves.holders_add [DecidableEq ι] {e : E} {n : N} {i : ι}
    (h : Moves src tgt idle table e n table' i) {s : S}
    (hs : s ≠ idle) : holders table' s + (if src e = s then {n} else 0)
      = holders table s + if tgt e = s then {n} else 0 := by
  have hsum := sum_update_add (fun (_ : ι) (x : S × N) => if x.1 = s then ({x.2} : Multiset N) else 0)
    table i (table' i)
  rw [← h.others, h.source, h.target] at hsum
  have hold : (if src e = s then ({(table i).2} : Multiset N) else 0)
      = if src e = s then {n} else 0 := by
    split_ifs with he
    · rw [h.old (he ▸ hs)]
    · rfl
  have hnew : (if tgt e = s then ({(table' i).2} : Multiset N) else 0)
      = if tgt e = s then {n} else 0 := by
    split_ifs with he
    · rw [h.new (he ▸ hs)]
    · rfl
  rw [hold, hnew] at hsum
  exact hsum

/-- **The book balances**: for every state but the idle one, who has come to it is there or has left
it. -/
def Balanced (src tgt : E → S) (idle : S) (table : ι → S × N) (book : List (E × N)) : Prop :=
  ∀ s, s ≠ idle → (booked (fun e => tgt e = s) book : Multiset N)
    = holders table s + booked (fun e => src e = s) book

/-- At the start all places are idle. -/
theorem Balanced.start (h : ∀ i, (table i).1 = idle) : Balanced src tgt idle table [] := by
  intro s hs
  have hnobody : holders table s = 0 := holders_eq_zero fun i hi => hs (hi.symm.trans (h i))
  rw [hnobody]
  rfl

/-- **A move keeps the balance**, when it is recorded. -/
theorem Balanced.move [DecidableEq ι] (h : Balanced src tgt idle table book) {e : E} {n : N} {i : ι}
    (hmove : Moves src tgt idle table e n table' i) :
    Balanced src tgt idle table' (book ++ [(e, n)]) := by
  intro s hs
  have hcoe : ∀ (p : Prop) [Decidable p], ((if p then [n] else [] : List N) : Multiset N)
      = if p then {n} else 0 := by
    intro p _
    split_ifs <;> rfl
  rw [booked_snoc, booked_snoc, ← Multiset.coe_add, ← Multiset.coe_add, hcoe, hcoe]
  calc (booked (fun e => tgt e = s) book : Multiset N) + (if tgt e = s then {n} else 0)
      = booked (fun e => src e = s) book + (holders table s + if tgt e = s then {n} else 0) := by
        rw [h s hs, add_comm (holders table s), add_assoc]
    _ = booked (fun e => src e = s) book + (holders table' s + if src e = s then {n} else 0) := by
        rw [hmove.holders_add hs]
    _ = holders table' s + (booked (fun e => src e = s) book + if src e = s then {n} else 0) := by
        rw [add_left_comm]

end StudiesOS
