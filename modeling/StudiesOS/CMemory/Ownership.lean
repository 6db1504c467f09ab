import StudiesOS.CMemory.Links
import StudiesOS.Transition.Family
import Mathlib.Data.Multiset.AddSub

/-! # Ownership of blocks
A heap maps the addresses of allocated blocks to their contents. `Owned h m` says that the addresses
`m` are those of the allocated blocks, each listed once: when `m` is put together from what the parts
of a program own, no block has two owners, and none has been forgotten. `malloc` adds to what is owned,
`free` takes away, and a store changes nothing. -/

namespace StudiesOS

universe u v

variable {α : Type u} {β : Type v} {h : α → Option β} {m : Multiset α} {a b : α}

/-- **What is allocated**, each address once. -/
structure Owned (h : α → Option β) (m : Multiset α) : Prop where
  /-- No block has two owners. -/
  nodup : m.Nodup
  /-- No block is without one. -/
  allocated : ∀ a, h a ≠ none ↔ a ∈ m

namespace Owned

/-- At the start nothing is allocated. -/
theorem empty : Owned (fun _ => none : α → Option β) 0 :=
  ⟨Multiset.nodup_zero, fun a => by simp⟩

/-- When nothing is owned nothing is allocated. -/
theorem eq_none (ho : Owned h 0) (a : α) : h a = none := by
  by_contra ha
  exact Multiset.notMem_zero a ((ho.allocated a).mp ha)

/-- What is owned is there. -/
theorem ne_none (ho : Owned h m) (ha : a ∈ m) : h a ≠ none := (ho.allocated a).mpr ha

/-- What is not allocated is not owned. -/
theorem not_mem (ho : Owned h m) (ha : h a = none) : a ∉ m :=
  fun hmem => ho.ne_none hmem ha

/-- Two parts own different blocks. -/
theorem ne_of_mem {m' : Multiset α} (ho : Owned h (m + m')) (ha : a ∈ m) (hb : b ∈ m') : a ≠ b := by
  rintro rfl
  exact Multiset.disjoint_left.mp (Multiset.nodup_add.mp ho.nodup).2.2 ha hb

variable [DecidableEq α]

/-- **`malloc`** gives a block to an owner. -/
theorem alloc (ho : Owned h m) (ha : h a = none) (x : β) :
    Owned (Function.update h a (some x)) (a ::ₘ m) := by
  refine ⟨Multiset.nodup_cons.mpr ⟨ho.not_mem ha, ho.nodup⟩, fun b => ?_⟩
  rw [Multiset.mem_cons, Function.update_apply]
  split_ifs with hb
  · simp [hb]
  · simp [hb, ho.allocated b]

/-- **A store** leaves the blocks with their owners. -/
theorem store (ho : Owned h m) (ha : a ∈ m) (x : β) : Owned (Function.update h a (some x)) m := by
  refine ⟨ho.nodup, fun b => ?_⟩
  rw [Function.update_apply]
  split_ifs with hb
  · simp [hb, ha]
  · exact ho.allocated b

/-- **`free`** takes the block away from its owner. -/
theorem free (ho : Owned h (a ::ₘ m)) : Owned (Function.update h a none) m := by
  obtain ⟨hnot, hnodup⟩ := Multiset.nodup_cons.mp ho.nodup
  refine ⟨hnodup, fun b => ?_⟩
  rw [Function.update_apply]
  split_ifs with hb
  · simpa [hb] using hnot
  · rw [ho.allocated b, Multiset.mem_cons]
    simp [hb]

end Owned

/-! ## A cell at the end of a chain -/

/-- **A new cell is linked behind the last one.** -/
theorem Chain.link [DecidableEq α] {h : α → Option (Cell α β)} {p : Option α} {l : List (α × β)} {x y : β}
    (hl : Chain h p (l ++ [(a, x)]) none) (hb : h b = none) :
    Chain (Function.update (Function.update h b (some ⟨y, none⟩)) a (some ⟨x, some b⟩)) p
      (l ++ [(a, x)] ++ [(b, y)]) none := by
  have hne : a ≠ b := by
    rintro rfl
    exact hl.allocated (by simp) hb
  have hfresh : ∀ c ∈ l.map Prod.fst, c ≠ a ∧ c ≠ b := by
    intro c hc
    have hnodup := hl.nodup
    rw [List.map_append, List.nodup_append] at hnodup
    refine ⟨hnodup.2.2 c hc a List.mem_cons_self, ?_⟩
    rintro rfl
    exact hl.allocated (by simp [hc]) hb
  obtain ⟨r, hfront, hlast⟩ := chain_append.mp hl
  obtain ⟨rfl, -⟩ := chain_singleton.mp hlast
  refine chain_append.mpr ⟨some b, chain_append.mpr ⟨some a, ?_, ?_⟩, ?_⟩
  · refine hfront.congr fun c hc => ?_
    obtain ⟨hca, hcb⟩ := hfresh c hc
    rw [Function.update_of_ne hca, Function.update_of_ne hcb]
  · exact chain_singleton.mpr ⟨rfl, Function.update_self _ _ _⟩
  · refine chain_singleton.mpr ⟨rfl, ?_⟩
    rw [Function.update_of_ne hne.symm, Function.update_self]

end StudiesOS
