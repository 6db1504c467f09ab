import Mathlib.Data.List.Nodup
import Mathlib.Logic.Function.Basic
import Mathlib.Tactic.Common

/-! # Linked lists in a heap
A heap holds cells with a value and a pointer to the next cell; `none` is the null pointer, and an
address without a cell is not allocated. `Chain h p l q` says that following the pointers from `p` goes
through the cells `l` and then stands at `q`. A chain that ends at null goes through no cell twice, and
through every cell that can be reached. -/

namespace StudiesOS

universe u v

/-- A cell of a linked list. -/
structure Cell (α : Type u) (β : Type v) where
  /-- The value. -/
  value : β
  /-- The pointer to the next cell. -/
  next : Option α
deriving DecidableEq, Repr

variable {α : Type u} {β : Type v} {h h' : α → Option (Cell α β)} {p q r : Option α} {a b : α} {x : β}
  {l l' : List (α × β)}

/-- **Following the pointers** from `p` through the cells `l`, to `q`. -/
def Chain (h : α → Option (Cell α β)) : Option α → List (α × β) → Option α → Prop
  | p, [], q => p = q
  | p, (a, x) :: l, q => p = some a ∧ ∃ r, h a = some ⟨x, r⟩ ∧ Chain h r l q

/-- **An address that can be reached** from a pointer. -/
inductive Reach (h : α → Option (Cell α β)) : Option α → α → Prop
  /-- What it points to. -/
  | here (a : α) : Reach h (some a) a
  /-- What the cell there leads to. -/
  | next {a b : α} {c : Cell α β} (hc : h a = some c) (hb : Reach h c.next b) : Reach h (some a) b

@[simp] theorem chain_nil : Chain h p [] q ↔ p = q := Iff.rfl

theorem chain_cons : Chain h p ((a, x) :: l) q ↔
    p = some a ∧ ∃ r, h a = some ⟨x, r⟩ ∧ Chain h r l q := Iff.rfl

/-- **Two chains in a row.** -/
theorem chain_append : Chain h p (l ++ l') q ↔ ∃ r, Chain h p l r ∧ Chain h r l' q := by
  induction l generalizing p with
  | nil => simp
  | cons c l ih =>
      obtain ⟨a, x⟩ := c
      simp only [List.cons_append, chain_cons, ih]
      constructor
      · rintro ⟨hp, s, hs, r, hl, hl'⟩
        exact ⟨r, ⟨hp, s, hs, hl⟩, hl'⟩
      · rintro ⟨r, ⟨hp, s, hs, hl⟩, hl'⟩
        exact ⟨hp, s, hs, r, hl, hl'⟩

/-- A chain of one cell. -/
theorem chain_singleton : Chain h p [(a, x)] q ↔ p = some a ∧ h a = some ⟨x, q⟩ := by
  simp only [chain_cons, chain_nil]
  constructor
  · rintro ⟨hp, r, hr, rfl⟩
    exact ⟨hp, hr⟩
  · rintro ⟨hp, hq⟩
    exact ⟨hp, q, hq, rfl⟩

/-- A chain goes through cells that are allocated. -/
theorem Chain.allocated (hl : Chain h p l q) (ha : a ∈ l.map Prod.fst) : h a ≠ none := by
  induction l generalizing p with
  | nil => exact absurd ha List.not_mem_nil
  | cons c l ih =>
      obtain ⟨b, x⟩ := c
      obtain ⟨-, r, hr, hl⟩ := hl
      rcases List.mem_cons.mp ha with rfl | ha
      · rw [hr]
        exact Option.some_ne_none _
      · exact ih hl ha

/-- **A chain does not see a change of other cells.** -/
theorem Chain.congr (hl : Chain h p l q) (hh : ∀ a ∈ l.map Prod.fst, h' a = h a) :
    Chain h' p l q := by
  induction l generalizing p with
  | nil => exact hl
  | cons c l ih =>
      obtain ⟨a, x⟩ := c
      obtain ⟨hp, r, hr, hl⟩ := hl
      refine ⟨hp, r, ?_, ih hl fun b hb => hh b (List.mem_cons_of_mem _ hb)⟩
      rw [hh a List.mem_cons_self, hr]

/-- From one pointer to null there is one chain. -/
theorem Chain.unique (hl : Chain h p l none) (hl' : Chain h p l' none) : l = l' := by
  induction l generalizing p l' with
  | nil =>
      cases l' with
      | nil => rfl
      | cons c l' =>
          obtain ⟨hp, -⟩ := hl'
          rw [chain_nil] at hl
          rw [hl] at hp
          cases hp
  | cons c l ih =>
      obtain ⟨a, x⟩ := c
      obtain ⟨rfl, r, hr, hl⟩ := hl
      cases l' with
      | nil =>
          rw [chain_nil] at hl'
          cases hl'
      | cons c' l' =>
          obtain ⟨b, y⟩ := c'
          obtain ⟨hp, s, hs, hl'⟩ := hl'
          obtain rfl := Option.some.inj hp
          rw [hr] at hs
          obtain ⟨rfl, rfl⟩ := Cell.mk.inj (Option.some.inj hs)
          rw [ih hl hl']

/-- **A chain to null goes through no cell twice.** -/
theorem Chain.nodup (hl : Chain h p l none) : (l.map Prod.fst).Nodup := by
  induction l generalizing p with
  | nil => exact List.nodup_nil
  | cons c l ih =>
      obtain ⟨a, x⟩ := c
      have hwhole := hl
      obtain ⟨rfl, r, hr, hl⟩ := hl
      refine List.nodup_cons.mpr ⟨fun ha => ?_, ih hl⟩
      -- from a second visit of `a` there would be two chains to null
      obtain ⟨⟨a', y⟩, hmem, rfl⟩ := List.mem_map.mp ha
      obtain ⟨u, w, rfl⟩ := List.append_of_mem hmem
      obtain ⟨s, -, hs⟩ := chain_append.mp hl
      have hsame := hwhole.unique (hs.1 ▸ hs)
      have hlen := congrArg List.length hsame
      simp only [List.length_cons, List.length_append] at hlen
      omega

/-- **What can be reached is what the chain to null goes through.** -/
theorem Chain.reach_iff (hl : Chain h p l none) : Reach h p a ↔ a ∈ l.map Prod.fst := by
  constructor
  · intro hreach
    induction hreach generalizing l with
    | here a =>
        cases l with
        | nil =>
            rw [chain_nil] at hl
            cases hl
        | cons c l =>
            obtain ⟨hp, -⟩ := hl
            rw [Option.some.inj hp]
            exact List.mem_cons_self
    | next hc hb ih =>
        cases l with
        | nil =>
            rw [chain_nil] at hl
            cases hl
        | cons c' l =>
            obtain ⟨hp, r, hr, hl⟩ := hl
            rw [Option.some.inj hp, hr] at hc
            obtain rfl := Option.some.inj hc
            exact List.mem_cons_of_mem _ (ih hl)
  · intro ha
    induction l generalizing p with
    | nil => exact absurd ha List.not_mem_nil
    | cons c l ih =>
        obtain ⟨b, x⟩ := c
        obtain ⟨rfl, r, hr, hl⟩ := hl
        rcases List.mem_cons.mp ha with rfl | ha
        · exact .here a
        · exact .next hr (ih hl ha)

/-- **From no cell of a chain to null the pointers lead back to it.** -/
theorem Chain.acyclic {c : Cell α β} (hl : Chain h p l none) (ha : Reach h p a) (hc : h a = some c) :
    ¬ Reach h c.next a := by
  obtain ⟨⟨a, x⟩, hmem, rfl⟩ := List.mem_map.mp (hl.reach_iff.mp ha)
  obtain ⟨u, w, rfl⟩ := List.append_of_mem hmem
  obtain ⟨r, -, hr⟩ := chain_append.mp hl
  -- what can be reached behind the cell is what the chain goes through behind it
  have hnodup := List.nodup_cons.mp hr.nodup
  obtain ⟨-, next, hnext, hw⟩ := hr
  rw [hnext] at hc
  obtain rfl := Option.some.inj hc
  rw [hw.reach_iff]
  exact hnodup.1

/-- **The last cell of a chain to null** leads nowhere else. -/
theorem Chain.reach_last (hl : Chain h p l none) (ha : Reach h (l.map Prod.fst).getLast? a) :
    a ∈ l.map Prod.fst := by
  rcases List.eq_nil_or_concat l with rfl | ⟨l, ⟨b, x⟩, rfl⟩
  · cases ha
  · rw [List.concat_eq_append] at hl ha ⊢
    obtain ⟨r, -, hr⟩ := chain_append.mp hl
    have hb := hr
    obtain ⟨rfl, -⟩ := hb
    have hlast : ((l ++ [(b, x)]).map Prod.fst).getLast? = some b := by simp
    rw [hlast] at ha
    rw [List.map_append, List.mem_append]
    exact Or.inr (hr.reach_iff.mp ha)

end StudiesOS
