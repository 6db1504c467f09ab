import Mathlib.Data.Int.Order.Basic
import Mathlib.Tactic.Common

/-! # Registries with fresh identifiers
A registry has places; a place is live or not, and bears an identifier. Taking a place into use
gives it the next identifier, which grows; giving it up keeps the identifier or clears it. Then the
identifiers of all places that bear one are distinct (`Registry.Sound`), and who is live under an
identifier that was given before a certain moment was live at that moment (`Registry.Since`). -/

namespace StudiesOS

universe u

variable {ι : Type u}

/-- **A registry** over the places `ι`. -/
structure Registry (ι : Type u) where
  /-- The next identifier. -/
  next : ℤ
  /-- The identifier of a place; `0` stands for none. -/
  id : ι → ℤ
  /-- The places in use. -/
  live : ι → Prop

namespace Registry

/-- Nothing changes at place `j`. -/
def Keeps (r r' : Registry ι) (j : ι) : Prop := r'.id j = r.id j ∧ (r'.live j ↔ r.live j)

/-- **The steps of a registry.** -/
inductive Step (r r' : Registry ι) : Prop
  /-- Nothing changes. -/
  | stutter (hnext : r'.next = r.next) (hkeep : ∀ j, Keeps r r' j)
  /-- A free place is taken, under the next identifier. -/
  | take (i : ι) (hnext : r'.next = r.next + 1) (hfree : ¬ r.live i) (hid : r'.id i = r.next)
      (hkeep : ∀ j, j ≠ i → Keeps r r' j)
  /-- A place is given up. -/
  | giveUp (i : ι) (hnext : r'.next = r.next) (hdead : ¬ r'.live i)
      (hid : r'.id i = r.id i ∨ r'.id i = 0) (hkeep : ∀ j, j ≠ i → Keeps r r' j)

/-- **Identifiers are fresh.** -/
structure Sound (r : Registry ι) : Prop where
  /-- The next identifier is a proper one. -/
  next_pos : 1 ≤ r.next
  /-- Identifiers are below the next one. -/
  range : ∀ i, 0 ≤ r.id i ∧ r.id i < r.next
  /-- A place in use has an identifier. -/
  pos : ∀ i, r.live i → r.id i ≠ 0
  /-- No two places have the same one, used or not. -/
  inj : ∀ i j, r.id i = r.id j → r.id i ≠ 0 → i = j

variable {r r' r₀ : Registry ι}

/-- **Every step keeps identifiers fresh.** -/
theorem Sound.step (h : r.Sound) (hstep : Step r r') : r'.Sound := by
  cases hstep with
  | stutter hnext hkeep =>
      refine ⟨hnext ▸ h.next_pos, fun i => ?_, fun i hi => ?_, fun i j heq hne => ?_⟩
      · rw [(hkeep i).1, hnext]
        exact h.range i
      · rw [(hkeep i).1]
        exact h.pos i ((hkeep i).2.mp hi)
      · rw [(hkeep i).1] at heq hne
        rw [(hkeep j).1] at heq
        exact h.inj i j heq hne
  | take i hnext hfree hid hkeep =>
      have hpos := h.next_pos
      -- the new identifier is above all others
      have hlt : ∀ j, j ≠ i → r'.id j < r'.id i := by
        intro j hj
        rw [(hkeep j hj).1, hid]
        exact (h.range j).2
      refine ⟨by omega, fun j => ?_, fun j hj => ?_, fun j l heq hne => ?_⟩
      · by_cases hji : j = i
        · rw [hji, hid, hnext]
          omega
        · have := h.range j
          rw [(hkeep j hji).1, hnext]
          omega
      · by_cases hji : j = i
        · rw [hji, hid]
          omega
        · rw [(hkeep j hji).1]
          exact h.pos j ((hkeep j hji).2.mp hj)
      · by_cases hji : j = i
        · by_cases hli : l = i
          · rw [hji, hli]
          · rw [hji] at heq
            have := hlt l hli
            omega
        · by_cases hli : l = i
          · rw [hli] at heq
            have := hlt j hji
            omega
          · rw [(hkeep j hji).1] at heq hne
            rw [(hkeep l hli).1] at heq
            exact h.inj j l heq hne
  | giveUp i hnext hdead hid hkeep =>
      have hrange := h.range i
      refine ⟨hnext ▸ h.next_pos, fun j => ?_, fun j hj => ?_, fun j l heq hne => ?_⟩
      · by_cases hji : j = i
        · rw [hji, hnext]
          have := h.next_pos
          omega
        · rw [(hkeep j hji).1, hnext]
          exact h.range j
      · by_cases hji : j = i
        · exact absurd (hji ▸ hj) hdead
        · rw [(hkeep j hji).1]
          exact h.pos j ((hkeep j hji).2.mp hj)
      · -- the place given up has kept its identifier, or has none
        have hold : ∀ m, r'.id m ≠ 0 → r'.id m = r.id m := by
          intro m hm
          by_cases hmi : m = i
          · rw [hmi] at hm ⊢
            exact hid.resolve_right hm
          · exact (hkeep m hmi).1
        have hne' : r'.id l ≠ 0 := heq ▸ hne
        rw [hold j hne] at heq hne
        rw [hold l hne'] at heq
        exact h.inj j l heq hne

/-- Places in use have distinct identifiers. -/
theorem Sound.live_inj (h : r.Sound) {i j : ι} (hi : r.live i) (heq : r.id i = r.id j) : i = j :=
  h.inj i j heq (h.pos i hi)

/-- The identifier of a place in use is between `1` and the next one. -/
theorem Sound.live_range (h : r.Sound) {i : ι} (hi : r.live i) :
    1 ≤ r.id i ∧ r.id i < r.next := by
  have := h.range i
  have := h.pos i hi
  omega

/-- **Since the moment of `r₀`**: who is live under an identifier given before was live then. -/
structure Since (r₀ r : Registry ι) : Prop where
  /-- Identifiers have grown. -/
  next_le : r₀.next ≤ r.next
  /-- The places with old identifiers. -/
  old : ∀ i, r.live i → r.id i < r₀.next → r₀.live i ∧ r₀.id i = r.id i

/-- At the moment itself. -/
theorem Since.refl (r : Registry ι) : Since r r := ⟨le_rfl, fun _ hi _ => ⟨hi, rfl⟩⟩

/-- **Every step keeps the record.** -/
theorem Since.step (h : Since r₀ r) (hstep : Step r r') : Since r₀ r' := by
  have hkept : ∀ j, Keeps r r' j → r'.live j → r'.id j < r₀.next →
      r₀.live j ∧ r₀.id j = r'.id j := by
    intro j hkeep hj hlt
    rw [hkeep.1] at hlt ⊢
    exact h.old j (hkeep.2.mp hj) hlt
  have hle := h.next_le
  cases hstep with
  | stutter hnext hkeep => exact ⟨hnext ▸ hle, fun j => hkept j (hkeep j)⟩
  | take i hnext hfree hid hkeep =>
      refine ⟨by omega, fun j hj hlt => ?_⟩
      by_cases hji : j = i
      · rw [hji, hid] at hlt
        omega
      · exact hkept j (hkeep j hji) hj hlt
  | giveUp i hnext hdead hid hkeep =>
      refine ⟨hnext ▸ hle, fun j hj hlt => ?_⟩
      by_cases hji : j = i
      · exact absurd (hji ▸ hj) hdead
      · exact hkept j (hkeep j hji) hj hlt

end Registry

end StudiesOS
