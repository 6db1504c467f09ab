import Mathlib.Logic.Function.Basic
import Mathlib.Tactic.Common

/-! # Mutexes held at program points
A thread stands at a program point, and the point says which mutex it holds there (`held`); the
mutexes themselves record their owner (`owner`). `HeldBy` says that the two agree. Acquiring a free
mutex and releasing one's own keep the agreement, whatever the threads and the mutexes are. -/

namespace StudiesOS

universe u v

variable {L : Type u} {T : Type v}

/-- **Mutex owners agree with program points**: a mutex is owned by a thread exactly when that
thread stands where it holds it. -/
def HeldBy (owner : L → Option T) (held : T → Option L) : Prop :=
  ∀ l t, owner l = some t ↔ held t = some l

/-- Nothing is owned and nothing is held. -/
theorem heldBy_none : HeldBy (fun _ : L => (none : Option T)) fun _ => none := by
  intro l t
  simp

variable {owner : L → Option T} {held : T → Option L}

/-- Two threads never hold one mutex. -/
theorem HeldBy.excludes (h : HeldBy owner held) {l : L} {t u : T} (ht : held t = some l)
    (hu : held u = some l) : t = u :=
  Option.some.inj (((h l t).mpr ht).symm.trans ((h l u).mpr hu))

/-- A mutex held by some thread is not free. -/
theorem HeldBy.owner_ne_none (h : HeldBy owner held) {l : L} {t : T} (ht : held t = some l) :
    owner l ≠ none := by
  rw [(h l t).mpr ht]
  exact Option.some_ne_none t

variable [DecidableEq L] [DecidableEq T]

/-- **Acquiring** a free mutex, by a thread that holds none. -/
theorem HeldBy.acquire (h : HeldBy owner held) {l : L} {t : T} (hfree : owner l = none)
    (ht : held t = none) :
    HeldBy (Function.update owner l (some t)) (Function.update held t (some l)) := by
  intro l' t'
  by_cases hl : l' = l
  · subst hl
    by_cases htt : t' = t
    · subst htt
      simp
    · rw [Function.update_self, Function.update_of_ne htt]
      have hno : held t' ≠ some l' := fun hh => h.owner_ne_none hh hfree
      simp [hno, Ne.symm htt]
  · rw [Function.update_of_ne hl, h l' t']
    by_cases htt : t' = t
    · subst htt
      simp [ht, Ne.symm hl]
    · rw [Function.update_of_ne htt]

/-- **Releasing** the mutex one holds. -/
theorem HeldBy.release (h : HeldBy owner held) {l : L} {t : T} (ht : held t = some l) :
    HeldBy (Function.update owner l none) (Function.update held t none) := by
  intro l' t'
  by_cases hl : l' = l
  · subst hl
    by_cases htt : t' = t
    · subst htt
      simp
    · rw [Function.update_self, Function.update_of_ne htt]
      have hno : held t' ≠ some l' := fun hh => htt (h.excludes hh ht)
      simp [hno]
  · rw [Function.update_of_ne hl, h l' t']
    by_cases htt : t' = t
    · subst htt
      simp [ht, Ne.symm hl]
    · rw [Function.update_of_ne htt]

end StudiesOS
