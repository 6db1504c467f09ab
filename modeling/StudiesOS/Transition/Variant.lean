import StudiesOS.Transition.Run
import Mathlib.Algebra.GroupWithZero.Nat

/-! # Variants and credits
Termination of a system in which some actions give work back. A variant `μ` counts the work that is
left, every action does at least one unit of it, and an action `a` may add `credit a` units. Then a
run is no longer than the work at its start and the credits it used (`credited_length`). Where only the
steps of one kind do work, it is they that are bounded (`guarded_count`). A system that can lower its
variant in every state that is not final has a way to a final state (`run_to_final`). -/

namespace StudiesOS

universe u v

variable {σ : Type u} {α : Type v} {step : σ → α → Option σ}

/-- **A run is paid for** by the work at its start and by the credits of its actions. -/
theorem credited_length {I : σ → Prop} {μ : σ → ℕ} {credit : α → ℕ} {s₀ : σ} (start : I s₀)
    (next : ∀ s a s', I s → step s a = some s' → I s' ∧ μ s' + 1 ≤ μ s + credit a)
    {as : List α} {s : σ} (h : run step s₀ as = some s) :
    as.length + μ s ≤ μ s₀ + (as.map credit).sum := by
  refine (run_induction (motive := fun as s => I s ∧ as.length + μ s ≤ μ s₀ + (as.map credit).sum)
    ⟨start, by simp⟩ ?_ h).2
  rintro as s a s' - ⟨hs, ih⟩ hstep
  obtain ⟨hs', hpay⟩ := next s a s' hs hstep
  refine ⟨hs', ?_⟩
  rw [List.length_append, List.map_append, List.sum_append, List.length_singleton,
    List.map_singleton, List.sum_singleton]
  omega

/-- **The steps of one kind are bounded by a variant** that they lower and that no other step raises,
in a run whose steps meet `ok`. -/
theorem guarded_count {ok : σ → α → Prop} {I : σ → Prop} {μ : σ → ℕ} {P : α → Bool} {s₀ : σ}
    (start : I s₀)
    (next : ∀ s a s', I s → ok s a → step s a = some s' →
      I s' ∧ μ s' + (if P a then 1 else 0) ≤ μ s)
    {as : List α} {s : σ} (hok : EveryStep step ok s₀ as) (h : run step s₀ as = some s) :
    I s ∧ as.countP P + μ s ≤ μ s₀ := by
  induction as using List.reverseRecOn generalizing s with
  | nil =>
      obtain rfl : s₀ = s := by simpa using h
      exact ⟨start, Nat.le_of_eq (Nat.zero_add (μ s₀))⟩
  | append_singleton as a ih =>
      obtain ⟨t, ht, hstep⟩ := run_snoc.mp h
      obtain ⟨hpre, hlast⟩ := everyStep_snoc hok
      obtain ⟨hI, hle⟩ := ih hpre ht
      obtain ⟨hI', hlower⟩ := next t a s hI (hlast t ht) hstep
      refine ⟨hI', ?_⟩
      rw [List.countP_append, List.countP_singleton]
      omega

/-- **The step that ends a condition**: a run that begins where it holds, and does not keep it up, has a
first step that breaks it. -/
theorem first_leave {P : σ → Prop} {s u : σ} {as : List α} (h : run step s as = some u) (hs : P s)
    (hnot : ¬ (EveryStep step (fun t _ => P t) s as ∧ P u)) :
    ∃ bs a cs t t', as = bs ++ a :: cs ∧ run step s bs = some t ∧
      EveryStep step (fun t _ => P t) s bs ∧ P t ∧ step t a = some t' ∧ ¬ P t' := by
  induction as generalizing s with
  | nil =>
      obtain rfl : s = u := by simpa using h
      exact absurd ⟨everyStep_nil, hs⟩ hnot
  | cons a as ih =>
      rw [run_cons] at h
      obtain ⟨s', hs', hrun⟩ := Option.bind_eq_some_iff.mp h
      by_cases hP : P s'
      · obtain ⟨bs, b, cs, t, t', rfl, hbs, hkeep, ht, hstep, ht'⟩ := ih hrun hP fun hall =>
          hnot ⟨everyStep_cons.mpr ⟨hs, fun t ht => Option.some.inj (hs'.symm.trans ht) ▸ hall.1⟩,
            hall.2⟩
        refine ⟨a :: bs, b, cs, t, t', rfl, ?_, everyStep_cons.mpr ⟨hs, fun t ht => ?_⟩, ht, hstep,
          ht'⟩
        · rw [run_cons, hs']
          exact hbs
        · exact Option.some.inj (hs'.symm.trans ht) ▸ hkeep
      · exact ⟨[], a, as, s, s', rfl, rfl, everyStep_nil, hs, hs', hP⟩

/-- **A way to a final state**, if every state that is not final has an allowed action that lowers
the variant. -/
theorem run_to_final {I F : σ → Prop} {ok : α → Prop} {μ : σ → ℕ}
    (next : ∀ s, I s → F s ∨ ∃ a s', ok a ∧ step s a = some s' ∧ I s' ∧ μ s' < μ s) {s : σ}
    (start : I s) : ∃ as t, run step s as = some t ∧ F t ∧ ∀ a ∈ as, ok a := by
  -- by strong induction on the work that is left
  induction hn : μ s using Nat.strongRecOn generalizing s with
  | ind n ih =>
      obtain hfinal | ⟨a, s', ha, hstep, hs', hlt⟩ := next s start
      · exact ⟨[], s, rfl, hfinal, by simp⟩
      · obtain ⟨as, t, hrun, ht, has⟩ := ih (μ s') (hn ▸ hlt) hs' rfl
        refine ⟨a :: as, t, ?_, ht, List.forall_mem_cons.mpr ⟨ha, has⟩⟩
        rw [run_cons, hstep]
        exact hrun

end StudiesOS
