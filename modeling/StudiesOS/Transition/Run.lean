import Mathlib.Data.List.Induction
import Mathlib.Tactic.Common

/-! # Runs of a partial step function
A system is a step function `σ → α → Option σ`: from a state, an action is either disabled (`none`)
or leads to one next state, all nondeterminism being in the choice of the action. `run` executes a
list of actions. The induction principle `run_induction` and the invariant rule `run_invariant`
package the induction on the last step once; `EveryStep` says that all steps of a run meet a
condition, and `guarded_invariant` is the invariant rule for such runs. -/

namespace StudiesOS

universe u v w

variable {σ : Type u} {α : Type v} {step : σ → α → Option σ}

/-- **Run a list of actions** from a state; `none` as soon as one of them is disabled. -/
def run (step : σ → α → Option σ) : σ → List α → Option σ
  | s, [] => some s
  | s, a :: as => (step s a).bind fun s' => run step s' as

@[simp] theorem run_nil (s : σ) : run step s [] = some s := rfl

theorem run_cons (s : σ) (a : α) (as : List α) :
    run step s (a :: as) = (step s a).bind fun s' => run step s' as := rfl

/-- A run of `as ++ bs` is a run of `as` followed by a run of `bs`. -/
theorem run_append (s : σ) (as bs : List α) :
    run step s (as ++ bs) = (run step s as).bind fun t => run step t bs := by
  induction as generalizing s with
  | nil => rfl
  | cons a as ih =>
      rw [List.cons_append, run_cons, run_cons]
      cases step s a with
      | none => rfl
      | some t => exact ih t

/-- A run that ends with the action `a` is a run up to there and one step. -/
theorem run_snoc {s u : σ} {as : List α} {a : α} :
    run step s (as ++ [a]) = some u ↔ ∃ t, run step s as = some t ∧ step t a = some u := by
  rw [run_append]
  cases run step s as with
  | none => simp
  | some t => cases h : step t a <;> simp [run_cons, h]

/-- Every prefix of a run is a run. -/
theorem run_prefix {s u : σ} {as bs : List α} (h : run step s (as ++ bs) = some u) :
    ∃ t, run step s as = some t ∧ run step t bs = some u := by
  rw [run_append] at h
  exact Option.bind_eq_some_iff.mp h

/-- **Induction on the last step of a run.** -/
theorem run_induction {s₀ : σ} {motive : List α → σ → Prop} (start : motive [] s₀)
    (next : ∀ as s a s', run step s₀ as = some s → motive as s → step s a = some s' →
      motive (as ++ [a]) s')
    {as : List α} {s : σ} (h : run step s₀ as = some s) : motive as s := by
  induction as using List.reverseRecOn generalizing s with
  | nil =>
      obtain rfl : s₀ = s := by simpa using h
      exact start
  | append_singleton as a ih =>
      obtain ⟨t, ht, hstep⟩ := run_snoc.mp h
      exact next as t a s ht (ih ht) hstep

/-- **Invariant rule.** What holds at the start and is preserved by every step holds after every
run. -/
theorem run_invariant {I : σ → Prop} {s₀ : σ} (start : I s₀)
    (next : ∀ s a s', I s → step s a = some s' → I s')
    {as : List α} {s : σ} (h : run step s₀ as = some s) : I s :=
  run_induction (motive := fun _ s => I s) start (fun _ s a s' _ hs => next s a s' hs) h

/-- **Every step of the run of `as` from `s₀` meets `ok`** (`ok` sees the state before the step). -/
def EveryStep (step : σ → α → Option σ) (ok : σ → α → Prop) (s₀ : σ) (as : List α) : Prop :=
  ∀ bs a cs t, as = bs ++ a :: cs → run step s₀ bs = some t → ok t a

/-- Without steps there is nothing to meet. -/
theorem everyStep_nil {ok : σ → α → Prop} {s₀ : σ} : EveryStep step ok s₀ [] := by
  intro bs a cs t h
  simp at h

/-- Peeling the first step off `EveryStep`. -/
theorem everyStep_cons {ok : σ → α → Prop} {s₀ : σ} {a : α} {as : List α} :
    EveryStep step ok s₀ (a :: as) ↔
      ok s₀ a ∧ ∀ s', step s₀ a = some s' → EveryStep step ok s' as := by
  constructor
  · intro h
    refine ⟨h [] a as s₀ rfl rfl, fun s' hs' bs b cs t has hrun => ?_⟩
    refine h (a :: bs) b cs t (by rw [has, List.cons_append]) ?_
    rw [run_cons, hs', Option.bind_some, hrun]
  · rintro ⟨h₁, h₂⟩ bs b cs t has hrun
    cases bs with
    | nil =>
        obtain ⟨rfl, rfl⟩ := List.cons.inj has
        obtain rfl : s₀ = t := by simpa using hrun
        exact h₁
    | cons c bs =>
        obtain ⟨rfl, rfl⟩ := List.cons.inj has
        rw [run_cons] at hrun
        obtain ⟨s', hs', hrun⟩ := Option.bind_eq_some_iff.mp hrun
        exact h₂ s' hs' bs b cs t rfl hrun

/-- On a concrete run of an executable system the condition can be checked step by step. -/
def decidableEveryStep {ok : σ → α → Prop} [∀ s a, Decidable (ok s a)] :
    ∀ (as : List α) (s₀ : σ), Decidable (EveryStep step ok s₀ as)
  | [], _ => isTrue everyStep_nil
  | a :: as, s₀ =>
      match h : step s₀ a with
      | none => decidable_of_iff (ok s₀ a) (by rw [everyStep_cons, h]; simp)
      | some s' =>
          have : Decidable (EveryStep step ok s' as) := decidableEveryStep as s'
          decidable_of_iff (ok s₀ a ∧ EveryStep step ok s' as) (by rw [everyStep_cons, h]; simp)

instance {ok : σ → α → Prop} [∀ s a, Decidable (ok s a)] {as : List α} {s₀ : σ} :
    Decidable (EveryStep step ok s₀ as) :=
  decidableEveryStep as s₀

/-- Peeling the last step off `EveryStep`. -/
theorem everyStep_snoc {ok : σ → α → Prop} {s₀ : σ} {as : List α} {a : α}
    (h : EveryStep step ok s₀ (as ++ [a])) :
    EveryStep step ok s₀ as ∧ ∀ t, run step s₀ as = some t → ok t a := by
  refine ⟨fun bs b cs t has hrun => ?_, fun t ht => h as a [] t rfl ht⟩
  exact h bs b (cs ++ [a]) t (by rw [has, List.append_assoc, List.cons_append]) hrun

/-- One more step that meets the condition. -/
theorem EveryStep.snoc {ok : σ → α → Prop} {s₀ : σ} {as : List α} {a : α}
    (h : EveryStep step ok s₀ as) (hlast : ∀ t, run step s₀ as = some t → ok t a) :
    EveryStep step ok s₀ (as ++ [a]) := by
  intro bs b cs t has hrun
  rcases List.eq_nil_or_concat cs with rfl | ⟨cs, c, rfl⟩
  · obtain ⟨rfl, rfl⟩ : as = bs ∧ a = b := by simpa using has
    exact hlast t hrun
  · rw [List.concat_eq_append, ← List.cons_append, ← List.append_assoc] at has
    exact h bs b cs t (List.append_inj_left' has rfl) hrun

/-- The two parts of a run. -/
theorem EveryStep.split {ok : σ → α → Prop} {s₀ t : σ} {as bs : List α}
    (h : EveryStep step ok s₀ (as ++ bs)) (hrun : run step s₀ as = some t) :
    EveryStep step ok s₀ as ∧ EveryStep step ok t bs := by
  refine ⟨fun cs a ds u has hu => ?_, fun cs a ds u hbs hu => ?_⟩
  · exact h cs a (ds ++ bs) u (by rw [has, List.append_assoc, List.cons_append]) hu
  · refine h (as ++ cs) a ds u (by rw [hbs, List.append_assoc]) ?_
    rw [run_append, hrun]
    exact hu

/-- **Invariant rule for guarded runs**: the step lemma may use that the step meets `ok`. -/
theorem guarded_invariant {ok : σ → α → Prop} {I : σ → Prop} {s₀ : σ} (start : I s₀)
    (next : ∀ s a s', I s → ok s a → step s a = some s' → I s')
    {as : List α} {s : σ} (hok : EveryStep step ok s₀ as) (h : run step s₀ as = some s) : I s := by
  induction as using List.reverseRecOn generalizing s with
  | nil =>
      obtain rfl : s₀ = s := by simpa using h
      exact start
  | append_singleton as a ih =>
      obtain ⟨t, ht, hstep⟩ := run_snoc.mp h
      obtain ⟨hpre, hlast⟩ := everyStep_snoc hok
      exact next t a s (ih hpre ht) (hlast t ht) hstep

/-- **Invariant rule below a bound**: as long as the growing count `μ` has not reached `N`. -/
theorem bounded_invariant {I J : σ → Prop} {μ : σ → ℕ} {N : ℕ} {s₀ : σ} (hJ : J s₀) (start : I s₀)
    (grow : ∀ s a s', J s → step s a = some s' → J s' ∧ μ s ≤ μ s')
    (next : ∀ s a s', J s → I s → step s a = some s' → μ s' < N → I s')
    {as : List α} {s : σ} (h : run step s₀ as = some s) (hlt : μ s < N) : I s := by
  refine (run_invariant (I := fun s => J s ∧ (μ s < N → I s)) ⟨hJ, fun _ => start⟩ ?_ h).2 hlt
  rintro s a s' ⟨hs, ih⟩ hstep
  obtain ⟨hs', hle⟩ := grow s a s' hs hstep
  exact ⟨hs', fun hlt' => next s a s' hs (ih (Nat.lt_of_le_of_lt hle hlt')) hstep hlt'⟩

/-- **Simulation rule for two runs**: related states take the same actions to related states, in steps
of the first run that meet `ok`. -/
theorem guarded_simulation {τ : Type w} {step' : τ → α → Option τ} {ok : σ → α → Prop}
    {R : σ → τ → Prop} {s₀ : σ} {t₀ : τ} (start : R s₀ t₀)
    (next : ∀ s t a s', R s t → ok s a → step s a = some s' → ∃ t', step' t a = some t' ∧ R s' t')
    {as : List α} {s : σ} (hok : EveryStep step ok s₀ as) (h : run step s₀ as = some s) :
    ∃ t, run step' t₀ as = some t ∧ R s t := by
  induction as using List.reverseRecOn generalizing s with
  | nil =>
      obtain rfl : s₀ = s := by simpa using h
      exact ⟨t₀, rfl, start⟩
  | append_singleton as a ih =>
      obtain ⟨u, hu, hstep⟩ := run_snoc.mp h
      obtain ⟨hpre, hlast⟩ := everyStep_snoc hok
      obtain ⟨v, hv, hR⟩ := ih hpre hu
      obtain ⟨t, ht, hR'⟩ := next u v a s hR (hlast u hu) hstep
      exact ⟨t, run_snoc.mpr ⟨v, hv, ht⟩, hR'⟩

/-- **A run under a variant is bounded**: every step lowers `μ`, so there are at most `μ s₀` of
them. -/
theorem guarded_length {ok : σ → α → Prop} {I : σ → Prop} {μ : σ → ℕ} {s₀ : σ} (start : I s₀)
    (next : ∀ s a s', I s → ok s a → step s a = some s' → I s' ∧ μ s' < μ s)
    {as : List α} {s : σ} (hok : EveryStep step ok s₀ as) (h : run step s₀ as = some s) :
    as.length + μ s ≤ μ s₀ := by
  induction as using List.reverseRecOn generalizing s with
  | nil =>
      obtain rfl : s₀ = s := by simpa using h
      exact Nat.le_of_eq (Nat.zero_add (μ s₀))
  | append_singleton as a ih =>
      obtain ⟨t, ht, hstep⟩ := run_snoc.mp h
      obtain ⟨hpre, hlast⟩ := everyStep_snoc hok
      have hI : I t := guarded_invariant start (fun s a s' hs ha hs' => (next s a s' hs ha hs').1)
        hpre ht
      have hlower := (next t a s hI (hlast t ht) hstep).2
      have := ih hpre ht
      rw [List.length_append, List.length_singleton]
      omega

end StudiesOS
