import StudiesOS.Transition.Run

/-! # History variables
A history variable is computed along a run, from its value so far, the state and the action of each
step. What it says of the run is proved as an invariant of the state together with the variable. -/

namespace StudiesOS

universe u v w

variable {σ : Type u} {α : Type v} {β : Type w} {step : σ → α → Option σ} {f : σ → α → β → β}

/-- **The value of a history variable** after the run of `as` from `s`, when it is `b` at the start. -/
def history (step : σ → α → Option σ) (f : σ → α → β → β) : σ → β → List α → β
  | _, b, [] => b
  | s, b, a :: as =>
      match step s a with
      | none => b
      | some s' => history step f s' (f s a b) as

@[simp] theorem history_nil (s : σ) (b : β) : history step f s b [] = b := rfl

/-- The first step. -/
theorem history_cons {s s' : σ} {a : α} (h : step s a = some s') (b : β) (as : List α) :
    history step f s b (a :: as) = history step f s' (f s a b) as := by
  rw [history, h]

/-- A run after a run. -/
theorem history_append {s t : σ} {as : List α} (h : run step s as = some t) (b : β) (bs : List α) :
    history step f s b (as ++ bs) = history step f t (history step f s b as) bs := by
  induction as generalizing s b with
  | nil =>
      obtain rfl : s = t := by simpa using h
      rfl
  | cons a as ih =>
      rw [run_cons] at h
      obtain ⟨s', hs', h⟩ := Option.bind_eq_some_iff.mp h
      rw [List.cons_append, history_cons hs', history_cons hs', ih h]

/-- The last step. -/
theorem history_snoc {s t u : σ} {as : List α} {a : α} (h : run step s as = some t)
    (ha : step t a = some u) (b : β) :
    history step f s b (as ++ [a]) = f t a (history step f s b as) := by
  rw [history_append h, history_cons ha, history_nil]

/-- **Invariant rule with a history variable**, for guarded runs. -/
theorem guarded_history {ok : σ → α → Prop} {I : σ → β → Prop} {s₀ : σ} {b₀ : β} (start : I s₀ b₀)
    (next : ∀ s b a s', I s b → ok s a → step s a = some s' → I s' (f s a b))
    {as : List α} {s : σ} (hok : EveryStep step ok s₀ as) (h : run step s₀ as = some s) :
    I s (history step f s₀ b₀ as) := by
  induction as using List.reverseRecOn generalizing s with
  | nil =>
      obtain rfl : s₀ = s := by simpa using h
      exact start
  | append_singleton as a ih =>
      obtain ⟨t, ht, hstep⟩ := run_snoc.mp h
      obtain ⟨hpre, hlast⟩ := everyStep_snoc hok
      rw [history_snoc ht hstep]
      exact next t _ a s (ih hpre ht) (hlast t ht) hstep

/-- **Invariant rule with a history variable.** -/
theorem history_invariant {I : σ → β → Prop} {s₀ : σ} {b₀ : β} (start : I s₀ b₀)
    (next : ∀ s b a s', I s b → step s a = some s' → I s' (f s a b))
    {as : List α} {s : σ} (h : run step s₀ as = some s) : I s (history step f s₀ b₀ as) := by
  have hok : EveryStep step (fun _ _ => True) s₀ as := fun _ _ _ _ _ _ => trivial
  exact guarded_history start (fun s b a s' hs _ => next s b a s' hs) hok h

end StudiesOS
