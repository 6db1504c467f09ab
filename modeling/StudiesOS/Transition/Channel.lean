import StudiesOS.Transition.Run
import Mathlib.Data.List.Infix

/-! # Parties and channels
A system of parties that run on their own and talk over channels. A channel keeps the order of what is
put into it, and what has been taken out of it and what is still on its way are together what has been
put in (`Channel.sent`). A run of the system is, seen from one of its parties, a run of that party
(`run_party`), so that what holds of every run of the party holds in the system. -/

namespace StudiesOS

universe u v w

/-! ## Parties -/

section Party

variable {σ : Type u} {α : Type v} {τ : Type w} {β : Type*} {step : σ → α → Option σ}
  {stepParty : τ → β → Option τ}

/-- **A run of the system is a run of each party** whose state every step either leaves alone or
changes as a step of the party does. -/
theorem run_party (π : σ → τ)
    (next : ∀ s a s', step s a = some s' → π s' = π s ∨ ∃ b, stepParty (π s) b = some (π s'))
    {s₀ s : σ} {as : List α} (h : run step s₀ as = some s) :
    ∃ bs, run stepParty (π s₀) bs = some (π s) := by
  refine run_induction (motive := fun _ s => ∃ bs, run stepParty (π s₀) bs = some (π s))
    ⟨[], rfl⟩ ?_ h
  rintro as s a s' - ⟨bs, hbs⟩ hstep
  rcases next s a s' hstep with heq | ⟨b, hb⟩
  · exact ⟨bs, by rw [heq, hbs]⟩
  · exact ⟨bs ++ [b], run_snoc.mpr ⟨π s, hbs, hb⟩⟩

end Party

/-! ## Channels -/

/-- **A channel** from one party to another. -/
structure Channel (α : Type u) where
  /-- What has been taken out of it. -/
  received : List α
  /-- What is on its way. -/
  pending : List α

namespace Channel

variable {α : Type u} {ch ch' : Channel α} {xs : List α}

/-- A channel that has not been used. -/
def empty : Channel α := ⟨[], []⟩

/-- **What has been put into the channel.** -/
def sent (ch : Channel α) : List α := ch.received ++ ch.pending

/-- Put `xs` into the channel. -/
def put (ch : Channel α) (xs : List α) : Channel α := { ch with pending := ch.pending ++ xs }

/-- Take `xs` out of the channel, if that is what comes next. -/
def take [DecidableEq α] (ch : Channel α) (xs : List α) : Option (Channel α) :=
  if xs <+: ch.pending then some ⟨ch.received ++ xs, ch.pending.drop xs.length⟩ else none

@[simp] theorem received_put : (ch.put xs).received = ch.received := rfl

@[simp] theorem sent_put : (ch.put xs).sent = ch.sent ++ xs := (List.append_assoc _ _ _).symm

/-- Nothing is taken out that was not put in before, and in the same order. -/
theorem received_isPrefix (ch : Channel α) : ch.received <+: ch.sent := List.prefix_append _ _

/-- **Taking `xs` out** moves them to what has been received, and leaves what has been sent. -/
theorem take_eq_some [DecidableEq α] (h : ch.take xs = some ch') :
    ch'.received = ch.received ++ xs ∧ ch'.sent = ch.sent := by
  unfold take at h
  split_ifs at h with hxs
  obtain ⟨rest, hrest⟩ := hxs
  cases h
  refine ⟨rfl, ?_⟩
  unfold sent
  rw [← hrest, List.drop_left, List.append_assoc]

end Channel

end StudiesOS
