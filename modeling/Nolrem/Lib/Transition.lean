import Mathlib.Logic.Relation

/-!
# Runs of a transition system

A system is a step relation on its states. A run is the reflexive transitive closure,
and an invariant is proved once for a step and then holds in every state of a run.
-/

namespace Nolrem.Lib

variable {σ τ : Type*}

/-- `s` can be reached from `s₀` by steps. -/
abbrev Reaches (step : σ → σ → Prop) (s₀ s : σ) : Prop := Relation.ReflTransGen step s₀ s

/-- What holds at the start and is kept by each step holds in every state reached. -/
theorem Reaches.invariant {step : σ → σ → Prop} {P : σ → Prop} {s₀ s : σ}
    (h : Reaches step s₀ s) (h0 : P s₀) (hstep : ∀ a b, P a → step a b → P b) : P s := by
  induction h with
  | refl => exact h0
  | tail _ hab ih => exact hstep _ _ ih hab

end Nolrem.Lib
