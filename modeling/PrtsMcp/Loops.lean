import Mathlib

/-!
# Loops

Loops that step from state to state until a step has a result.
-/
namespace PrtsMcp.Loops

variable {σ ρ : Type*} {step : σ → ρ ⊕ σ} {s t : σ} {r r' : ρ}

/-- The loop comes to an end from a state, with a result. -/
inductive Ends (step : σ → ρ ⊕ σ) : σ → ρ → Prop
  | last {s : σ} {r : ρ} (h : step s = .inl r) : Ends step s r
  | step {s t : σ} {r : ρ} (h : step s = .inr t) (rest : Ends step t r) : Ends step s r

theorem Ends.unique (h : Ends step s r) (h' : Ends step s r') : r = r' := by
  induction h with
  | last hlast =>
    cases h' with
    | last hlast' =>
      rw [hlast] at hlast'
      exact Sum.inl.inj hlast'
    | step hstep _ =>
      rw [hlast] at hstep
      cases hstep
  | step hstep _ ih =>
    cases h' with
    | last hlast =>
      rw [hstep] at hlast
      cases hlast
    | step hstep' hrest =>
      rw [hstep] at hstep'
      cases hstep'
      exact ih hrest

/-- What every step keeps holds of the last state. -/
theorem Ends.exists_last {Inv : σ → Prop} (h : Ends step s r) (hs : Inv s)
    (hkeeps : ∀ s t, Inv s → step s = .inr t → Inv t) : ∃ t, Inv t ∧ step t = .inl r := by
  induction h with
  | last hlast => exact ⟨_, hs, hlast⟩
  | step hstep _ ih => exact ih (hkeeps _ _ hs hstep)

/-- Two loops that step alike as long as the first one goes on: the second one ends from the last
state of the first one as it does from the start. -/
theorem Ends.resume {step' : σ → ρ ⊕ σ} (h : Ends step s r)
    (halike : ∀ s t, step s = .inr t → step' s = .inr t) :
    ∃ t, step t = .inl r ∧ ∀ r', Ends step' t r' ↔ Ends step' s r' := by
  induction h with
  | last hlast => exact ⟨_, hlast, fun _ => Iff.rfl⟩
  | @step s t r hstep _ ih =>
    obtain ⟨u, hlast, hends⟩ := ih
    refine ⟨u, hlast, fun r' => (hends r').trans ⟨fun hrest => .step (halike s t hstep) hrest, ?_⟩⟩
    intro hall
    have hfirst := halike s t hstep
    cases hall with
    | last hlast' =>
      rw [hfirst] at hlast'
      cases hlast'
    | step hstep' hrest =>
      rw [hfirst] at hstep'
      cases hstep'
      exact hrest

end PrtsMcp.Loops
