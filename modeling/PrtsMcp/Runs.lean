import Mathlib

/-!
# Runs

Properties of every prefix of a run and conditions on its every step, with the induction that
carries a property along the steps that meet a condition.
-/
namespace PrtsMcp.Runs

variable {ε : Type*}

/-- `P` holds after every prefix of the run. -/
def EveryPrefix (P : List ε → Prop) (es : List ε) : Prop := ∀ pre, pre <+: es → P pre

/-- `C` holds of every step of the run and the prefix before it. -/
def EveryStep (C : List ε → ε → Prop) (es : List ε) : Prop :=
  ∀ pre e, pre ++ [e] <+: es → C pre e

theorem EveryPrefix.self {P : List ε → Prop} {es : List ε} (h : EveryPrefix P es) : P es :=
  h es (List.prefix_refl es)

theorem EveryPrefix.imp {P Q : List ε → Prop} {es : List ε} (h : EveryPrefix P es)
    (himp : ∀ pre, P pre → Q pre) : EveryPrefix Q es :=
  fun pre hpre => himp pre (h pre hpre)

/-- What holds after every prefix holds before every step. -/
theorem EveryPrefix.before {P : List ε → Prop} {es : List ε} (h : EveryPrefix P es) :
    EveryStep (fun pre _ => P pre) es :=
  fun pre e hpre => h pre ((List.prefix_append pre [e]).trans hpre)

theorem EveryStep.and {C D : List ε → ε → Prop} {es : List ε} (hC : EveryStep C es)
    (hD : EveryStep D es) : EveryStep (fun pre e => C pre e ∧ D pre e) es :=
  fun pre e hpre => ⟨hC pre e hpre, hD pre e hpre⟩

theorem EveryStep.imp {C D : List ε → ε → Prop} {es : List ε} (h : EveryStep C es)
    (himp : ∀ pre e, C pre e → D pre e) : EveryStep D es :=
  fun pre e hpre => himp pre e (h pre e hpre)

/-- A property of the start that every step meeting its condition keeps holds throughout. -/
theorem EveryStep.induction {P : List ε → Prop} {C : List ε → ε → Prop} {es : List ε}
    (h : EveryStep C es) (start : P []) (keep : ∀ pre e, P pre → C pre e → P (pre ++ [e])) :
    EveryPrefix P es := by
  intro pre
  induction pre using List.reverseRecOn with
  | nil => exact fun _ => start
  | append_singleton pre e ih =>
    intro hpre
    exact keep pre e (ih ((List.prefix_append pre [e]).trans hpre)) (h pre e hpre)

theorem EveryStep.nil {C : List ε → ε → Prop} : EveryStep C [] := fun pre e h => by
  simp at h

theorem EveryStep.snoc {C : List ε → ε → Prop} {es : List ε} {e : ε} (h : EveryStep C es)
    (he : C es e) : EveryStep C (es ++ [e]) := by
  intro pre e' hpre
  rcases List.prefix_concat_iff.mp hpre with heq | hold
  · obtain ⟨rfl, rfl⟩ := List.append_singleton_inj.mp heq
    exact he
  · exact h pre e' hold

/-- Steps that meet the condition whatever came before may be appended. -/
theorem EveryStep.append {C : List ε → ε → Prop} {es : List ε} (h : EveryStep C es)
    {fs : List ε} (hfs : ∀ e ∈ fs, ∀ pre, C pre e) : EveryStep C (es ++ fs) := by
  induction fs using List.reverseRecOn with
  | nil => simpa using h
  | append_singleton fs e ih =>
    rw [← List.append_assoc]
    exact (ih fun e' he' => hfs e' (by simp [he'])).snoc (hfs e (by simp) _)

/-- Where a step keeps the property exactly under the condition, so does a run. -/
theorem everyPrefix_iff_everyStep {P : List ε → Prop} {C : List ε → ε → Prop} (start : P [])
    (keep : ∀ pre e, P pre → (P (pre ++ [e]) ↔ C pre e)) (es : List ε) :
    EveryPrefix P es ↔ EveryStep C es :=
  ⟨fun h pre e hpre => (keep pre e (h.before pre e hpre)).mp (h _ hpre),
    fun h => h.induction start fun pre e hp hc => (keep pre e hp).mpr hc⟩

instance {P : List ε → Prop} [DecidablePred P] (es : List ε) : Decidable (EveryPrefix P es) :=
  decidable_of_iff (∀ pre ∈ es.inits, P pre) (by simp [EveryPrefix])

instance {C : List ε → ε → Prop} [∀ pre e, Decidable (C pre e)] (es : List ε) :
    Decidable (EveryStep C es) :=
  decidable_of_iff (∀ pre ∈ es.inits, ∀ e ∈ (es.drop pre.length).head?, C pre e) (by
    simp only [EveryStep, List.mem_inits]
    constructor
    · rintro h pre e ⟨post, rfl⟩
      exact h pre ⟨e :: post, by simp⟩ e (by simp)
    · rintro h pre ⟨post, rfl⟩ e he
      refine h pre e ?_
      rw [List.drop_left, Option.mem_def, List.head?_eq_some_iff] at he
      obtain ⟨tail, rfl⟩ := he
      exact ⟨tail, by simp⟩)

end PrtsMcp.Runs
