import Mathlib

/-!
# Fallible computations

What a successful `Except` computation says of its parts.
-/
namespace PrtsMcp.Fallible

variable {ε α β : Type*}

/-- `Option::ok_or`. -/
def okOr (e : ε) : Option α → Except ε α
  | some a => .ok a
  | none => .error e

theorem okOr_eq_ok {e : ε} {x : Option α} {a : α} : okOr e x = .ok a ↔ x = some a := by
  cases x <;> simp [okOr]

theorem bind_eq_ok {ε α β : Type} {x : Except ε α} {f : α → Except ε β} {b : β}
    (h : x >>= f = .ok b) : ∃ a, x = .ok a ∧ f a = .ok b := by
  cases x with
  | error e => cases h
  | ok a => exact ⟨a, rfl, h⟩

theorem map_eq_ok {x : Except ε α} {f : α → β} {b : β} (h : x.map f = .ok b) :
    ∃ a, x = .ok a ∧ b = f a := by
  cases x with
  | error e => cases h
  | ok a =>
    cases h
    exact ⟨a, rfl, rfl⟩

theorem mapError_eq_ok {δ : Type*} {x : Except ε α} {f : ε → δ} {a : α} :
    x.mapError f = .ok a ↔ x = .ok a := by
  cases x <;> simp [Except.mapError]

/-- A fold that succeeds keeps what its every step keeps. -/
theorem foldlM_keeps {ε α β : Type} {f : β → α → Except ε β} {P : β → Prop} {items : List α}
    (hstep : ∀ b a b', P b → f b a = .ok b' → P b') {b b' : β} (h : items.foldlM f b = .ok b')
    (hb : P b) : P b' := by
  induction items generalizing b with
  | nil =>
    cases h
    exact hb
  | cons a items ih =>
    rw [List.foldlM_cons] at h
    obtain ⟨c, hc, h⟩ := bind_eq_ok h
    exact ih h (hstep b a c hb hc)

/-! ## Lists -/

section MapM

variable {ε α β : Type} {f : α → Except ε β} {xs : List α} {ys : List β} {e : ε}

theorem mapM_eq_ok_of_forall₂ (h : List.Forall₂ (fun x y => f x = .ok y) xs ys) : xs.mapM f = .ok ys := by
  induction h with
  | nil => rfl
  | cons hx _ ih =>
    rw [List.mapM_cons, hx, ih]
    rfl

theorem mapM_ok {g : α → β} (h : ∀ x ∈ xs, f x = .ok (g x)) : xs.mapM f = .ok (xs.map g) := by
  apply mapM_eq_ok_of_forall₂
  rw [List.forall₂_map_right_iff, List.forall₂_same]
  exact h

theorem forall₂_of_mapM_eq_ok (h : xs.mapM f = .ok ys) : List.Forall₂ (fun x y => f x = .ok y) xs ys := by
  induction xs generalizing ys with
  | nil =>
    cases h
    exact .nil
  | cons x xs ih =>
    rw [List.mapM_cons] at h
    obtain ⟨y, hy, h⟩ := bind_eq_ok h
    obtain ⟨rest, hrest, h⟩ := bind_eq_ok h
    cases h
    exact .cons hy (ih hrest)

theorem mapM_ne_error (h : ∀ x ∈ xs, f x ≠ .error e) : xs.mapM f ≠ .error e := by
  induction xs with
  | nil => exact fun h => by cases h
  | cons x xs ih =>
    have hx := h x List.mem_cons_self
    have hxs := ih fun y hy => h y (List.mem_cons_of_mem _ hy)
    rw [List.mapM_cons]
    cases hfx : f x with
    | error e' => simpa [bind, Except.bind, hfx] using hx
    | ok y =>
      cases hrest : xs.mapM f with
      | error e' => simpa [bind, Except.bind, hrest] using hxs
      | ok ys => simp [bind, Except.bind, pure, Except.pure]

end MapM

/-- A fold over items that are made one by one is a fold over all that were made. -/
theorem foldlM_mapM_eq_ok {ε α β γ : Type} {f : α → Except ε β} {g : γ → β → Except ε γ} {items : List α}
    {init out : γ} :
    (items.foldlM (fun acc a => do g acc (← f a)) init = .ok out) ↔
      ∃ made, items.mapM f = .ok made ∧ made.foldlM g init = .ok out := by
  induction items generalizing init with
  | nil => simp [pure, Except.pure]
  | cons a items ih =>
    rw [List.foldlM_cons]
    constructor
    · intro h
      obtain ⟨next, hnext, h⟩ := bind_eq_ok h
      obtain ⟨b, hb, hnext⟩ := bind_eq_ok hnext
      obtain ⟨made, hmade, hfold⟩ := ih.mp h
      refine ⟨b :: made, ?_, ?_⟩
      · rw [List.mapM_cons, hb, hmade]
        rfl
      · rw [List.foldlM_cons, hnext]
        exact hfold
    · rintro ⟨made, hmade, hfold⟩
      rw [List.mapM_cons] at hmade
      obtain ⟨b, hb, hmade⟩ := bind_eq_ok hmade
      obtain ⟨rest, hrest, hmade⟩ := bind_eq_ok hmade
      cases hmade
      rw [List.foldlM_cons] at hfold
      obtain ⟨next, hnext, hfold⟩ := bind_eq_ok hfold
      rw [hb]
      change g init b >>= _ = _
      rw [hnext]
      exact ih.mpr ⟨rest, hrest, hfold⟩

theorem foldlM_flatMap {m : Type → Type} [Monad m] [LawfulMonad m] {α β γ : Type} {f : α → List β}
    {g : γ → β → m γ} (xs : List α) (init : γ) :
    (xs.flatMap f).foldlM g init = xs.foldlM (fun acc x => (f x).foldlM g acc) init := by
  induction xs generalizing init with
  | nil => simp
  | cons x xs ih =>
    rw [List.flatMap_cons, List.foldlM_append, List.foldlM_cons]
    exact congrArg _ (funext ih)

end PrtsMcp.Fallible
