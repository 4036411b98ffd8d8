import Mathlib

/-!
# Collecting up to a limit

A list is gone through until enough was found. A step may fail, and a scan that passes over parts
of the list in which nothing is to be found differs from the scan of the whole list in failures of
the steps only.
-/
namespace PrtsMcp.Collect

variable {α β ε : Type}

section Scans

variable (step : α → Except ε (Option β)) (limit : ℤ)

/-- What the items give, after what was found before. The flag tells that the limit is reached. -/
def collect : List β → List α → Except ε (List β × Bool)
  | found, [] => .ok (found, false)
  | found, x :: rest => do
    match ← step x with
    | none => collect found rest
    | some y =>
      if limit ≤ (found ++ [y]).length then return (found ++ [y], true)
      else collect (found ++ [y]) rest

/-- The same, with the limit looked at before each item. -/
def collectChecked : List β → List α → Except ε (List β)
  | found, [] => .ok found
  | found, x :: rest =>
    if limit ≤ found.length then .ok found
    else do
      match ← step x with
      | none => collectChecked found rest
      | some y => collectChecked (found ++ [y]) rest

end Scans

variable {step : α → Except ε (Option β)} {limit : ℤ}

theorem collectChecked_eq {found : List β} {xs : List α} (h : found.length < limit) :
    collectChecked step limit found xs = (collect step limit found xs).map Prod.fst := by
  induction xs generalizing found with
  | nil => rfl
  | cons x rest ih =>
    rw [collectChecked, if_neg (by omega), collect]
    cases step x with
    | error error => rfl
    | ok y =>
      cases y with
      | none => exact ih h
      | some y =>
        by_cases hfull : limit ≤ (found ++ [y]).length
        · simp only [bind, Except.bind, if_pos hfull]
          cases rest with
          | nil => rfl
          | cons x rest =>
            rw [collectChecked, if_pos hfull]
            rfl
        · simp only [bind, Except.bind, if_neg hfull]
          exact ih (by omega)

theorem collect_append (found : List β) (a b : List α) :
    collect step limit found (a ++ b) = (collect step limit found a).bind fun scanned =>
      if scanned.2 then .ok (scanned.1, true) else collect step limit scanned.1 b := by
  induction a generalizing found with
  | nil => rfl
  | cons x a ih =>
    rw [List.cons_append, collect, collect]
    cases step x with
    | error error => rfl
    | ok y =>
      cases y with
      | none => exact ih found
      | some y =>
        by_cases hfull : limit ≤ (found ++ [y]).length
        · simp only [bind, Except.bind, if_pos hfull]
          rfl
        · simp only [bind, Except.bind, if_neg hfull]
          exact ih (found ++ [y])

theorem collect_map {γ : Type} (f : γ → α) (found : List β) (xs : List γ) :
    collect step limit found (xs.map f) = collect (step ∘ f) limit found xs := by
  induction xs generalizing found with
  | nil => rfl
  | cons x xs ih => simp only [List.map_cons, collect, Function.comp_apply, ih]

theorem collect_congr {step' : α → Except ε (Option β)} {xs : List α}
    (h : ∀ x ∈ xs, step x = step' x) (found : List β) :
    collect step limit found xs = collect step' limit found xs := by
  induction xs generalizing found with
  | nil => rfl
  | cons x xs ih =>
    rw [List.forall_mem_cons] at h
    simp only [collect, h.1, ih h.2]

/-- Items that give nothing may be left out. -/
theorem collect_filter {p : α → Bool} {xs : List α} (h : ∀ x ∈ xs, p x = false → step x = .ok none)
    (found : List β) : collect step limit found (xs.filter p) = collect step limit found xs := by
  induction xs generalizing found with
  | nil => rfl
  | cons x xs ih =>
    rw [List.forall_mem_cons] at h
    cases hx : p x with
    | false =>
      rw [List.filter_cons_of_neg (by simp [hx]), ih h.2, collect, h.1 hx]
      rfl
    | true => simp only [List.filter_cons_of_pos hx, collect, ih h.2]

/-- A scan gives what the steps through the items give, or spares a failure of one of them. -/
def Spares {γ : Type} (step : α → Except ε (Option β)) (xs : List α) (x y : Except ε γ) : Prop :=
  x = y ∨ ∃ item ∈ xs, ∃ error, step item = .error error ∧ y = .error error

theorem Spares.mono {γ : Type} {xs ys : List α} {x y : Except ε γ} (h : Spares step xs x y)
    (hsub : xs ⊆ ys) : Spares step ys x y := by
  rcases h with heq | ⟨item, hitem, error, hstep, hy⟩
  · exact .inl heq
  · exact .inr ⟨item, hsub hitem, error, hstep, hy⟩

theorem Spares.map {γ δ : Type} (f : γ → δ) {xs : List α} {x y : Except ε γ}
    (h : Spares step xs x y) : Spares step xs (x.map f) (y.map f) := by
  rcases h with heq | ⟨item, hitem, error, hstep, hy⟩
  · exact .inl (heq ▸ rfl)
  · exact .inr ⟨item, hitem, error, hstep, hy ▸ rfl⟩

/-- Nothing is found where every item gives nothing or fails. -/
theorem spares_passed (found : List β) {xs : List α}
    (h : ∀ x ∈ xs, step x = .ok none ∨ ∃ error, step x = .error error) :
    Spares step xs (.ok (found, false)) (collect step limit found xs) := by
  induction xs with
  | nil => exact .inl rfl
  | cons x rest ih =>
    rw [List.forall_mem_cons] at h
    rw [collect]
    rcases h.1 with hnone | ⟨error, herror⟩
    · rw [hnone]
      exact (ih h.2).mono (List.subset_cons_self x rest)
    · rw [herror]
      exact .inr ⟨x, List.mem_cons_self, error, herror, rfl⟩

/-- A part after another one: both may spare failures of their own items. -/
theorem Spares.append {found : List β} {a b : List α} {x : Except ε (List β × Bool)}
    {y : List β → Except ε (List β × Bool)}
    (hx : Spares step a x (collect step limit found a))
    (hy : ∀ found, Spares step b (y found) (collect step limit found b)) :
    Spares step (a ++ b)
      (x.bind fun scanned => if scanned.2 then .ok (scanned.1, true) else y scanned.1)
      (collect step limit found (a ++ b)) := by
  rw [collect_append]
  rcases hx with heq | ⟨item, hitem, error, hstep, hfails⟩
  · rw [heq]
    cases collect step limit found a with
    | error error => exact .inl rfl
    | ok scanned =>
      obtain ⟨scanned, full⟩ := scanned
      cases full with
      | true => exact .inl rfl
      | false => exact (hy scanned).mono (List.subset_append_right a b)
  · rw [hfails]
    exact .inr ⟨item, List.mem_append_left b hitem, error, hstep, rfl⟩

/-- What a scan that spares failures tells of the scan through all items. -/
theorem Spares.answers {γ : Type} {xs : List α} {x y : Except ε γ} (h : Spares step xs x y) :
    (∀ c, y = .ok c → x = .ok c) ∧ (∀ error, x = .error error → ∃ error', y = .error error') ∧
      ((∀ item ∈ xs, ∃ z, step item = .ok z) → x = y) := by
  rcases h with heq | ⟨item, hitem, error, hstep, hfails⟩
  · rw [heq]
    exact ⟨fun c hc => hc, fun error herror => ⟨error, herror⟩, fun _ => rfl⟩
  · refine ⟨fun c hc => ?_, fun _ _ => ⟨error, hfails⟩, fun hsteps => ?_⟩
    · rw [hfails] at hc
      cases hc
    · obtain ⟨z, hz⟩ := hsteps item hitem
      rw [hstep] at hz
      cases hz

end PrtsMcp.Collect
