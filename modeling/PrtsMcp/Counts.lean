import Mathlib

/-!
# Counts

Occurrences of keys, counted one after the other, and lists that are sorted by an order in which no
two entries are equal.
-/
namespace PrtsMcp.Counts

variable {κ κ' : Type*} [DecidableEq κ] [DecidableEq κ']

/-- The count of a key, raised by one; new keys come last. -/
def bump (counts : List (κ × ℕ)) (key : κ) : List (κ × ℕ) :=
  match counts with
  | [] => [(key, 1)]
  | entry :: rest =>
    if entry.1 = key then (key, entry.2 + 1) :: rest else entry :: bump rest key

theorem bump_filter (p : κ → Bool) (counts : List (κ × ℕ)) (key : κ) :
    (bump counts key).filter (fun entry => p entry.1) =
      if p key then bump (counts.filter fun entry => p entry.1) key
      else counts.filter fun entry => p entry.1 := by
  induction counts with
  | nil => cases hkey : p key <;> simp [bump, hkey]
  | cons entry rest ih =>
    rw [bump]
    by_cases hentry : entry.1 = key
    · subst hentry
      cases hp : p entry.1 <;> simp [bump, hp]
    · rw [if_neg hentry]
      cases hp : p entry.1 with
      | false => simp only [List.filter_cons, hp, ih, Bool.false_eq_true, if_false]
      | true =>
        simp only [List.filter_cons, hp, ih, if_true]
        split_ifs
        · rw [bump, if_neg hentry]
        · rfl

/-- The counts of some keys only. -/
theorem foldl_bump_filter (p : κ → Bool) (keys : List κ) (counts : List (κ × ℕ)) :
    (keys.foldl bump counts).filter (fun entry => p entry.1) =
      (keys.filter p).foldl bump (counts.filter fun entry => p entry.1) := by
  induction keys generalizing counts with
  | nil => rfl
  | cons key keys ih =>
    rw [List.foldl_cons, ih, bump_filter, List.filter_cons]
    split_ifs <;> rfl

theorem bump_map {f : κ → κ'} (hf : Function.Injective f) (counts : List (κ × ℕ)) (key : κ) :
    bump (counts.map (Prod.map f id)) (f key) = (bump counts key).map (Prod.map f id) := by
  induction counts with
  | nil => rfl
  | cons entry rest ih =>
    rw [List.map_cons, bump, bump, ih]
    by_cases hentry : entry.1 = key
    · have heq : (Prod.map f id entry).1 = f key := congrArg f hentry
      rw [if_pos hentry, if_pos heq]
      rfl
    · have hne : (Prod.map f id entry).1 ≠ f key := fun heq => hentry (hf heq)
      rw [if_neg hentry, if_neg hne]
      rfl

/-- Keys under other names have the same counts. -/
theorem foldl_bump_map {f : κ → κ'} (hf : Function.Injective f) (keys : List κ)
    (counts : List (κ × ℕ)) :
    (keys.map f).foldl bump (counts.map (Prod.map f id)) =
      (keys.foldl bump counts).map (Prod.map f id) := by
  induction keys generalizing counts with
  | nil => rfl
  | cons key keys ih => rw [List.map_cons, List.foldl_cons, List.foldl_cons, bump_map hf, ih]

/-- What is sorted by keys that tell all entries apart does not depend on how it was listed. -/
theorem insertionSort_eq_of_perm {α β : Type*} [LinearOrder β] {key : α → β}
    (hkey : Function.Injective key) {r : α → α → Prop} [DecidableRel r]
    (hr : ∀ a b, r a b ↔ key a ≤ key b) {xs ys : List α} (h : xs.Perm ys) :
    xs.insertionSort r = ys.insertionSort r := by
  have htotal : Std.Total r := ⟨fun a b => by rw [hr, hr]; exact le_total _ _⟩
  have htrans : IsTrans α r := ⟨fun a b c hab hbc => by
    rw [hr] at hab hbc ⊢
    exact hab.trans hbc⟩
  have hantisymm : Std.Antisymm r := ⟨fun a b hab hba => by
    rw [hr] at hab hba
    exact hkey (le_antisymm hab hba)⟩
  have hperm : (xs.insertionSort r).Perm (ys.insertionSort r) :=
    (List.perm_insertionSort r xs).trans (h.trans (List.perm_insertionSort r ys).symm)
  exact hperm.eq_of_pairwise' (List.pairwise_insertionSort r xs) (List.pairwise_insertionSort r ys)

end PrtsMcp.Counts
