import Mathlib

/-!
# Recency lists

A least-recently-used store as an association list, oldest use first. `touch` and `insert`
move a key to the back, and `trim` drops the shortest prefix that brings the weight under a bound.
-/
namespace PrtsMcp.LruList

variable {κ β : Type*} [DecidableEq κ]

def keys (l : List (κ × β)) : List κ := l.map Prod.fst

def remove (k : κ) (l : List (κ × β)) : List (κ × β) := l.filter (fun e => e.1 ≠ k)

def touch (k : κ) (l : List (κ × β)) : List (κ × β) :=
  match l.lookup k with
  | none => l
  | some v => remove k l ++ [(k, v)]

def weight (w : β → ℕ) (l : List (κ × β)) : ℕ := (l.map fun e => w e.2).sum

def trim (w : β → ℕ) (bound : ℕ) : List (κ × β) → List (κ × β)
  | [] => []
  | e :: rest => if weight w (e :: rest) ≤ bound then e :: rest else trim w bound rest

def insert (w : β → ℕ) (bound : ℕ) (k : κ) (v : β) (l : List (κ × β)) : List (κ × β) :=
  trim w bound (remove k l ++ [(k, v)])

omit [DecidableEq κ] in
@[simp] theorem weight_nil (w : β → ℕ) : weight w ([] : List (κ × β)) = 0 := rfl

omit [DecidableEq κ] in
@[simp] theorem weight_cons (w : β → ℕ) (e : κ × β) (l : List (κ × β)) :
    weight w (e :: l) = w e.2 + weight w l := by
  simp [weight]

omit [DecidableEq κ] in
@[simp] theorem weight_append (w : β → ℕ) (l m : List (κ × β)) :
    weight w (l ++ m) = weight w l + weight w m := by
  simp [weight]

omit [DecidableEq κ] in
@[simp] theorem keys_nil : keys ([] : List (κ × β)) = [] := rfl

omit [DecidableEq κ] in
@[simp] theorem keys_cons (e : κ × β) (l : List (κ × β)) : keys (e :: l) = e.1 :: keys l := rfl

omit [DecidableEq κ] in
@[simp] theorem keys_append (l m : List (κ × β)) : keys (l ++ m) = keys l ++ keys m := by
  simp [keys]

omit [DecidableEq κ] in
theorem mem_keys {l : List (κ × β)} {k : κ} : k ∈ keys l ↔ ∃ v, (k, v) ∈ l := by
  simp [keys]

theorem mem_remove {k : κ} {l : List (κ × β)} {e : κ × β} :
    e ∈ remove k l ↔ e ∈ l ∧ e.1 ≠ k := by
  simp [remove]

theorem keys_remove (k : κ) (l : List (κ × β)) :
    keys (remove k l) = (keys l).filter (· ≠ k) := by
  simp only [keys, remove, List.filter_map]
  rfl

theorem remove_eq_self {k : κ} {l : List (κ × β)} (h : k ∉ keys l) : remove k l = l := by
  refine List.filter_eq_self.mpr fun e he => ?_
  have : e.1 ≠ k := fun heq => h (heq ▸ List.mem_map_of_mem he)
  simpa using this

/-- With unique keys, removing a key erases the one position that holds it. -/
theorem eraseIdx_eq_remove {k : κ} {v : β} {l : List (κ × β)} {pos : ℕ}
    (hn : (keys l).Nodup) (h : l[pos]? = some (k, v)) : l.eraseIdx pos = remove k l := by
  induction l generalizing pos with
  | nil => simp at h
  | cons e l ih =>
    obtain ⟨hnot, hn⟩ := List.nodup_cons.mp hn
    cases pos with
    | zero =>
      obtain rfl : e = (k, v) := by simpa using h
      have : remove k ((k, v) :: l) = remove k l := by simp [remove]
      rw [this, remove_eq_self hnot]
      rfl
    | succ pos =>
      have hl : l[pos]? = some (k, v) := by simpa using h
      have hk : k ∈ keys l := mem_keys.mpr ⟨v, List.mem_of_getElem? hl⟩
      have hne : e.1 ≠ k := fun heq => hnot (heq ▸ hk)
      have hcons : remove k (e :: l) = e :: remove k l := by simp [remove, hne]
      rw [hcons, List.eraseIdx_cons_succ, ih hn hl]

theorem lookup_eq_of_getElem? {k : κ} {v : β} {l : List (κ × β)} {pos : ℕ}
    (hn : (keys l).Nodup) (h : l[pos]? = some (k, v)) : l.lookup k = some v := by
  induction l generalizing pos with
  | nil => simp at h
  | cons e l ih =>
    obtain ⟨hnot, hn⟩ := List.nodup_cons.mp hn
    cases pos with
    | zero =>
      obtain rfl : e = (k, v) := by simpa using h
      simp [List.lookup]
    | succ pos =>
      have hl : l[pos]? = some (k, v) := by simpa using h
      have hne : k ≠ e.1 :=
        fun heq => hnot (heq ▸ mem_keys.mpr ⟨v, List.mem_of_getElem? hl⟩)
      have hb : (k == e.1) = false := by simpa using hne
      simp only [List.lookup, hb]
      exact ih hn hl

theorem lookup_eq_none_of_not_mem {k : κ} {l : List (κ × β)} (h : k ∉ keys l) :
    l.lookup k = none := by
  refine List.lookup_eq_none_iff.mpr fun e he => ?_
  have : k ≠ e.1 := fun heq => h (heq ▸ List.mem_map_of_mem he)
  simpa using this

theorem nodup_remove {k : κ} {l : List (κ × β)} (hn : (keys l).Nodup) :
    (keys (remove k l)).Nodup := by
  rw [keys_remove]
  exact hn.filter _

/-- Moving a key to the back keeps the keys unique. -/
theorem nodup_remove_snoc {k : κ} {v : β} {l : List (κ × β)} (hn : (keys l).Nodup) :
    (keys (remove k l ++ [(k, v)])).Nodup := by
  have hk : k ∉ keys (remove k l) := by simp [keys_remove]
  rw [keys_append, List.nodup_append]
  refine ⟨nodup_remove hn, by simp [keys], fun a ha b hb heq => ?_⟩
  obtain rfl : b = k := by simpa [keys] using hb
  exact hk (heq ▸ ha)

omit [DecidableEq κ] in
/-- What is dropped is a prefix. -/
theorem trim_suffix (w : β → ℕ) (bound : ℕ) (l : List (κ × β)) : trim w bound l <:+ l := by
  induction l with
  | nil => exact List.suffix_refl _
  | cons e l ih =>
    unfold trim
    split
    · exact List.suffix_refl _
    · exact ih.trans (List.suffix_cons e l)

omit [DecidableEq κ] in
theorem weight_trim_le (w : β → ℕ) (bound : ℕ) (l : List (κ × β)) :
    weight w (trim w bound l) ≤ bound := by
  induction l with
  | nil => simp [trim]
  | cons e l ih =>
    unfold trim
    split
    · assumption
    · exact ih

omit [DecidableEq κ] in
theorem trim_eq_self {w : β → ℕ} {bound : ℕ} {l : List (κ × β)} (h : weight w l ≤ bound) :
    trim w bound l = l := by
  cases l with
  | nil => rfl
  | cons e l => simp only [trim, if_pos h]

omit [DecidableEq κ] in
/-- A last entry within the bound survives, whatever stands before it. -/
theorem trim_snoc_of_le {w : β → ℕ} {bound : ℕ} {l : List (κ × β)} {e : κ × β}
    (h : w e.2 ≤ bound) : ∃ m, m <:+ l ∧ trim w bound (l ++ [e]) = m ++ [e] := by
  induction l with
  | nil => exact ⟨[], List.suffix_refl _, trim_eq_self (by simpa using h)⟩
  | cons x l ih =>
    by_cases hw : weight w (x :: l ++ [e]) ≤ bound
    · exact ⟨x :: l, List.suffix_refl _, trim_eq_self hw⟩
    · obtain ⟨m, hm, htrim⟩ := ih
      refine ⟨m, hm.trans (List.suffix_cons x l), ?_⟩
      rw [← htrim]
      simp only [List.cons_append, trim] at hw ⊢
      rw [if_neg hw]

omit [DecidableEq κ] in
/-- A last entry beyond the bound takes everything with it. -/
theorem trim_snoc_of_lt {w : β → ℕ} {bound : ℕ} {l : List (κ × β)} {e : κ × β}
    (h : bound < w e.2) : trim w bound (l ++ [e]) = [] := by
  induction l with
  | nil => simp [trim, not_le.mpr h]
  | cons x l ih =>
    have hw : ¬ weight w (x :: l ++ [e]) ≤ bound := by
      simp only [weight_append, weight_cons, weight_nil]
      omega
    simp only [List.cons_append, trim] at hw ⊢
    rw [if_neg hw, ih]

section Order

variable {stamp : κ → ℕ}

/-- The keys stand in the order of their last use. -/
def ByLastUse (stamp : κ → ℕ) (l : List (κ × β)) : Prop :=
  (keys l).Pairwise fun a b => stamp a < stamp b

omit [DecidableEq κ] in
theorem byLastUse_nil : ByLastUse stamp ([] : List (κ × β)) := List.Pairwise.nil

omit [DecidableEq κ] in
theorem ByLastUse.of_suffix {l m : List (κ × β)} (h : ByLastUse stamp l) (hm : m <:+ l) :
    ByLastUse stamp m :=
  List.Pairwise.sublist (hm.sublist.map Prod.fst) h

theorem ByLastUse.remove {l : List (κ × β)} (k : κ) (h : ByLastUse stamp l) :
    ByLastUse stamp (remove k l) :=
  List.Pairwise.sublist (List.filter_sublist.map Prod.fst) h

/-- A later use of an absent key leaves the order as it is. -/
theorem ByLastUse.update {l : List (κ × β)} {k : κ} (h : ByLastUse stamp l) (hk : k ∉ keys l)
    (now : ℕ) : ByLastUse (Function.update stamp k now) l := by
  have hold : ∀ a ∈ keys l, Function.update stamp k now a = stamp a := fun a ha =>
    Function.update_of_ne (fun heq : a = k => hk (heq ▸ ha)) _ _
  refine List.Pairwise.imp_of_mem (fun ha hb hab => ?_) h
  rw [hold _ ha, hold _ hb]
  exact hab

/-- Using a key at a later time than all others moves it to the back of the order. -/
theorem ByLastUse.snoc {l : List (κ × β)} {k : κ} {now : ℕ} (h : ByLastUse stamp l)
    (hk : k ∉ keys l) (hnow : ∀ a, stamp a < now) (v : β) :
    ByLastUse (Function.update stamp k now) (l ++ [(k, v)]) := by
  simp only [ByLastUse, keys_append, List.pairwise_append]
  refine ⟨h.update hk now, by simp [keys], fun a ha b hb => ?_⟩
  obtain rfl : b = k := by simpa [keys] using hb
  have hne : a ≠ b := fun heq => hk (heq ▸ ha)
  rw [Function.update_of_ne hne, Function.update_self]
  exact hnow a

omit [DecidableEq κ] in
/-- What `trim` drops was used before everything it keeps. -/
theorem ByLastUse.trim_oldest {l : List (κ × β)} (h : ByLastUse stamp l) (w : β → ℕ)
    (bound : ℕ) {a b : κ} (ha : a ∈ keys l) (hdrop : a ∉ keys (trim w bound l))
    (hb : b ∈ keys (trim w bound l)) : stamp a < stamp b := by
  obtain ⟨p, hp⟩ := trim_suffix w bound l
  rw [← hp, keys_append, List.mem_append] at ha
  rw [ByLastUse, ← hp, keys_append, List.pairwise_append] at h
  exact h.2.2 a (ha.resolve_right hdrop) b hb

end Order

end PrtsMcp.LruList
