import Mathlib

/-!
# Tables

Rows that are written group after group, each group under a key of its own, and what a selection by
the key or by a range of places reads back.
-/
namespace PrtsMcp.Tables

variable {ι α κ : Type*}

/-- The rows of one key are the rows of its group. -/
theorem filter_key [DecidableEq κ] {f : ι → List α} (key : ι → κ) (keyOf : α → κ)
    (hkey : ∀ i, ∀ x ∈ f i, keyOf x = key i) {i : ι} {all : List ι} (hmem : i ∈ all)
    (hnodup : (all.map key).Nodup) :
    (all.flatMap f).filter (fun x => keyOf x = key i) = f i := by
  have hother : ∀ other, key other ≠ key i → (f other).filter (fun x => keyOf x = key i) = [] :=
    fun other hne => List.filter_eq_nil_iff.mpr fun x hx heq =>
      hne ((hkey other x hx).symm.trans (of_decide_eq_true heq))
  have hself : (f i).filter (fun x => keyOf x = key i) = f i :=
    List.filter_eq_self.mpr fun x hx => decide_eq_true (hkey i x hx)
  induction all with
  | nil => simp at hmem
  | cons head all ih =>
    rw [List.flatMap_cons, List.filter_append]
    rw [List.map_cons, List.nodup_cons] at hnodup
    rcases List.mem_cons.mp hmem with rfl | hmem
    · have hrest : (all.flatMap f).filter (fun x => keyOf x = key i) = [] := by
        rw [List.filter_flatMap, List.flatMap_eq_nil_iff]
        exact fun other hmem => hother other fun heq =>
          hnodup.1 (heq ▸ List.mem_map_of_mem hmem)
      rw [hself, hrest, List.append_nil]
    · have hne : key head ≠ key i := fun heq => hnodup.1 (heq ▸ List.mem_map_of_mem hmem)
      rw [hother head hne, List.nil_append, ih hmem hnodup.2]

/-- A selection of groups is a selection of their rows. -/
theorem flatMap_filter {f : ι → List α} {p : ι → Bool} {selects : α → Bool}
    (h : ∀ i, ∀ x ∈ f i, selects x = p i) (all : List ι) :
    (all.filter p).flatMap f = (all.flatMap f).filter selects := by
  induction all with
  | nil => rfl
  | cons i all ih =>
    rw [List.flatMap_cons, List.filter_append, ← ih]
    cases hi : p i with
    | true =>
      have hrows : (f i).filter selects = f i :=
        List.filter_eq_self.mpr fun x hx => (h i x hx).trans hi
      rw [List.filter_cons_of_pos hi, List.flatMap_cons, hrows]
    | false =>
      have hrows : (f i).filter selects = [] :=
        List.filter_eq_nil_iff.mpr fun x hx => by rw [h i x hx, hi]; exact Bool.false_ne_true
      rw [List.filter_cons_of_neg (by simp [hi]), hrows, List.nil_append]

/-- The row of a key that no two rows share. -/
theorem find?_key [DecidableEq κ] {key : α → κ} {xs : List α} (hnodup : (xs.map key).Nodup) {x : α}
    (hx : x ∈ xs) : (xs.find? fun y => key y = key x) = some x := by
  induction xs with
  | nil => simp at hx
  | cons head xs ih =>
    rw [List.map_cons, List.nodup_cons] at hnodup
    rcases List.mem_cons.mp hx with rfl | hx
    · rw [List.find?_cons_of_pos (by simp)]
    · have hne : key head ≠ key x := fun heq => hnodup.1 (heq ▸ List.mem_map_of_mem hx)
      rw [List.find?_cons_of_neg (by simpa using hne), ih hnodup.2 hx]

theorem nodup_map_snd_zipIdx (xs : List α) : (xs.zipIdx.map Prod.snd).Nodup := by
  rw [List.zipIdx_map_snd]
  exact List.nodup_range'

theorem exists_mem_zipIdx {xs : List α} {x : α} (h : x ∈ xs) : ∃ i, (x, i) ∈ xs.zipIdx := by
  obtain ⟨i, hi⟩ := List.mem_iff_getElem?.mp h
  exact ⟨i, List.mk_mem_zipIdx_iff_getElem?.mpr hi⟩

/-- A selection by places is a piece of the list. -/
theorem filter_zipIdx (xs : List α) (first last n : ℕ) :
    ((xs.zipIdx n).filter fun entry => decide (first ≤ entry.2 ∧ entry.2 ≤ last)) =
      ((xs.zipIdx n).drop (first - n)).take (last + 1 - max first n) := by
  induction xs generalizing n with
  | nil => simp
  | cons x xs ih =>
    rw [List.zipIdx_cons]
    by_cases hlow : first ≤ n
    · have hdrop : first - n = 0 := by omega
      have hdrop' : first - (n + 1) = 0 := by omega
      have hmax : max first n = n := max_eq_right hlow
      have hmax' : max first (n + 1) = n + 1 := max_eq_right (by omega)
      rw [hdrop, List.drop_zero, hmax]
      by_cases hhigh : n ≤ last
      · have htake : last + 1 - n = last + 1 - (n + 1) + 1 := by omega
        rw [List.filter_cons_of_pos (by simp [hlow, hhigh]), ih, hdrop', hmax', htake,
          List.drop_zero, List.take_succ_cons]
      · have htake : last + 1 - n = 0 := by omega
        have htake' : last + 1 - (n + 1) = 0 := by omega
        rw [List.filter_cons_of_neg (by simp [hhigh]), ih, hmax', htake, htake', List.take_zero,
          List.take_zero]
    · have hdrop : first - n = first - (n + 1) + 1 := by omega
      have hmax : max first n = max first (n + 1) := by omega
      rw [List.filter_cons_of_neg (by simp [hlow]), ih, hdrop, hmax, List.drop_succ_cons]

/-- The same piece, place by place. -/
theorem filterMap_range' (xs : List α) (first count : ℕ) :
    ((List.range' first count).filterMap fun i => xs[i]?.map fun x => (x, i)) =
      (xs.zipIdx.drop first).take count := by
  induction count generalizing first with
  | zero => simp
  | succ count ih =>
    rw [List.range'_succ, List.filterMap_cons, ih]
    by_cases hlt : first < xs.length
    · have hlt' : first < xs.zipIdx.length := by rwa [List.length_zipIdx]
      rw [List.getElem?_eq_getElem hlt, List.drop_eq_getElem_cons hlt', List.take_succ_cons,
        List.getElem_zipIdx]
      simp
    · have hnone : xs[first]? = none := List.getElem?_eq_none (by omega)
      have hdrop : xs.zipIdx.drop first = [] := by simp; omega
      have hdrop' : xs.zipIdx.drop (first + 1) = [] := by simp; omega
      rw [hnone, hdrop, hdrop']
      simp

/-- A piece of the list, with places counted from its own beginning. -/
theorem zipIdx_piece (xs : List α) (first count : ℕ) :
    ((xs.drop first).take count).zipIdx =
      ((xs.zipIdx.drop first).take count).map fun entry => (entry.1, entry.2 - first) := by
  apply List.ext_getElem?
  intro i
  by_cases hi : i < count
  · simp only [List.getElem?_zipIdx, List.getElem?_map, List.getElem?_take, List.getElem?_drop,
      if_pos hi, Option.map_map]
    congr 1
    funext x
    simp
  · simp [hi]

theorem filter_zipIdx_fst (xs : List α) (p : α → Bool) :
    ((xs.zipIdx.filter fun x => p x.1).map Prod.fst) = xs.filter p := by
  conv_rhs => rw [← List.zipIdx_map_fst 0 xs, List.filter_map]
  rfl

theorem pairwise_place (xs : List α) : xs.zipIdx.Pairwise fun a b => a.2 < b.2 := by
  have hplaces : (xs.zipIdx.map Prod.snd).Pairwise (· < ·) := by
    rw [List.zipIdx_map_snd, ← List.range_eq_range']
    exact List.pairwise_lt_range
  exact List.pairwise_map.mp hplaces

end PrtsMcp.Tables
