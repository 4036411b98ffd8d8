import Mathlib

/-!
# Maps in the order of their keys

Lists of keys and values in which an insertion keeps the keys ascending and replaces the value of a
key that is there.
-/
namespace PrtsMcp.SortedMap

variable {κ α : Type*} [LinearOrder κ]

def insert (key : κ) (value : α) : List (κ × α) → List (κ × α)
  | [] => [(key, value)]
  | entry :: rest =>
    if key < entry.1 then (key, value) :: entry :: rest
    else if entry.1 = key then (key, value) :: rest
    else entry :: insert key value rest

/-- All entries inserted one after the other. -/
def ofEntries (entries : List (κ × α)) : List (κ × α) :=
  entries.foldl (fun map entry => insert entry.1 entry.2 map) []

def Sorted (map : List (κ × α)) : Prop := map.Pairwise fun a b => a.1 < b.1

variable {key other : κ} {value : α} {map entries : List (κ × α)}

theorem lookup_insert (key : κ) (value : α) (map : List (κ × α)) (other : κ) :
    (insert key value map).lookup other = if other = key then some value else map.lookup other := by
  induction map with
  | nil =>
    rw [insert, List.lookup_cons, List.lookup_nil, beq_eq_decide]
    split <;> simp_all
  | cons entry rest ih =>
    rw [insert]
    split
    · rw [List.lookup_cons, beq_eq_decide]
      split <;> simp_all
    · split
      · next heq =>
        subst heq
        rw [List.lookup_cons, List.lookup_cons, beq_eq_decide]
        split <;> simp_all
      · next hne =>
        rw [List.lookup_cons, List.lookup_cons, ih]
        by_cases h : other = entry.1
        · have hother : other ≠ key := fun heq => hne (h.symm.trans heq)
          simp [h, hne]
        · rw [beq_false_of_ne h]

theorem lookup_foldl_insert (entries map : List (κ × α)) (key : κ) :
    (entries.foldl (fun map entry => insert entry.1 entry.2 map) map).lookup key =
      (entries.reverse.lookup key).or (map.lookup key) := by
  induction entries generalizing map with
  | nil => simp
  | cons entry rest ih =>
    rw [List.foldl_cons, ih, lookup_insert, List.reverse_cons, List.lookup_append, Option.or_assoc]
    congr 1
    rw [List.lookup_cons, List.lookup_nil, beq_eq_decide]
    by_cases h : key = entry.1 <;> simp [h]

/-- The last entry of a key counts. -/
theorem lookup_ofEntries (entries : List (κ × α)) (key : κ) :
    (ofEntries entries).lookup key = entries.reverse.lookup key := by
  rw [ofEntries, lookup_foldl_insert, List.lookup_nil, Option.or_none]

theorem mem_of_lookup (h : map.lookup key = some value) : (key, value) ∈ map := by
  obtain ⟨before, after, rfl, -⟩ := List.lookup_eq_some_iff.mp h
  simp

theorem mem_of_lookup_ofEntries (h : (ofEntries entries).lookup key = some value) :
    (key, value) ∈ entries := by
  rw [lookup_ofEntries] at h
  exact List.mem_reverse.mp (mem_of_lookup h)

/-- Where no key comes twice, every entry is found. -/
theorem lookup_of_mem (hnodup : (map.map Prod.fst).Nodup) (h : (key, value) ∈ map) :
    map.lookup key = some value := by
  induction map with
  | nil => simp at h
  | cons entry rest ih =>
    rw [List.map_cons, List.nodup_cons] at hnodup
    rw [List.lookup_cons]
    rcases List.mem_cons.mp h with rfl | hrest
    · rw [beq_self_eq_true]
    · have hne : key ≠ entry.1 := by
        rintro rfl
        exact hnodup.1 (List.mem_map.mpr ⟨_, hrest, rfl⟩)
      rw [beq_false_of_ne hne]
      exact ih hnodup.2 hrest

theorem lookup_ofEntries_of_mem (hnodup : (entries.map Prod.fst).Nodup)
    (h : (key, value) ∈ entries) : (ofEntries entries).lookup key = some value := by
  rw [lookup_ofEntries]
  apply lookup_of_mem
  · rw [List.map_reverse]
    exact List.nodup_reverse.mpr hnodup
  · exact List.mem_reverse.mpr h

theorem mem_of_mem_insert {entry : κ × α} (h : entry ∈ insert key value map) :
    entry = (key, value) ∨ entry ∈ map := by
  induction map with
  | nil => exact .inl (List.mem_singleton.mp h)
  | cons head rest ih =>
    rw [insert] at h
    split at h
    · exact List.mem_cons.mp h
    · split at h
      · rcases List.mem_cons.mp h with rfl | hrest
        · exact .inl rfl
        · exact .inr (List.mem_cons_of_mem _ hrest)
      · rcases List.mem_cons.mp h with rfl | hrest
        · exact .inr List.mem_cons_self
        · exact (ih hrest).imp id (List.mem_cons_of_mem _)

theorem Sorted.insert (h : Sorted map) (key : κ) (value : α) : Sorted (insert key value map) := by
  induction map with
  | nil => exact List.pairwise_singleton _ _
  | cons entry rest ih =>
    have hpair := List.pairwise_cons.mp h
    rw [SortedMap.insert]
    split
    · next hlt =>
      refine List.pairwise_cons.mpr ⟨?_, h⟩
      intro e he
      rcases List.mem_cons.mp he with rfl | hrest
      · exact hlt
      · exact hlt.trans (hpair.1 e hrest)
    · split
      · next heq =>
        subst heq
        exact List.pairwise_cons.mpr hpair
      · next hnlt hne =>
        refine List.pairwise_cons.mpr ⟨?_, ih hpair.2⟩
        intro e he
        rcases mem_of_mem_insert he with rfl | hrest
        · exact lt_of_le_of_ne (not_lt.mp hnlt) hne
        · exact hpair.1 e hrest

theorem sorted_foldl_insert (h : Sorted map) (entries : List (κ × α)) :
    Sorted (entries.foldl (fun map entry => insert entry.1 entry.2 map) map) := by
  induction entries generalizing map with
  | nil => exact h
  | cons entry rest ih => exact ih (h.insert entry.1 entry.2)

theorem sorted_ofEntries (entries : List (κ × α)) : Sorted (ofEntries entries) :=
  sorted_foldl_insert List.Pairwise.nil entries

theorem Sorted.nodup (h : Sorted map) : (map.map Prod.fst).Nodup :=
  List.pairwise_map.mpr (h.imp ne_of_lt)

theorem Sorted.mem_iff (h : Sorted map) : (key, value) ∈ map ↔ map.lookup key = some value :=
  ⟨lookup_of_mem h.nodup, mem_of_lookup⟩

end PrtsMcp.SortedMap
