import Mathlib

/-!
# Maps in insertion order

Lists of keys and values in which an insertion replaces the value of a key that is there, in its
place, and else comes last. With them, the look-up tables that find such a place.
-/
namespace PrtsMcp.OrderedMap

variable {κ α β : Type*} [DecidableEq κ]

def insert (key : κ) (value : α) : List (κ × α) → List (κ × α)
  | [] => [(key, value)]
  | entry :: rest =>
    if entry.1 = key then (entry.1, value) :: rest else entry :: insert key value rest

/-- All entries inserted one after the other. -/
def ofEntries (entries : List (κ × α)) : List (κ × α) :=
  entries.foldl (fun map entry => insert entry.1 entry.2 map) []

def mapValues (f : α → β) (map : List (κ × α)) : List (κ × β) :=
  map.map fun entry => (entry.1, f entry.2)

/-- The values that `f` keeps, changed by it. -/
def filterValues (f : κ → α → Option β) (map : List (κ × α)) : List (κ × β) :=
  map.filterMap fun entry => (f entry.1 entry.2).map (Prod.mk entry.1)

section Insert

variable {key : κ} {value : α} {map : List (κ × α)}

theorem keys_insert (key : κ) (value : α) (map : List (κ × α)) :
    (insert key value map).map Prod.fst =
      if key ∈ map.map Prod.fst then map.map Prod.fst else map.map Prod.fst ++ [key] := by
  induction map with
  | nil => simp [insert]
  | cons entry rest ih =>
    rw [insert]
    by_cases h : entry.1 = key
    · rw [if_pos h]
      simp [h]
    · have hne : ¬ key = entry.1 := fun heq => h heq.symm
      rw [if_neg h, List.map_cons, ih]
      by_cases hmem : key ∈ rest.map Prod.fst
      · have hin : key ∈ (entry :: rest).map Prod.fst := List.mem_cons_of_mem _ hmem
        rw [if_pos hmem, if_pos hin, List.map_cons]
      · have hnot : key ∉ (entry :: rest).map Prod.fst := by
          rw [List.map_cons, List.mem_cons]
          exact fun hor => hor.elim hne hmem
        rw [if_neg hmem, if_neg hnot, List.map_cons, List.cons_append]

theorem nodup_insert (h : (map.map Prod.fst).Nodup) (key : κ) (value : α) :
    ((insert key value map).map Prod.fst).Nodup := by
  rw [keys_insert]
  split
  · exact h
  · next hmem =>
    rw [← List.concat_eq_append]
    exact List.Nodup.concat hmem h

theorem insert_of_notMem (h : key ∉ map.map Prod.fst) : insert key value map = map ++ [(key, value)] := by
  induction map with
  | nil => rfl
  | cons entry rest ih =>
    rw [List.map_cons, List.mem_cons, not_or] at h
    rw [insert, if_neg (fun heq => h.1 heq.symm), ih h.2]
    rfl

theorem eq_or_mem_of_mem_insert {entry : κ × α} (h : entry ∈ insert key value map) :
    entry = (key, value) ∨ entry ∈ map := by
  induction map with
  | nil => exact .inl (List.mem_singleton.mp h)
  | cons head rest ih =>
    rw [insert] at h
    split at h
    · next heq =>
      rcases List.mem_cons.mp h with rfl | h
      · exact .inl (by rw [heq])
      · exact .inr (List.mem_cons_of_mem _ h)
    · rcases List.mem_cons.mp h with rfl | h
      · exact .inr List.mem_cons_self
      · exact (ih h).imp_right (List.mem_cons_of_mem _)

omit [DecidableEq κ] in
theorem keys_mapValues (f : α → β) (map : List (κ × α)) :
    (mapValues f map).map Prod.fst = map.map Prod.fst := by
  simp [mapValues, Function.comp_def]

theorem mapValues_insert (f : α → β) :
    mapValues f (insert key value map) = insert key (f value) (mapValues f map) := by
  induction map with
  | nil => rfl
  | cons entry rest ih =>
    simp only [mapValues, insert, List.map_cons] at ih ⊢
    split
    · rfl
    · rw [List.map_cons, ih]

/-- What is kept of a key depends on the key alone. -/
theorem filterValues_insert_some {f : κ → α → Option β} {b : β}
    (hkey : ∀ a, (f key a).isSome = true) (hvalue : f key value = some b) :
    filterValues f (insert key value map) = insert key b (filterValues f map) := by
  induction map with
  | nil => simp [insert, filterValues, hvalue]
  | cons entry rest ih =>
    rw [insert]
    by_cases h : entry.1 = key
    · subst h
      obtain ⟨old, hold⟩ := Option.isSome_iff_exists.mp (hkey entry.2)
      rw [if_pos rfl]
      simp [filterValues, hold, hvalue, insert]
    · rw [if_neg h]
      cases hentry : f entry.1 entry.2 with
      | none => simpa [filterValues, hentry] using ih
      | some a =>
        have hfilter : filterValues f (entry :: rest) = (entry.1, a) :: filterValues f rest := by
          simp [filterValues, hentry]
        have hinsert : filterValues f (entry :: insert key value rest) =
            (entry.1, a) :: filterValues f (insert key value rest) := by
          simp [filterValues, hentry]
        rw [hfilter, hinsert, ih, insert, if_neg h]

theorem filterValues_insert_none {f : κ → α → Option β} (hkey : ∀ a, f key a = none) :
    filterValues f (insert key value map) = filterValues f map := by
  induction map with
  | nil => simp [insert, filterValues, hkey]
  | cons entry rest ih =>
    rw [insert]
    by_cases h : entry.1 = key
    · subst h
      simp [filterValues, hkey]
    · rw [if_neg h]
      simp only [filterValues, List.filterMap_cons] at ih ⊢
      rw [ih]

/-- A key that is never left out is found with what is kept of its value. -/
theorem lookup_filterValues {f : κ → α → Option β} {g : α → β} (hkey : ∀ a, f key a = some (g a)) :
    (filterValues f map).lookup key = (map.lookup key).map g := by
  induction map with
  | nil => rfl
  | cons entry rest ih =>
    by_cases h : key = entry.1
    · subst h
      rw [List.lookup_cons_self]
      simp [filterValues, hkey]
    · have hne : (key == entry.1) = false := beq_false_of_ne h
      rw [List.lookup_cons, hne, ← ih]
      simp only [filterValues, List.filterMap_cons]
      cases f entry.1 entry.2 with
      | none => rfl
      | some b => rw [Option.map_some, List.lookup_cons, hne]

theorem lookup_mapEntries (f : κ → α → β) (map : List (κ × α)) (key : κ) :
    (map.map fun entry => (entry.1, f entry.1 entry.2)).lookup key = (map.lookup key).map (f key) := by
  have hfilter : filterValues (fun key a => some (f key a)) map =
      map.map fun entry => (entry.1, f entry.1 entry.2) := by
    rw [filterValues, ← List.filterMap_eq_map]
    rfl
  rw [← hfilter]
  exact lookup_filterValues fun _ => rfl

theorem lookup_mapValues (f : α → β) (map : List (κ × α)) (key : κ) :
    (mapValues f map).lookup key = (map.lookup key).map f := lookup_mapEntries (fun _ => f) map key

/-- With different keys, the entries of a key are the one that is found. -/
theorem filter_key_of_nodup (h : (map.map Prod.fst).Nodup) :
    map.filter (fun entry => entry.1 = key) = ((map.lookup key).map (Prod.mk key)).toList := by
  induction map with
  | nil => rfl
  | cons entry rest ih =>
    obtain ⟨hnot, hrest⟩ := List.nodup_cons.mp h
    by_cases hentry : entry.1 = key
    · subst hentry
      have hnone : rest.filter (fun other => other.1 = entry.1) = [] := by
        rw [List.filter_eq_nil_iff]
        intro other hother
        simpa using fun heq : other.1 = entry.1 => hnot (heq ▸ List.mem_map_of_mem hother)
      rw [List.filter_cons_of_pos (by simp), hnone, List.lookup_cons_self]
      rfl
    · have hne : (key == entry.1) = false := beq_false_of_ne fun heq => hentry heq.symm
      rw [List.filter_cons_of_neg (by simpa using hentry), ih hrest, List.lookup_cons, hne]

theorem foldl_insert_of_nodup (map acc : List (κ × α)) (h : ((acc ++ map).map Prod.fst).Nodup) :
    map.foldl (fun map entry => insert entry.1 entry.2 map) acc = acc ++ map := by
  induction map generalizing acc with
  | nil => simp
  | cons entry rest ih =>
    have hnot : entry.1 ∉ acc.map Prod.fst := by
      rw [List.map_append, List.map_cons] at h
      exact fun hmem => (List.nodup_append.mp h).2.2 _ hmem _ List.mem_cons_self rfl
    rw [List.foldl_cons, insert_of_notMem hnot, ih]
    · simp
    · simpa using h

/-- Renaming the keys one to one goes through an insertion. -/
theorem insert_mapKeys {κ' : Type*} [DecidableEq κ'] {f : κ → κ'} (hf : Function.Injective f) (key : κ)
    (value : α) (map : List (κ × α)) :
    insert (f key) value (map.map fun entry => (f entry.1, entry.2)) =
      (insert key value map).map fun entry => (f entry.1, entry.2) := by
  induction map with
  | nil => rfl
  | cons entry rest ih =>
    by_cases h : entry.1 = key
    · simp [insert, h]
    · have hne : ¬ f entry.1 = f key := fun heq => h (hf heq)
      rw [List.map_cons, insert, insert, if_neg hne, if_neg h, ih, List.map_cons]

theorem ofEntries_mapKeys {κ' : Type*} [DecidableEq κ'] {f : κ → κ'} (hf : Function.Injective f)
    (entries : List (κ × α)) :
    ofEntries (entries.map fun entry => (f entry.1, entry.2)) =
      (ofEntries entries).map fun entry => (f entry.1, entry.2) := by
  have hfold : ∀ acc : List (κ × α),
      (entries.map fun entry => (f entry.1, entry.2)).foldl
        (fun map entry => insert entry.1 entry.2 map) (acc.map fun entry => (f entry.1, entry.2)) =
      (entries.foldl (fun map entry => insert entry.1 entry.2 map) acc).map
        fun entry => (f entry.1, entry.2) := by
    induction entries with
    | nil => exact fun _ => rfl
    | cons entry entries ih =>
      intro acc
      rw [List.map_cons, List.foldl_cons, insert_mapKeys hf, ih, List.foldl_cons]
  exact hfold []

/-- Entries of different keys stay as they are. -/
theorem ofEntries_of_nodup (h : (map.map Prod.fst).Nodup) : ofEntries map = map :=
  foldl_insert_of_nodup map [] (by simpa using h)

end Insert

section Lookup

variable {key k : κ} {value : α} {map : List (κ × α)}

theorem lookup_insert_self : (insert key value map).lookup key = some value := by
  induction map with
  | nil => simp [insert]
  | cons entry rest ih =>
    rw [insert]
    by_cases h : entry.1 = key
    · subst h
      simp
    · have hne : (key == entry.1) = false := beq_false_of_ne fun heq => h heq.symm
      rw [if_neg h, List.lookup_cons, hne]
      exact ih

theorem lookup_insert_of_ne (hk : k ≠ key) : (insert key value map).lookup k = map.lookup k := by
  have hne : (k == key) = false := beq_false_of_ne hk
  induction map with
  | nil => simp [insert, List.lookup_cons, hne]
  | cons entry rest ih =>
    rw [insert]
    by_cases h : entry.1 = key
    · rw [if_pos h, List.lookup_cons, List.lookup_cons, h, hne]
    · rw [if_neg h, List.lookup_cons, List.lookup_cons, ih]

theorem lookup_filter_self : (map.filter (·.1 ≠ key)).lookup key = none := by
  rw [List.lookup_eq_none_iff]
  intro entry hentry
  rw [List.mem_filter] at hentry
  exact bne_iff_ne.mpr fun heq => of_decide_eq_true hentry.2 heq.symm

theorem lookup_filter_of_ne (hk : k ≠ key) : (map.filter (·.1 ≠ key)).lookup k = map.lookup k := by
  induction map with
  | nil => rfl
  | cons entry rest ih =>
    by_cases h : entry.1 = key
    · have hne : (k == entry.1) = false := beq_false_of_ne fun heq => hk (heq.trans h)
      rw [List.filter_cons_of_neg (by simpa using h), ih, List.lookup_cons, hne]
    · rw [List.filter_cons_of_pos (by simpa using h), List.lookup_cons, List.lookup_cons, ih]

end Lookup

section Positions

/-- A table from keys to places. -/
def Locates (table : List (κ × ℕ)) (map : List (κ × α)) : Prop :=
  ∀ key, table.lookup key = map.findIdx? fun entry => entry.1 = key

/-- Every key with its place, from a first one on. -/
def placesFrom (start : ℕ) (map : List (κ × α)) : List (κ × ℕ) :=
  (map.zipIdx start).map fun entry => (entry.1.1, entry.2)

theorem lookup_placesFrom (start : ℕ) (map : List (κ × α)) (key : κ) :
    (placesFrom start map).lookup key =
      (map.findIdx? fun entry => entry.1 = key).map (start + ·) := by
  induction map generalizing start with
  | nil => rfl
  | cons entry rest ih =>
    simp only [placesFrom] at ih
    by_cases h : entry.1 = key
    · subst h
      simp [placesFrom, List.findIdx?_cons]
    · have hne : (key == entry.1) = false := beq_false_of_ne fun heq => h heq.symm
      simp only [placesFrom, List.zipIdx_cons, List.map_cons, List.lookup_cons, hne]
      rw [ih (start + 1), List.findIdx?_cons, if_neg (by simpa using h), Option.map_map]
      congr 1
      funext i
      simp only [Function.comp_apply]
      omega

theorem locates_places (map : List (κ × α)) : Locates (placesFrom 0 map) map := by
  intro key
  rw [lookup_placesFrom]
  simp

theorem findIdx?_eq_none_iff_notMem {map : List (κ × α)} {key : κ} :
    (map.findIdx? fun entry => entry.1 = key) = none ↔ key ∉ map.map Prod.fst := by
  rw [List.findIdx?_eq_none_iff]
  simp only [List.mem_map, not_exists, not_and, decide_eq_false_iff_not]

/-- Changing the value where the key is found is an insertion. -/
theorem insert_of_findIdx? {map : List (κ × α)} {key : κ} {value : α} {i : ℕ}
    (h : (map.findIdx? fun entry => entry.1 = key) = some i) :
    map.modify i (fun entry => (entry.1, value)) = insert key value map := by
  induction map generalizing i with
  | nil => cases h
  | cons entry rest ih =>
    rw [List.findIdx?_cons] at h
    by_cases hkey : entry.1 = key
    · rw [if_pos (by simpa using hkey)] at h
      obtain rfl : 0 = i := Option.some.inj h
      rw [insert, if_pos hkey]
      rfl
    · rw [if_neg (by simpa using hkey)] at h
      obtain ⟨j, hj, rfl⟩ := Option.map_eq_some_iff.mp h
      rw [insert, if_neg hkey, ← ih hj]
      rfl

theorem Locates.insert_of_mem {table : List (κ × ℕ)} {map : List (κ × α)} (h : Locates table map)
    {key : κ} (hmem : key ∈ map.map Prod.fst) (value : α) :
    Locates table (insert key value map) := by
  intro k
  rw [h k]
  have hkeys := keys_insert key value map
  rw [if_pos hmem] at hkeys
  have hfind : ∀ l : List (κ × α), (l.findIdx? fun entry => entry.1 = k) =
      (l.map Prod.fst).findIdx? fun x => x = k := by
    intro l
    rw [List.findIdx?_map]
    rfl
  rw [hfind, hfind, hkeys]

theorem Locates.insert_of_notMem {table : List (κ × ℕ)} {map : List (κ × α)}
    (h : Locates table map) {key : κ} (hnot : key ∉ map.map Prod.fst) (value : α) :
    Locates ((key, map.length) :: table) (insert key value map) := by
  intro k
  rw [OrderedMap.insert_of_notMem hnot, List.findIdx?_append, List.lookup_cons]
  by_cases hk : k = key
  · subst hk
    rw [findIdx?_eq_none_iff_notMem.mpr hnot]
    simp
  · have hne : (k == key) = false := beq_false_of_ne hk
    have hlast : ([(key, value)].findIdx? fun entry => entry.1 = k) = none := by
      simpa [List.findIdx?_cons] using fun heq : key = k => hk heq.symm
    rw [hne, hlast, h k]
    simp

end Positions

end PrtsMcp.OrderedMap
