import PrtsMcp.OrderedMap

/-!
# Upserts

Tables of rows under primary keys. A row whose key is taken updates the row that is there, in its
place, and any other row comes last.
-/
namespace PrtsMcp.Upserts

variable {κ σ β : Type*} [DecidableEq κ]

/-- `INSERT … ON CONFLICT DO UPDATE`: `update` takes the row that is there and the one inserted. -/
def upsert (update : σ → σ → σ) (row : κ × σ) : List (κ × σ) → List (κ × σ)
  | [] => [row]
  | entry :: table =>
    if entry.1 = row.1 then (entry.1, update entry.2 row.2) :: table else entry :: upsert update row table

def upsertAll (update : σ → σ → σ) (table rows : List (κ × σ)) : List (κ × σ) :=
  rows.foldl (fun table row => upsert update row table) table

section Lemmas

variable {update : σ → σ → σ} {row : κ × σ} {table rows : List (κ × σ)}

theorem upsertAll_append (others : List (κ × σ)) :
    upsertAll update table (rows ++ others) = upsertAll update (upsertAll update table rows) others :=
  List.foldl_append

theorem upsert_of_notMem (h : row.1 ∉ table.map Prod.fst) : upsert update row table = table ++ [row] := by
  induction table with
  | nil => rfl
  | cons entry table ih =>
    simp only [List.map_cons, List.mem_cons, not_or] at h
    have hne : ¬ entry.1 = row.1 := fun heq => h.1 heq.symm
    rw [upsert, if_neg hne, ih h.2, List.cons_append]

/-- Rows of different keys are appended. -/
theorem upsertAll_of_nodup (h : ((table ++ rows).map Prod.fst).Nodup) :
    upsertAll update table rows = table ++ rows := by
  induction rows generalizing table with
  | nil => simp [upsertAll]
  | cons row rows ih =>
    have hnot : row.1 ∉ table.map Prod.fst := by
      rw [List.map_append, List.map_cons] at h
      exact fun hmem => (List.nodup_append.mp h).2.2 _ hmem _ List.mem_cons_self rfl
    have hstep : upsertAll update table (row :: rows) = upsertAll update (table ++ [row]) rows := by
      rw [← upsert_of_notMem hnot]
      rfl
    rw [hstep, ih (by simpa using h), List.append_assoc, List.singleton_append]

/-- A selection by keys sees only the rows that it selects. -/
theorem filter_upsert (update : σ → σ → σ) (row : κ × σ) (table : List (κ × σ)) (p : κ → Bool) :
    (upsert update row table).filter (fun entry => p entry.1) =
      if p row.1 then upsert update row (table.filter fun entry => p entry.1)
      else table.filter fun entry => p entry.1 := by
  induction table with
  | nil => by_cases h : p row.1 <;> simp [upsert, h]
  | cons entry table ih =>
    rw [upsert]
    by_cases hkey : entry.1 = row.1
    · by_cases h : p row.1 <;> simp [upsert, hkey, h]
    · rw [if_neg hkey]
      by_cases hentry : p entry.1 <;> by_cases h : p row.1 <;>
        simp_all [upsert]

theorem filter_upsertAll (update : σ → σ → σ) (table rows : List (κ × σ)) (p : κ → Bool) :
    (upsertAll update table rows).filter (fun entry => p entry.1) =
      upsertAll update (table.filter fun entry => p entry.1) (rows.filter fun entry => p entry.1) := by
  induction rows generalizing table with
  | nil => rfl
  | cons row rows ih =>
    have hstep : upsertAll update table (row :: rows) = upsertAll update (upsert update row table) rows := rfl
    rw [hstep, ih, filter_upsert]
    by_cases h : p row.1
    · simp [h, upsertAll]
    · simp [h]

/-- Where an update shows what is inserted, the table is a map of what its rows show. -/
theorem mapValues_upsertAll (shown : σ → β) (h : ∀ old new, shown (update old new) = shown new) :
    OrderedMap.mapValues shown (upsertAll update table rows) =
      (OrderedMap.mapValues shown rows).foldl (fun map entry => OrderedMap.insert entry.1 entry.2 map)
        (OrderedMap.mapValues shown table) := by
  have hupsert : ∀ (row : κ × σ) (table : List (κ × σ)),
      OrderedMap.mapValues shown (upsert update row table) =
        OrderedMap.insert row.1 (shown row.2) (OrderedMap.mapValues shown table) := by
    intro row table
    induction table with
    | nil => rfl
    | cons entry table ih =>
      rw [upsert]
      by_cases hkey : entry.1 = row.1
      · simp [OrderedMap.mapValues, OrderedMap.insert, hkey, h]
      · rw [if_neg hkey]
        simp only [OrderedMap.mapValues, List.map_cons, OrderedMap.insert, if_neg hkey] at ih ⊢
        rw [ih]
  induction rows generalizing table with
  | nil => rfl
  | cons row rows ih =>
    have hstep : upsertAll update table (row :: rows) = upsertAll update (upsert update row table) rows := rfl
    rw [hstep, ih, hupsert]
    rfl

/-- Where an update keeps the place of what is there, the places stand as they were inserted. -/
theorem places_upsertAll (place : σ → β) (h : ∀ old new, place (update old new) = place old)
    (table rows : List (κ × σ)) :
    ((upsertAll update table rows).map fun entry => place entry.2).Sublist
      (table.map (fun entry => place entry.2) ++ rows.map fun entry => place entry.2) := by
  have hupsert : ∀ (row : κ × σ) (table : List (κ × σ)),
      ((upsert update row table).map fun entry => place entry.2).Sublist
        (table.map (fun entry => place entry.2) ++ [place row.2]) := by
    intro row table
    induction table with
    | nil => simp [upsert]
    | cons entry table ih =>
      rw [upsert]
      by_cases hkey : entry.1 = row.1
      · simp [hkey, h]
      · simpa [hkey] using ih
  induction rows generalizing table with
  | nil => simp [upsertAll]
  | cons row rows ih =>
    have hstep : upsertAll update table (row :: rows) = upsertAll update (upsert update row table) rows := rfl
    rw [hstep]
    refine (ih _).trans ?_
    have happend := (hupsert row table).append_right (rows.map fun entry => place entry.2)
    simpa using happend

end Lemmas

/-! ## Rows that stay -/

/-- `INSERT … ON CONFLICT DO NOTHING` -/
def keep (old _ : σ) : σ := old

theorem keys_upsert (update : σ → σ → σ) (row : κ × σ) (table : List (κ × σ)) :
    (upsert update row table).map Prod.fst =
      if row.1 ∈ table.map Prod.fst then table.map Prod.fst else table.map Prod.fst ++ [row.1] := by
  induction table with
  | nil => simp [upsert]
  | cons entry table ih =>
    rw [upsert]
    by_cases hkey : entry.1 = row.1
    · simp [hkey]
    · have hne : ¬ row.1 = entry.1 := fun heq => hkey heq.symm
      rw [if_neg hkey, List.map_cons, ih]
      by_cases hmem : row.1 ∈ table.map Prod.fst <;> simp_all

theorem nodup_upsertAll {update : σ → σ → σ} {table : List (κ × σ)} (rows : List (κ × σ))
    (h : (table.map Prod.fst).Nodup) : ((upsertAll update table rows).map Prod.fst).Nodup := by
  induction rows generalizing table with
  | nil => exact h
  | cons row rows ih =>
    have hstep : ((upsert update row table).map Prod.fst).Nodup := by
      rw [keys_upsert]
      split
      · exact h
      · next hnot => exact List.concat_eq_append ▸ h.concat hnot
    exact ih hstep

theorem upsert_keep_of_mem {row : κ × σ} {table : List (κ × σ)} (h : row.1 ∈ table.map Prod.fst) :
    upsert keep row table = table := by
  induction table with
  | nil => cases h
  | cons entry table ih =>
    rw [upsert]
    by_cases hkey : entry.1 = row.1
    · rw [if_pos hkey, keep]
    · have hne : ¬ row.1 = entry.1 := fun heq => hkey heq.symm
      rw [if_neg hkey, ih ((List.mem_cons.mp h).resolve_left hne)]

section Keep

variable [BEq κ] [LawfulBEq κ] {table rows : List (κ × σ)}

omit [DecidableEq κ] in
theorem lookup_isSome_iff {key : κ} : (table.lookup key).isSome ↔ key ∈ table.map Prod.fst := by
  rw [← Option.ne_none_iff_isSome, ne_eq, List.lookup_eq_none_iff]
  constructor
  · intro hsome
    by_contra hnot
    exact hsome fun entry hentry => bne_iff_ne.mpr fun heq => hnot (heq ▸ List.mem_map_of_mem hentry)
  · intro hmem hnone
    obtain ⟨entry, hentry, rfl⟩ := List.mem_map.mp hmem
    exact bne_iff_ne.mp (hnone entry hentry) rfl

theorem lookup_upsert_keep (row : κ × σ) (key : κ) (table : List (κ × σ)) :
    (upsert keep row table).lookup key = (table ++ [row]).lookup key := by
  induction table with
  | nil => rfl
  | cons entry table ih =>
    rw [upsert, List.cons_append, List.lookup_cons]
    by_cases hkey : entry.1 = row.1
    · rw [if_pos hkey, List.lookup_cons, List.lookup_append]
      by_cases hentry : key = entry.1
      · simp [hentry, keep]
      · have hne : (key == row.1) = false := beq_false_of_ne (hkey ▸ hentry)
        have hrow : [row].lookup key = none := by rw [List.lookup_cons, hne, List.lookup_nil]
        rw [beq_false_of_ne hentry, hrow, Option.or_none]
    · rw [if_neg hkey, List.lookup_cons, ih]

/-- The first row of a key is the one that stays. -/
theorem lookup_upsertAll_keep (key : κ) :
    (upsertAll keep table rows).lookup key = (table ++ rows).lookup key := by
  induction rows generalizing table with
  | nil => simp [upsertAll]
  | cons row rows ih =>
    have hstep : upsertAll keep table (row :: rows) = upsertAll keep (upsert keep row table) rows := rfl
    rw [hstep, ih, List.lookup_append, lookup_upsert_keep, ← List.lookup_append]
    simp

omit [DecidableEq κ] in
/-- With different keys, the rows are what is found. -/
theorem mem_iff_lookup (h : (table.map Prod.fst).Nodup) {row : κ × σ} :
    row ∈ table ↔ table.lookup row.1 = some row.2 := by
  constructor
  · intro hrow
    obtain ⟨before, after, rfl⟩ := List.append_of_mem hrow
    rw [List.lookup_eq_some_iff]
    refine ⟨before, after, rfl, fun other hother => ?_⟩
    rw [List.map_append, List.nodup_append] at h
    exact bne_iff_ne.mpr (h.2.2 _ (List.mem_map_of_mem hother) _ (by simp)).symm
  · intro hlookup
    obtain ⟨before, after, rfl, -⟩ := List.lookup_eq_some_iff.mp hlookup
    simp

/-- Where rows of one key are equal, those that stay are those that were inserted. -/
theorem mem_upsertAll_keep (hagree : ∀ row ∈ rows, ∀ other ∈ rows, row.1 = other.1 → row = other)
    {row : κ × σ} : row ∈ upsertAll keep [] rows ↔ row ∈ rows := by
  have hnodup : ((upsertAll keep [] rows).map Prod.fst).Nodup := nodup_upsertAll rows (by simp)
  rw [mem_iff_lookup hnodup, lookup_upsertAll_keep, List.nil_append]
  constructor
  · intro hlookup
    obtain ⟨before, after, rfl, -⟩ := List.lookup_eq_some_iff.mp hlookup
    simp
  · intro hrow
    cases hlookup : rows.lookup row.1 with
    | none =>
      rw [List.lookup_eq_none_iff] at hlookup
      simpa using hlookup row hrow
    | some found =>
      obtain ⟨before, after, heq, -⟩ := List.lookup_eq_some_iff.mp hlookup
      have hfound : (row.1, found) ∈ rows := by simp [heq]
      rw [← hagree _ hfound row hrow rfl]

end Keep

omit [DecidableEq κ] in
/-- The row of a key is among the rows selected by a property of the key. -/
theorem lookup_filter_keys [BEq κ] [LawfulBEq κ] (p : κ → Bool) (key : κ) (hp : p key = true)
    (table : List (κ × σ)) : (table.filter fun entry => p entry.1).lookup key = table.lookup key := by
  induction table with
  | nil => rfl
  | cons entry table ih =>
    by_cases hentry : p entry.1 = true
    · have hfilter : (entry :: table).filter (fun entry => p entry.1) =
          entry :: table.filter fun entry => p entry.1 := List.filter_cons_of_pos hentry
      rw [hfilter, List.lookup_cons, List.lookup_cons, ih]
    · have hfilter : (entry :: table).filter (fun entry => p entry.1) =
          table.filter fun entry => p entry.1 := List.filter_cons_of_neg hentry
      have hne : (key == entry.1) = false := beq_false_of_ne fun heq => hentry (heq ▸ hp)
      rw [hfilter, List.lookup_cons, hne, ih]

omit [DecidableEq κ] in
theorem lookup_mapValues [BEq κ] [LawfulBEq κ] (f : σ → β) (key : κ) (table : List (κ × σ)) :
    (OrderedMap.mapValues f table).lookup key = (table.lookup key).map f := by
  induction table with
  | nil => rfl
  | cons entry table ih =>
    have hcons : OrderedMap.mapValues f (entry :: table) = (entry.1, f entry.2) :: OrderedMap.mapValues f table := rfl
    rw [hcons, List.lookup_cons, List.lookup_cons]
    by_cases hkey : key = entry.1
    · simp [hkey]
    · rw [beq_false_of_ne hkey]
      exact ih

end PrtsMcp.Upserts
