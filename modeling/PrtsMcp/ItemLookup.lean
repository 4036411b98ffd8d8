import PrtsMcp.Fallible
import PrtsMcp.Listings

/-!
# Items by id or name

One map finds an item by its id and by its name. An id always means itself, and a name the first item
that bears it.
-/
namespace PrtsMcp.ItemLookup

open Fallible (okOr)
open Listings (getStr excelMissingMessage)
open OrderedMap (insert lookup_insert_self lookup_insert_of_ne)
open StoryListing (Table)
open Zodish (Value)

abbrev Lookup := List (String × String)

/-- The name of an item, unless it is empty. -/
def nameOf (info : Value) : Option String := (getStr info "name").filter (· ≠ "")

/-- An id replaces a name that is equal to it, a name replaces nothing. -/
def addItem (lookup : Lookup) (entry : String × Value) : Lookup :=
  let lookup := insert entry.1 entry.1 lookup
  match nameOf entry.2 with
  | some name => if (lookup.lookup name).isSome then lookup else insert name entry.1 lookup
  | none => lookup

def itemLookup (items : Except String Table) : Except String Lookup :=
  items.map fun items => items.foldl addItem []

/-- The item that `build_item_info` describes. -/
def findItem (excelPath : String) (items : Except String Table) (name : String) :
    Except String (String × Value) := do
  let lookup ← (itemLookup items).mapError fun message =>
    excelMissingMessage "物品" excelPath ++ "（" ++ message ++ "）"
  match lookup.lookup name with
  | none => throw ("未找到物品：" ++ Json.quoted name ++ "。")
  | some itemId =>
    match (← items).lookup itemId with
    | none => throw ("物品 " ++ Json.quoted name ++ " 暂无详细信息。")
    | some info => return (itemId, info)

/-- The item that a string means: the one with this id, or else the first one with this name. -/
def resolved (items : Table) (s : String) : Option String :=
  if s ∈ items.map Prod.fst then some s
  else (items.find? fun entry => nameOf entry.2 = some s).map Prod.fst

theorem lookup_addItem (lookup : Lookup) (entry : String × Value) (s : String) :
    (addItem lookup entry).lookup s =
      if s = entry.1 then some s
      else (lookup.lookup s).or (if nameOf entry.2 = some s then some entry.1 else none) := by
  have hid : (insert entry.1 entry.1 lookup).lookup s =
      if s = entry.1 then some s else lookup.lookup s := by
    by_cases hs : s = entry.1
    · rw [if_pos hs, hs, lookup_insert_self]
    · rw [if_neg hs, lookup_insert_of_ne hs]
  rw [addItem]
  cases hname : nameOf entry.2 with
  | none => simpa using hid
  | some name =>
    by_cases hs : s = entry.1
    · rw [if_pos hs] at hid ⊢
      dsimp only
      split
      · exact hid
      · next hnew =>
        have hne : s ≠ name := by
          rintro rfl
          exact hnew (by rw [hid]; rfl)
        rw [lookup_insert_of_ne hne, hid]
    · rw [if_neg hs] at hid ⊢
      dsimp only
      by_cases heq : name = s
      · subst heq
        rw [hid, if_pos rfl]
        cases hold : lookup.lookup name with
        | some found => rw [Option.isSome_some, if_pos rfl, hid, hold, Option.some_or]
        | none => rw [Option.isSome_none, if_neg Bool.false_ne_true, lookup_insert_self, Option.none_or]
      · rw [if_neg (fun h => heq (Option.some.inj h)), Option.or_none]
        split
        · exact hid
        · rw [lookup_insert_of_ne (Ne.symm heq), hid]

theorem resolved_concat (items : Table) (entry : String × Value) (s : String) :
    resolved (items ++ [entry]) s =
      if s = entry.1 then some s
      else (resolved items s).or (if nameOf entry.2 = some s then some entry.1 else none) := by
  simp only [resolved, List.map_append, List.mem_append, List.find?_append]
  by_cases hs : s = entry.1
  · subst hs
    simp
  · rw [if_neg hs]
    by_cases hmem : s ∈ items.map Prod.fst
    · rw [if_pos (.inl hmem), if_pos hmem, Option.some_or]
    · have hnot : ¬ (s ∈ items.map Prod.fst ∨ s ∈ [entry].map Prod.fst) := by
        simp [hs]
        simpa using hmem
      rw [if_neg hnot, if_neg hmem]
      cases items.find? fun entry => nameOf entry.2 = some s with
      | some found => rfl
      | none =>
        by_cases hname : nameOf entry.2 = some s
        · simp [hname]
        · simp [hname]

theorem lookup_foldl_addItem (items : Table) (s : String) :
    (items.foldl addItem []).lookup s = resolved items s := by
  induction items using List.reverseRecOn with
  | nil => rfl
  | append_singleton items entry ih =>
    rw [List.foldl_append, List.foldl_cons, List.foldl_nil, lookup_addItem, ih, resolved_concat]

/-- Whatever the order of the items, an id finds itself, and any other string the first item whose
name it is. -/
theorem itemLookup_resolves (items : Table) :
    ∃ lookup, itemLookup (.ok items) = .ok lookup ∧ ∀ s, lookup.lookup s =
      if s ∈ items.map Prod.fst then some s
      else (items.find? fun entry => nameOf entry.2 = some s).map Prod.fst :=
  ⟨_, rfl, lookup_foldl_addItem items⟩

/-- What is found has an entry. -/
theorem isSome_lookup_of_resolved {items : Table} {s id : String} (h : resolved items s = some id) :
    (items.lookup id).isSome = true := by
  have hmem : id ∈ items.map Prod.fst := by
    rw [resolved] at h
    split at h
    · next hs =>
      cases h
      exact hs
    · obtain ⟨entry, hentry, rfl⟩ := Option.map_eq_some_iff.mp h
      exact List.mem_map_of_mem (List.mem_of_find?_eq_some hentry)
  by_contra hnone
  rw [Option.not_isSome_iff_eq_none, List.lookup_eq_none_iff] at hnone
  obtain ⟨entry, hentry, rfl⟩ := List.mem_map.mp hmem
  simpa using hnone entry hentry

/-- The item that is described is the one that the string means; no lookup leads to an item without
an entry. -/
theorem findItem_eq (excelPath : String) (items : Table) (name : String) :
    findItem excelPath (.ok items) name =
      okOr ("未找到物品：" ++ Json.quoted name ++ "。")
        ((resolved items name).bind fun id => (items.lookup id).map (Prod.mk id)) := by
  have hlookup : itemLookup (.ok items) = .ok (items.foldl addItem []) := rfl
  rw [findItem, hlookup]
  simp only [Except.mapError, bind, Except.bind, lookup_foldl_addItem]
  cases hid : resolved items name with
  | none => rfl
  | some id =>
    obtain ⟨info, hinfo⟩ := Option.isSome_iff_exists.mp (isSome_lookup_of_resolved hid)
    simp only [hinfo, Option.bind_some, Option.map_some]
    rfl

end PrtsMcp.ItemLookup
