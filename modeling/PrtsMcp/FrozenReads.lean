import PrtsMcp.Fallible
import PrtsMcp.JsonRpc
import PrtsMcp.Projection

/-!
# Reading frozen trees

Values and frozen trees whose objects have no key twice, the reads of frozen trees and of views, and
that a view is read as the value it stands for.
-/
namespace PrtsMcp

open OrderedMap (mapValues keys_mapValues lookup_mapValues ofEntries_of_nodup)

variable {φ : Type}

namespace JsonValue

mutual

/-- No object has a key twice. -/
def Unique : JsonValue φ → Prop
  | null => True
  | bool _ => True
  | number _ => True
  | string _ => True
  | array items => UniqueItems items
  | object fields => (fields.map Prod.fst).Nodup ∧ UniqueFields fields

def UniqueItems : List (JsonValue φ) → Prop
  | [] => True
  | item :: items => item.Unique ∧ UniqueItems items

def UniqueFields : List (String × JsonValue φ) → Prop
  | [] => True
  | (_, value) :: fields => value.Unique ∧ UniqueFields fields

end

theorem unique_of_lookup {fields : List (String × JsonValue φ)} (h : UniqueFields fields) {key : String}
    {value : JsonValue φ} (hlookup : fields.lookup key = some value) : value.Unique := by
  induction fields with
  | nil => cases hlookup
  | cons field fields ih =>
    obtain ⟨hfield, hfields⟩ := h
    rw [List.lookup_cons] at hlookup
    split at hlookup
    · cases hlookup
      exact hfield
    · exact ih hfields hlookup

theorem unique_of_get {v value : JsonValue φ} (h : v.Unique) {key : String}
    (hget : v.get key = some value) : value.Unique := by
  cases v with
  | object fields => exact unique_of_lookup h.2 hget
  | null | bool | number | string | array => cases hget

end JsonValue

/-- A projection keeps the fields that it does not discard. -/
theorem Projected.Projection.get_prune {p : Projected.Projection} (hp : p.isDiscard = false) {key : String}
    (hfield : (p.field key).isDiscard = false) (v : JsonValue φ) :
    (p.prune v).get key = (v.get key).map (p.field key).prune := by
  cases v with
  | object fields =>
    rw [prune_object hp]
    exact OrderedMap.lookup_filterValues fun a => by rw [pruneField, hfield]; rfl
  | array items =>
    rw [prune_array hp]
    rfl
  | null => rw [prune]; rfl
  | bool | number | string =>
    rw [prune, keep, hp]
    rfl

namespace FrozenValue

def get (key : String) : FrozenValue φ → Option (FrozenValue φ)
  | object fields => fields.lookup key
  | _ => none

def asStr : FrozenValue φ → Option String
  | string s => some s
  | _ => none

def isObject : FrozenValue φ → Bool
  | object _ => true
  | _ => false

def isArray : FrozenValue φ → Bool
  | array _ => true
  | _ => false

/-- What is taken out of an object, null if it is not there. -/
def take (v : FrozenValue φ) (key : String) : FrozenValue φ := (v.get key).getD null

mutual

/-- No object has a key twice. -/
def Unique : FrozenValue φ → Prop
  | null => True
  | bool _ => True
  | number _ => True
  | string _ => True
  | array items => UniqueItems items
  | object fields => (fields.map Prod.fst).Nodup ∧ UniqueFields fields

def UniqueItems : List (FrozenValue φ) → Prop
  | [] => True
  | item :: items => item.Unique ∧ UniqueItems items

def UniqueFields : List (String × FrozenValue φ) → Prop
  | [] => True
  | (_, value) :: fields => value.Unique ∧ UniqueFields fields

end

theorem uniqueItems_iff {items : List (FrozenValue φ)} : UniqueItems items ↔ ∀ item ∈ items, item.Unique := by
  induction items with
  | nil => simp [UniqueItems]
  | cons item items ih => rw [UniqueItems, ih, List.forall_mem_cons]

theorem uniqueFields_iff {fields : List (String × FrozenValue φ)} :
    UniqueFields fields ↔ ∀ field ∈ fields, field.2.Unique := by
  induction fields with
  | nil => simp [UniqueFields]
  | cons field fields ih => rw [UniqueFields, ih, List.forall_mem_cons]

theorem unique_of_get {v value : FrozenValue φ} (h : v.Unique) {key : String}
    (hget : v.get key = some value) : value.Unique := by
  cases v with
  | object fields =>
    obtain ⟨front, back, rfl, -⟩ := List.lookup_eq_some_iff.mp hget
    exact uniqueFields_iff.mp h.2 _ (List.mem_append_right _ List.mem_cons_self)
  | null | bool | number | string | array => cases hget

/-- Without a key twice, the entries of the collected map are those of the tree. -/
theorem toValue_object {fields : List (String × FrozenValue φ)} (h : (object fields).Unique) :
    (object fields).toValue = .object (mapValues toValue fields) := by
  have hkeys : ((mapValues toValue fields).map Prod.fst).Nodup := by
    rw [keys_mapValues]
    exact h.1
  rw [toValue, toFields_eq_mapValues, ofEntries_of_nodup hkeys]

theorem get_toValue {v : FrozenValue φ} (h : v.Unique) (key : String) :
    v.toValue.get key = (v.get key).map toValue := by
  cases v with
  | object fields =>
    rw [toValue_object h]
    exact lookup_mapValues toValue fields key
  | null | bool | number | string => rw [toValue]; rfl
  | array items => rw [toValue]; rfl

@[simp]
theorem isObject_toValue (v : FrozenValue φ) : v.toValue.isObject = v.isObject := by
  cases v <;> rw [toValue] <;> rfl

@[simp]
theorem isArray_toValue (v : FrozenValue φ) : v.toValue.isArray = v.isArray := by
  cases v <;> rw [toValue] <;> rfl

@[simp]
theorem asStr_toValue (v : FrozenValue φ) : v.toValue.asStr = v.asStr := by
  cases v <;> rw [toValue] <;> rfl

end FrozenValue

/-- `JsonView`. -/
inductive View (φ : Type) where
  | value (v : JsonValue φ)
  | frozen (v : FrozenValue φ)

namespace View

def get (key : String) : View φ → Option (View φ)
  | value v => (v.get key).map value
  | frozen v => (v.get key).map frozen

def isObject : View φ → Bool
  | value v => v.isObject
  | frozen v => v.isObject

def toValue : View φ → JsonValue φ
  | value v => v
  | frozen v => v.toValue

/-- A frozen tree behind the view has no key twice. -/
def Unique : View φ → Prop
  | value _ => True
  | frozen v => v.Unique

theorem get_toValue {v : View φ} (h : v.Unique) (key : String) :
    v.toValue.get key = (v.get key).map toValue := by
  cases v with
  | value v =>
    rw [get, Option.map_map]
    exact Option.map_id.symm ▸ rfl
  | frozen v =>
    rw [get, Option.map_map]
    exact FrozenValue.get_toValue h key

@[simp]
theorem isObject_toValue (v : View φ) : v.toValue.isObject = v.isObject := by
  cases v with
  | value v => rfl
  | frozen v => exact FrozenValue.isObject_toValue v

theorem unique_of_get {v w : View φ} (h : v.Unique) {key : String} (hget : v.get key = some w) :
    w.Unique := by
  cases v with
  | value v =>
    obtain ⟨u, -, rfl⟩ := Option.map_eq_some_iff.mp hget
    trivial
  | frozen v =>
    obtain ⟨u, hu, rfl⟩ := Option.map_eq_some_iff.mp hget
    exact FrozenValue.unique_of_get h hu

end View

/-! ## What the frozen reader builds -/

namespace Projected

open Fallible (bind_eq_ok map_eq_ok)
open FrozenValue (UniqueItems UniqueFields uniqueFields_iff)

variable {ε : Type}

theorem FrozenFields.Indexed.unique_put {s : FrozenFields φ} (hs : s.Indexed) (h : UniqueFields s.values)
    (key : String) {value : FrozenValue φ} (hvalue : value.Unique) : UniqueFields (s.put key value).values := by
  rw [hs.values_put, uniqueFields_iff]
  intro field hfield
  rcases OrderedMap.eq_or_mem_of_mem_insert hfield with rfl | hmem
  · exact hvalue
  · exact uniqueFields_iff.mp h field hmem

variable [Doubles φ]

theorem unique_frozenFloat (x : φ) : (frozenFloat x).Unique := by
  unfold frozenFloat
  split <;> trivial

mutual

/-- No object that is frozen has a key twice. -/
theorem unique_freeze (p : Projection) : (doc : Document φ ε) → (v : FrozenValue φ) →
    freeze p doc = .ok v → v.Unique
  | .unit, v, h => by
    rw [freeze] at h
    cases h
    trivial
  | .bool b, v, h => by
    rw [freeze] at h
    cases h
    split <;> trivial
  | .i64 n, v, h => by
    rw [freeze] at h
    cases h
    split <;> trivial
  | .u64 n, v, h => by
    rw [freeze] at h
    cases h
    split <;> trivial
  | .f64 x, v, h => by
    rw [freeze] at h
    cases h
    split
    · trivial
    · exact unique_frozenFloat x
  | .str s, v, h => by
    rw [freeze] at h
    cases h
    split <;> trivial
  | .seq items, v, h => by
    rw [freeze] at h
    split at h
    · obtain ⟨a, -, rfl⟩ := map_eq_ok h
      trivial
    · obtain ⟨vs, hvs, rfl⟩ := map_eq_ok h
      exact unique_freezeItems _ items vs hvs
  | .map entries, v, h => by
    rw [freeze] at h
    split at h
    · obtain ⟨a, -, rfl⟩ := map_eq_ok h
      trivial
    · obtain ⟨s, hs, rfl⟩ := map_eq_ok h
      have hempty : FrozenFields.Indexed (⟨[], none⟩ : FrozenFields φ) :=
        ⟨List.nodup_nil, fun _ h => nomatch h⟩
      obtain ⟨hindexed, hfields⟩ := unique_freezeEntries p _ hempty trivial entries s hs
      exact ⟨hindexed.keys, hfields⟩
  | .fail e, v, h => by
    rw [freeze] at h
    cases h

theorem unique_freezeItems (child : Projection) : (items : Items φ ε) → (vs : List (FrozenValue φ)) →
    freezeItems child items = .ok vs → UniqueItems vs
  | .close, vs, h => by
    rw [freezeItems] at h
    cases h
    trivial
  | .stop e, vs, h => by
    rw [freezeItems] at h
    cases h
  | .next item rest, vs, h => by
    rw [freezeItems] at h
    obtain ⟨value, hvalue, h⟩ := bind_eq_ok h
    obtain ⟨values, hvalues, h⟩ := bind_eq_ok h
    cases h
    exact ⟨unique_freeze child item value hvalue, unique_freezeItems child rest values hvalues⟩

theorem unique_freezeEntries (p : Projection) (s : FrozenFields φ) (hs : s.Indexed)
    (hfields : UniqueFields s.values) : (entries : Entries φ ε) → (s' : FrozenFields φ) →
    freezeEntries p s entries = .ok s' → s'.Indexed ∧ UniqueFields s'.values
  | .close, s', h => by
    rw [freezeEntries] at h
    cases h
    exact ⟨hs, hfields⟩
  | .stop e, s', h => by
    rw [freezeEntries] at h
    cases h
  | .next key value rest, s', h => by
    rw [freezeEntries] at h
    obtain ⟨v, hv, h⟩ := bind_eq_ok h
    split at h
    · exact unique_freezeEntries p s hs hfields rest s' h
    · exact unique_freezeEntries p (s.put key v) (hs.put key v)
        (hs.unique_put hfields key (unique_freeze _ value v hv)) rest s' h

end

/-- No tree that is read from a text has an object with a key twice. -/
theorem unique_fromStr {p : Projection} {parser : Parser φ ε} {text : String} {v : FrozenValue φ}
    (h : fromStr (freeze p) parser text = .ok v) : v.Unique := by
  obtain ⟨value, hvalue, h⟩ := bind_eq_ok h
  obtain ⟨u, -, h⟩ := bind_eq_ok h
  cases h
  exact unique_freeze p _ _ hvalue

end Projected

end PrtsMcp
