import PrtsMcp.FrozenReads

/-!
# Parsed values

What every value that was parsed from a text has: no object has a key twice, and every number is one
that the parser makes. Such a value, read as a document, gives itself.
-/
namespace PrtsMcp

open OrderedMap (insert nodup_insert insert_of_notMem)
open Projected

variable {φ ε : Type} [Doubles φ]

/-- A number that the parser makes. -/
def JsonNumber.Parsed : JsonNumber φ → Prop
  | posInt _ => True
  | negInt n => n < 0
  | float x => Doubles.isFinite x = true

namespace JsonValue

mutual

def Parsed : JsonValue φ → Prop
  | null => True
  | bool _ => True
  | number n => n.Parsed
  | string _ => True
  | array items => ParsedItems items
  | object fields => (fields.map Prod.fst).Nodup ∧ ParsedFields fields

def ParsedItems : List (JsonValue φ) → Prop
  | [] => True
  | item :: items => item.Parsed ∧ ParsedItems items

def ParsedFields : List (String × JsonValue φ) → Prop
  | [] => True
  | (_, value) :: fields => value.Parsed ∧ ParsedFields fields

end

theorem parsedItems_iff {items : List (JsonValue φ)} : ParsedItems items ↔ ∀ item ∈ items, item.Parsed := by
  induction items with
  | nil => simp [ParsedItems]
  | cons item items ih => simp [ParsedItems, ih]

theorem parsedFields_iff {fields : List (String × JsonValue φ)} :
    ParsedFields fields ↔ ∀ field ∈ fields, field.2.Parsed := by
  induction fields with
  | nil => simp [ParsedFields]
  | cons field fields ih => simp [ParsedFields, ih]

theorem parsed_of_get {v value : JsonValue φ} (h : v.Parsed) {key : String} (hget : v.get key = some value) :
    value.Parsed := by
  cases v with
  | object fields =>
    obtain ⟨before, after, rfl, -⟩ := List.lookup_eq_some_iff.mp hget
    exact parsedFields_iff.mp h.2 (key, value) (by simp)
  | null | bool | number | string | array => cases hget

end JsonValue

open JsonValue

theorem parsed_ofI64 (n : Int64) : (JsonNumber.ofI64 n : JsonNumber φ).Parsed := by
  unfold JsonNumber.ofI64
  split
  · next h => exact h
  · trivial

theorem parsed_floatValue (x : φ) : (floatValue x).Parsed := by
  unfold floatValue
  split
  · next h => exact h
  · trivial

theorem parsedFields_insert {fields : List (String × JsonValue φ)} (h : ParsedFields fields) {key : String}
    {value : JsonValue φ} (hvalue : value.Parsed) : ParsedFields (insert key value fields) := by
  rw [parsedFields_iff] at h ⊢
  intro field hfield
  rcases OrderedMap.eq_or_mem_of_mem_insert hfield with rfl | hmem
  · exact hvalue
  · exact h field hmem

mutual

theorem parsed_parseValue : (doc : Document φ ε) → (v : JsonValue φ) → parseValue doc = .ok v → v.Parsed
  | .unit, _, h => by cases h; trivial
  | .bool _, _, h => by cases h; trivial
  | .i64 n, _, h => by cases h; exact parsed_ofI64 n
  | .u64 _, _, h => by cases h; trivial
  | .f64 x, _, h => by cases h; exact parsed_floatValue x
  | .str _, _, h => by cases h; trivial
  | .seq items, _, h => by
    rw [parseValue] at h
    obtain ⟨values, hvalues, rfl⟩ := Fallible.map_eq_ok h
    exact parsed_parseItems items values hvalues
  | .map entries, _, h => by
    rw [parseValue] at h
    obtain ⟨fields, hfields, rfl⟩ := Fallible.map_eq_ok h
    exact parsed_parseEntries entries [] fields List.nodup_nil trivial hfields
  | .fail _, _, h => by cases h

theorem parsed_parseItems : (items : Items φ ε) → (values : List (JsonValue φ)) →
    parseItems items = .ok values → ParsedItems values
  | .close, _, h => by cases h; trivial
  | .stop _, _, h => by cases h
  | .next item rest, _, h => by
    rw [parseItems] at h
    obtain ⟨value, hvalue, h⟩ := Fallible.bind_eq_ok h
    obtain ⟨values, hvalues, h⟩ := Fallible.bind_eq_ok h
    cases h
    exact ⟨parsed_parseValue item value hvalue, parsed_parseItems rest values hvalues⟩

theorem parsed_parseEntries : (entries : Entries φ ε) → (map fields : List (String × JsonValue φ)) →
    (map.map Prod.fst).Nodup → ParsedFields map → parseEntries map entries = .ok fields →
    (fields.map Prod.fst).Nodup ∧ ParsedFields fields
  | .close, _, _, hnodup, hmap, h => by cases h; exact ⟨hnodup, hmap⟩
  | .stop _, _, _, _, _, h => by cases h
  | .next key item rest, map, fields, hnodup, hmap, h => by
    rw [parseEntries] at h
    obtain ⟨value, hvalue, h⟩ := Fallible.bind_eq_ok h
    exact parsed_parseEntries rest _ fields (nodup_insert hnodup key value)
      (parsedFields_insert hmap (parsed_parseValue item value hvalue)) h

end

theorem parsed_fromStr {parser : Parser φ ε} {text : String} {v : JsonValue φ}
    (h : fromStr parseValue parser text = .ok v) : v.Parsed := by
  obtain ⟨value, hvalue, h⟩ := Fallible.bind_eq_ok h
  obtain ⟨_, _, h⟩ := Fallible.bind_eq_ok h
  cases h
  exact parsed_parseValue _ _ hvalue

/-! ## Values as documents -/

mutual

/-- What `from_value` reads. -/
def ofValue : JsonValue φ → Document φ ε
  | .null => .unit
  | .bool b => .bool b
  | .number (.posInt n) => .u64 n
  | .number (.negInt n) => .i64 n
  | .number (.float x) => .f64 x
  | .string s => .str s
  | .array items => .seq (ofItems items)
  | .object fields => .map (ofFields fields)

def ofItems : List (JsonValue φ) → Items φ ε
  | [] => .close
  | item :: items => .next (ofValue item) (ofItems items)

def ofFields : List (String × JsonValue φ) → Entries φ ε
  | [] => .close
  | (key, value) :: fields => .next key (ofValue value) (ofFields fields)

end

mutual

theorem parseValue_ofValue : (v : JsonValue φ) → v.Parsed → parseValue (ofValue v : Document φ ε) = .ok v
  | .null, _ => rfl
  | .bool _, _ => rfl
  | .number (.posInt _), _ => rfl
  | .number (.negInt n), h => by
    have hneg : n < 0 := h
    rw [ofValue, parseValue, JsonNumber.ofI64, if_pos hneg]
  | .number (.float x), h => by
    have hfinite : Doubles.isFinite x = true := h
    rw [ofValue, parseValue, floatValue, if_pos hfinite]
  | .string _, _ => rfl
  | .array items, h => by
    rw [ofValue, parseValue, parseItems_ofItems items h]
    rfl
  | .object fields, h => by
    rw [ofValue, parseValue, parseEntries_ofFields fields [] (by simpa using h.1) h.2]
    rfl

theorem parseItems_ofItems : (items : List (JsonValue φ)) → ParsedItems items →
    parseItems (ofItems items : Items φ ε) = .ok items
  | [], _ => rfl
  | item :: items, h => by
    rw [ofItems, parseItems, parseValue_ofValue item h.1, parseItems_ofItems items h.2]
    rfl

theorem parseEntries_ofFields : (fields map : List (String × JsonValue φ)) →
    ((map ++ fields).map Prod.fst).Nodup → ParsedFields fields →
    parseEntries map (ofFields fields : Entries φ ε) = .ok (map ++ fields)
  | [], _, _, _ => by rw [ofFields, parseEntries, List.append_nil]
  | (key, value) :: fields, map, hnodup, h => by
    have hnot : key ∉ map.map Prod.fst := by
      rw [List.map_append, List.map_cons] at hnodup
      exact fun hmem => (List.nodup_append.mp hnodup).2.2 _ hmem _ List.mem_cons_self rfl
    rw [ofFields, parseEntries, parseValue_ofValue value h.1]
    change parseEntries (insert key value map) (ofFields fields) = _
    rw [insert_of_notMem hnot, parseEntries_ofFields fields (map ++ [(key, value)]) (by simpa using hnodup) h.2]
    simp

end

end PrtsMcp
