import PrtsMcp.OrderedMap

/-!
# Parsed JSON

The values that the parser's callers build: `serde_json` values, with objects in insertion order,
and the frozen trees of the caches.
-/
namespace PrtsMcp

/-- A number as `serde_json` keeps it, over the doubles `φ`. A negative integer is below zero. -/
inductive JsonNumber (φ : Type) where
  | posInt (n : UInt64)
  | negInt (n : Int64)
  | float (x : φ)
  deriving DecidableEq

/-- `Number::from`. -/
def JsonNumber.ofI64 {φ : Type} (n : Int64) : JsonNumber φ :=
  if n < 0 then negInt n else posInt n.toUInt64

inductive JsonValue (φ : Type) where
  | null
  | bool (b : Bool)
  | number (n : JsonNumber φ)
  | string (s : String)
  | array (items : List (JsonValue φ))
  | object (fields : List (String × JsonValue φ))

inductive FrozenValue (φ : Type) where
  | null
  | bool (b : Bool)
  | number (n : JsonNumber φ)
  | string (s : String)
  | array (items : List (FrozenValue φ))
  | object (fields : List (String × FrozenValue φ))

namespace FrozenValue

variable {φ : Type}

mutual

/-- `to_value`: the entries of an object are collected into a map. -/
def toValue : FrozenValue φ → JsonValue φ
  | null => .null
  | bool b => .bool b
  | number n => .number n
  | string s => .string s
  | array items => .array (toValues items)
  | object fields => .object (OrderedMap.ofEntries (toFields fields))

def toValues : List (FrozenValue φ) → List (JsonValue φ)
  | [] => []
  | item :: items => item.toValue :: toValues items

def toFields : List (String × FrozenValue φ) → List (String × JsonValue φ)
  | [] => []
  | (key, value) :: fields => (key, value.toValue) :: toFields fields

end

theorem toValues_eq_map (items : List (FrozenValue φ)) : toValues items = items.map toValue := by
  induction items with
  | nil => rfl
  | cons item items ih => rw [toValues, ih, List.map_cons]

theorem toFields_eq_mapValues (fields : List (String × FrozenValue φ)) :
    toFields fields = OrderedMap.mapValues toValue fields := by
  induction fields with
  | nil => rfl
  | cons field fields ih =>
    rw [toFields, ih]
    rfl

end FrozenValue

end PrtsMcp
