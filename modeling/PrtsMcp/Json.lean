import Mathlib

/-!
# JSON values

The values `serde_json` hands to the sync layer, with the accessors it uses.
-/
namespace PrtsMcp

/-- A number keeps the text that `to_string` prints for it. -/
inductive Json where
  | null
  | bool (b : Bool)
  | num (value : ℚ) (shown : String)
  | str (s : String)
  | arr (items : List Json)
  | obj (fields : List (String × Json))

namespace Json

def get (key : String) : Json → Option Json
  | obj fields => fields.lookup key
  | _ => none

def asStr : Json → Option String
  | str s => some s
  | _ => none

def asNum : Json → Option ℚ
  | num value _ => some value
  | _ => none

def asArray : Json → Option (List Json)
  | arr items => some items
  | _ => none

def isObject : Json → Bool
  | obj _ => true
  | _ => false

def isTrue : Json → Bool
  | bool true => true
  | _ => false

/-- `value.get(key)` read as a string. -/
def getStr (key : String) (v : Json) : Option String := (v.get key).bind asStr

def escapeChar (c : Char) : List Char :=
  if c = '"' || c = '\\' then ['\\', c]
  else if c = '\n' then ['\\', 'n']
  else if c = '\r' then ['\\', 'r']
  else if c = '\t' then ['\\', 't']
  else if c.toNat = 8 then ['\\', 'b']
  else if c.toNat = 12 then ['\\', 'f']
  else if c.toNat < 32 then
    ['\\', 'u', '0', '0', Nat.digitChar (c.toNat / 16), Nat.digitChar (c.toNat % 16)]
  else [c]

def quoted (s : String) : String := String.ofList (['"'] ++ s.toList.flatMap escapeChar ++ ['"'])

mutual

/-- `to_string`: the compact text of a value. -/
def shown : Json → String
  | null => "null"
  | bool b => if b then "true" else "false"
  | num _ text => text
  | str s => quoted s
  | arr items => "[" ++ String.intercalate "," (shownItems items) ++ "]"
  | obj fields => "\x7b" ++ String.intercalate "," (shownFields fields) ++ "\x7d"

def shownItems : List Json → List String
  | [] => []
  | item :: items => item.shown :: shownItems items

def shownFields : List (String × Json) → List String
  | [] => []
  | (key, value) :: fields => (quoted key ++ ":" ++ value.shown) :: shownFields fields

end

end Json

end PrtsMcp
