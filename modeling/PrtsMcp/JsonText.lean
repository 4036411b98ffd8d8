import PrtsMcp.Json
import PrtsMcp.JsonValue

/-!
# Texts of JSON values

The compact and the pretty text of a value, with two blanks for each level of the latter.
-/
namespace PrtsMcp.JsonText

variable {φ : Type}

def quotedChars (s : String) : List Char := ['"'] ++ s.toList.flatMap Json.escapeChar ++ ['"']

/-- What stands before an item at a depth. -/
def lineBreak (pretty : Bool) (depth : ℕ) : List Char :=
  if pretty then '\n' :: List.replicate (2 * depth) ' ' else []

def enclosed (pretty : Bool) (depth : ℕ) (opening closing : Char) (items : List (List Char)) :
    List Char :=
  if items.isEmpty then [opening, closing]
  else
    opening :: (lineBreak pretty (depth + 1) ++
      List.intercalate (',' :: lineBreak pretty (depth + 1)) items ++ lineBreak pretty depth ++
      [closing])

def numberChars (print : φ → List Char) : JsonNumber φ → List Char
  | .posInt n => n.toNat.repr.toList
  | .negInt n => n.toInt.repr.toList
  | .float x => print x

mutual

def chars (print : φ → List Char) (pretty : Bool) (depth : ℕ) : JsonValue φ → List Char
  | .null => "null".toList
  | .bool b => if b then "true".toList else "false".toList
  | .number n => numberChars print n
  | .string s => quotedChars s
  | .array items => enclosed pretty depth '[' ']' (itemChars print pretty (depth + 1) items)
  | .object fields => enclosed pretty depth '\x7b' '\x7d' (fieldChars print pretty (depth + 1) fields)

def itemChars (print : φ → List Char) (pretty : Bool) (depth : ℕ) :
    List (JsonValue φ) → List (List Char)
  | [] => []
  | item :: items => chars print pretty depth item :: itemChars print pretty depth items

def fieldChars (print : φ → List Char) (pretty : Bool) (depth : ℕ) :
    List (String × JsonValue φ) → List (List Char)
  | [] => []
  | (key, value) :: fields =>
    (quotedChars key ++ [':'] ++ (if pretty then [' '] else []) ++ chars print pretty depth value) ::
      fieldChars print pretty depth fields

end

def encode (text : List Char) : List UInt8 := text.flatMap String.utf8EncodeChar

end PrtsMcp.JsonText
