import Mathlib

/-!
# JavaScript numbers

`Number(string)` as the port of the server is read, with the rounding of its decimals to doubles,
and the port that is bound for the result.
-/
namespace PrtsMcp

inductive JsNumber where
  | nan
  | infinite (negative : Bool)
  | finite (value : ℚ)
  deriving DecidableEq, Repr

namespace JsNumber

/-- The integer next to a rational, the even one of two. -/
def roundHalfEven (x : ℚ) : ℤ :=
  let below := ⌊x⌋
  let rest := x - below
  if rest < 1 / 2 then below
  else if 1 / 2 < rest then below + 1
  else if below % 2 = 0 then below else below + 1

/-- The distance between doubles at `x`. -/
def ulp (x : ℚ) : ℚ := 2 ^ max (Int.log 2 |x| - 52) (-1074)

/-- The double next to a rational. -/
def ofRat (x : ℚ) : JsNumber :=
  let rounded := roundHalfEven (x / ulp x) * ulp x
  if |rounded| < 2 ^ 1024 then finite rounded else infinite (x < 0)

/-- `char::is_whitespace`, with the byte order mark. -/
def isJsSpace (c : Char) : Bool :=
  let n := c.toNat
  (9 ≤ n && n ≤ 13) || n = 0x20 || n = 0x85 || n = 0xA0 || n = 0x1680 ||
    (0x2000 ≤ n && n ≤ 0x200A) || n = 0x2028 || n = 0x2029 || n = 0x202F || n = 0x205F ||
    n = 0x3000 || n = 0xFEFF

def trimmed (cs : List Char) : List Char := (cs.dropWhile isJsSpace).rdropWhile isJsSpace

def digitOf (radix : ℕ) (c : Char) : Option ℕ :=
  let d := if c.isDigit then c.toNat - '0'.toNat else c.toLower.toNat - 'a'.toNat + 10
  if c.isAlphanum ∧ d < radix then some d else none

/-- `i64::from_str_radix` of the digits, which are not signed. -/
def ofRadix (radix : ℕ) (cs : List Char) : JsNumber :=
  match cs.mapM (digitOf radix) with
  | some (d :: ds) =>
    let n := (d :: ds).foldl (fun n d => n * radix + d) 0
    if n < 2 ^ 63 then ofRat n else infinite false
  | _ => nan

/-- A sign, and what follows it. -/
def takeSign : List Char → Bool × List Char
  | '+' :: cs => (false, cs)
  | '-' :: cs => (true, cs)
  | cs => (false, cs)

def takeFraction : List Char → List Char × List Char
  | '.' :: cs => cs.span Char.isDigit
  | cs => ([], cs)

/-- What is left after the digits: an exponent, or nothing. -/
def exponent? : List Char → Option ℤ
  | [] => some 0
  | c :: cs =>
    let (negative, digits) := takeSign cs
    if (c = 'e' ∨ c = 'E') ∧ digits ≠ [] ∧ digits.all Char.isDigit then
      let n : ℤ := Nat.ofDigitChars 10 digits 0
      some (if negative then -n else n)
    else none

def decimal (cs : List Char) : JsNumber :=
  let (negative, rest) := takeSign cs
  let (whole, rest) := rest.span Char.isDigit
  let (fraction, rest) := takeFraction rest
  if whole = [] ∧ fraction = [] then nan
  else match exponent? rest with
    | some e =>
      let digits : ℚ := Nat.ofDigitChars 10 (whole ++ fraction) 0
      let x := digits * 10 ^ (e - fraction.length)
      ofRat (if negative then -x else x)
    | none => nan

/-- `js_parse_number`. -/
def jsParseNumber (raw : String) : JsNumber :=
  let cs := trimmed raw.toList
  match cs.map Char.toLower with
  | [] => finite 0
  | '0' :: 'x' :: digits => ofRadix 16 digits
  | '0' :: 'o' :: digits => ofRadix 8 digits
  | '0' :: 'b' :: digits => ofRadix 2 digits
  | lower =>
    if lower = "infinity".toList ∨ lower = "+infinity".toList then infinite false
    else if lower = "-infinity".toList then infinite true
    else decimal cs

/-- `ts_bind_port`: what is no port is port 0, and what is above every port is the last. -/
def tsBindPort : JsNumber → ℕ
  | finite value => if value < 0 then 0 else min ⌊value⌋₊ 65535
  | _ => 0

/-- Whatever is configured, a port is bound. -/
theorem tsBindPort_le (x : JsNumber) : x.tsBindPort ≤ 65535 := by
  cases x with
  | finite value =>
    simp only [tsBindPort]
    split
    · exact Nat.zero_le _
    · exact min_le_right _ _
  | nan | infinite _ => exact Nat.zero_le _

/-- A number that is a port is bound as that port. -/
theorem tsBindPort_natCast {n : ℕ} (h : n ≤ 65535) : (finite n).tsBindPort = n := by
  have hnonneg : ¬ (n : ℚ) < 0 := not_lt.mpr (Nat.cast_nonneg n)
  rw [tsBindPort, if_neg hnonneg, Nat.floor_natCast, min_eq_left h]

end JsNumber

end PrtsMcp
