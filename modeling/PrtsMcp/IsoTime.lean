import Mathlib

/-!
# ISO 8601 instants

`now_iso` and `parse_iso_ms` of the sync primitives, over the civil-date algorithms of the source.
-/
namespace PrtsMcp.IsoTime

def daysFromCivil (y : ℤ) (m d : ℕ) : ℤ :=
  let y := if m ≤ 2 then y - 1 else y
  let era := (if 0 ≤ y then y else y - 399).tdiv 400
  let yoe := y - era * 400
  let mp : ℤ := if 2 < m then m - 3 else m + 9
  let doy := (153 * mp + 2) / 5 + d - 1
  let doe := yoe * 365 + yoe / 4 - yoe / 100 + doy
  era * 146097 + doe - 719468

def civilFromDays (z : ℤ) : ℤ × ℕ × ℕ :=
  let z := z + 719468
  let era := (if 0 ≤ z then z else z - 146096).tdiv 146097
  let doe := z - era * 146097
  let yoe := (doe - doe / 1460 + doe / 36524 - doe / 146096) / 365
  let y := yoe + era * 400
  let doy := doe - (365 * yoe + yoe / 4 - yoe / 100)
  let mp := (5 * doy + 2) / 153
  let d := (doy - (153 * mp + 2) / 5 + 1).toNat
  let m := (if mp < 10 then mp + 3 else mp - 9).toNat
  (if m ≤ 2 then y + 1 else y, m, d)

/-- `n` in at least `width` decimal digits. -/
def padded (width n : ℕ) : List Char :=
  let shown := Nat.toDigits 10 n
  List.replicate (width - shown.length) '0' ++ shown

/-- The sign counts towards the four places of a year. -/
def shownYear (y : ℤ) : List Char :=
  if 0 ≤ y then padded 4 y.toNat else '-' :: padded 3 y.natAbs

def isoFromUnixMs (ms : ℤ) : String :=
  let secs := ms / 1000
  let rem := (secs % 86400).toNat
  let (year, month, day) := civilFromDays (secs / 86400)
  String.ofList (shownYear year ++ ['-'] ++ padded 2 month ++ ['-'] ++ padded 2 day ++ ['T'] ++
    padded 2 (rem / 3600) ++ [':'] ++ padded 2 (rem % 3600 / 60) ++ [':'] ++ padded 2 (rem % 60) ++
    ['.'] ++ padded 3 (ms % 1000).toNat ++ ['Z'])

def digits (text : List Char) : Option ℕ :=
  if text.all Char.isDigit then
    some (text.foldl (fun n c => n * 10 + (c.toNat - '0'.toNat)) 0)
  else none

/-- The exponent of the binade of a positive `q`. -/
def binade (q : ℚ) : ℤ :=
  let k : ℤ := q.num.toNat.log2 - q.den.log2
  if (2 : ℚ) ^ k ≤ q then k else k - 1

/-- The double nearest to `q`, ties to even, without the limits of the exponent range. -/
def nearestDouble (q : ℚ) : ℚ :=
  if q = 0 then 0
  else
    let ulp : ℚ := 2 ^ (binade q - 52)
    let low := ⌊q / ulp⌋
    let rest := q / ulp - low
    (if rest < 1 / 2 ∨ rest = 1 / 2 ∧ Even low then low else low + 1) * ulp

/-- `("0." + text).parse::<f64>() * 1000.0`, rounded half up. -/
def fractionMs (text : List Char) : Option ℕ :=
  if text.isEmpty then none
  else (digits text).map fun n =>
    (round (nearestDouble (nearestDouble (n / 10 ^ text.length) * 1000))).toNat

/-- The milliseconds behind the seconds. A fraction that no `Z` ends runs past the slice: the
call panics. -/
def tailMs : List Char → Except Unit (Option ℕ)
  | ['Z'] => .ok (some 0)
  | '.' :: rest =>
    if 'Z' ∈ rest then
      .ok (if rest.dropWhile (· ≠ 'Z') = ['Z'] then fractionMs (rest.takeWhile (· ≠ 'Z')) else none)
    else .error ()
  | _ => .ok none

/-- The date and time before the fraction: year, month, day, hour, minute, second. -/
def fieldsOf : List Char → Option (ℕ × ℕ × ℕ × ℕ × ℕ × ℕ)
  | [y₁, y₂, y₃, y₄, '-', m₁, m₂, '-', d₁, d₂, 'T', h₁, h₂, ':', n₁, n₂, ':', s₁, s₂] => do
    let year ← digits [y₁, y₂, y₃, y₄]
    let month ← digits [m₁, m₂]
    let day ← digits [d₁, d₂]
    let hour ← digits [h₁, h₂]
    let minute ← digits [n₁, n₂]
    let second ← digits [s₁, s₂]
    return (year, month, day, hour, minute, second)
  | _ => none

def parseIsoMs (text : String) : Except Unit (Option ℤ) :=
  match fieldsOf (text.toList.take 19) with
  | none => .ok none
  | some (year, month, day, hour, minute, second) => do
    match ← tailMs (text.toList.drop 19) with
    | none => return none
    | some millis =>
      if 1 ≤ month ∧ month ≤ 12 ∧ 1 ≤ day ∧ day ≤ 31 then
        return some (daysFromCivil year month day * 86400000 + hour * 3600000 + minute * 60000 +
          second * 1000 + millis)
      else return none

theorem isoFromUnixMs_ne_empty (ms : ℤ) : isoFromUnixMs ms ≠ "" := by
  intro h
  have hchars := congrArg String.toList h
  rw [isoFromUnixMs, String.toList_ofList] at hchars
  exact List.append_ne_nil_of_right_ne_nil _ (List.cons_ne_nil _ _) hchars

example : isoFromUnixMs 4070908800000 = "2099-01-01T00:00:00.000Z" := by decide +kernel

example : parseIsoMs "2099-01-01T00:00:00.250Z" = .ok (some 4070908800250) := by decide +kernel

end PrtsMcp.IsoTime
