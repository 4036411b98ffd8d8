import PrtsMcp.IsoCalendar

/-!
# Timestamps as text

The texts that `parse_iso_ms` accepts, the instants they name, and the way there and back.
-/
namespace PrtsMcp.IsoText

open IsoTime IsoCalendar

/-! ## Decimal digits -/

def digitValue (text : List Char) : ℕ := text.foldl (fun n c => n * 10 + (c.toNat - '0'.toNat)) 0

theorem digits_eq_some {text : List Char} {n : ℕ} :
    digits text = some n ↔ text.all Char.isDigit = true ∧ digitValue text = n := by
  unfold digits digitValue
  split
  · next h => simp [h]
  · next h => simp [h]

theorem digitValue_concat (text : List Char) (c : Char) :
    digitValue (text ++ [c]) = digitValue text * 10 + (c.toNat - '0'.toNat) := by
  rw [digitValue, List.foldl_append]
  rfl

theorem digitChar_isDigit {d : ℕ} (h : d < 10) :
    d.digitChar.isDigit = true ∧ d.digitChar.toNat - '0'.toNat = d := by
  interval_cases d <;> decide

theorem digitChar_toNat {c : Char} (h : c.isDigit = true) :
    (c.toNat - '0'.toNat).digitChar = c ∧ c.toNat - '0'.toNat < 10 := by
  have hrange : 48 ≤ c.toNat ∧ c.toNat ≤ 57 := by
    simpa [Char.isDigit, UInt32.le_iff_toNat_le] using h
  have hc : c = Char.ofNat c.toNat := (Char.ofNat_toNat c).symm
  rw [hc]
  obtain ⟨hlow, hhigh⟩ := hrange
  generalize c.toNat = n at hlow hhigh
  interval_cases n <;> decide

theorem padded_succ {k : ℕ} (hk : 1 ≤ k) (n : ℕ) :
    padded (k + 1) n = padded k (n / 10) ++ [(n % 10).digitChar] := by
  unfold padded
  rw [Nat.toDigits_eq_if (by norm_num)]
  split
  · next h =>
    rw [Nat.div_eq_of_lt h, Nat.mod_eq_of_lt h, Nat.toDigits_zero]
    obtain ⟨j, rfl⟩ := Nat.exists_eq_add_of_le' hk
    simp [List.replicate_succ']
  · next h => simp [Nat.add_sub_add_right]

theorem padded_one {n : ℕ} (h : n < 10) : padded 1 n = [n.digitChar] := by
  rw [padded, Nat.toDigits_of_lt_base h]
  rfl

theorem length_padded {k n : ℕ} (hk : 1 ≤ k) (hn : n < 10 ^ k) : (padded k n).length = k := by
  have hlen := (Nat.length_toDigits_le_iff (b := 10) (n := n) (by norm_num) hk).mpr hn
  rw [padded, List.length_append, List.length_replicate]
  omega

theorem digits_padded {k n : ℕ} (hk : 1 ≤ k) (hn : n < 10 ^ k) : digits (padded k n) = some n := by
  rw [digits_eq_some]
  induction k, hk using Nat.le_induction generalizing n with
  | base =>
    rw [pow_one] at hn
    obtain ⟨hdigit, hvalue⟩ := digitChar_isDigit hn
    rw [padded_one hn]
    exact ⟨by simp [hdigit], by simpa [digitValue] using hvalue⟩
  | succ k hk ih =>
    obtain ⟨hdigit, hvalue⟩ := digitChar_isDigit (Nat.mod_lt n (by norm_num : 10 > 0))
    obtain ⟨hall, hrest⟩ := ih (n := n / 10) (by rw [pow_succ] at hn; omega)
    rw [padded_succ hk]
    refine ⟨by simp [hall, hdigit], ?_⟩
    rw [digitValue_concat, hrest, hvalue]
    omega

theorem padded_of_digits {text : List Char} (hne : text ≠ []) (h : text.all Char.isDigit = true) :
    padded text.length (digitValue text) = text ∧ digitValue text < 10 ^ text.length := by
  induction text using List.reverseRecOn with
  | nil => exact absurd rfl hne
  | append_singleton text c ih =>
    rw [List.all_append, Bool.and_eq_true] at h
    obtain ⟨hchar, hlt⟩ := digitChar_toNat (by simpa using h.2)
    rw [digitValue_concat, List.length_append, List.length_singleton]
    by_cases hempty : text = []
    · rw [hempty, List.nil_append, List.length_nil, zero_add, show digitValue [] = 0 from rfl, zero_mul,
        zero_add, padded_one hlt, hchar]
      exact ⟨rfl, hlt⟩
    · obtain ⟨htext, hbound⟩ := ih hempty h.1
      have hlen : 1 ≤ text.length := List.length_pos_iff.mpr hempty
      rw [padded_succ hlen, pow_succ]
      have hdiv : (digitValue text * 10 + (c.toNat - '0'.toNat)) / 10 = digitValue text := by omega
      have hmod : (digitValue text * 10 + (c.toNat - '0'.toNat)) % 10 = c.toNat - '0'.toNat := by omega
      rw [hdiv, hmod, htext, hchar]
      exact ⟨rfl, by omega⟩

theorem padded_of_digits_eq {text : List Char} {n : ℕ} (hne : text ≠ []) (h : digits text = some n) :
    padded text.length n = text ∧ n < 10 ^ text.length := by
  obtain ⟨hall, rfl⟩ := digits_eq_some.mp h
  exact padded_of_digits hne hall

/-! ## Fractions of a second -/

theorem binade_le {q : ℚ} (h : 0 < q) : (2 : ℚ) ^ binade q ≤ q := by
  have hnum : (0 : ℤ) < q.num := Rat.num_pos.mpr h
  have hden := q.den_pos
  unfold binade
  dsimp only
  split
  · next hle => exact hle
  · -- the numerator is at least a power of two, the denominator less than the next one
    have hlow : (2 : ℚ) ^ q.num.toNat.log2 ≤ q.num := by
      have := Nat.log2_self_le (n := q.num.toNat) (by omega)
      have hcast : ((q.num.toNat : ℕ) : ℚ) = q.num := by
        rw [← Int.cast_natCast, Int.toNat_of_nonneg hnum.le]
      rw [← hcast]
      exact_mod_cast this
    have hhigh : (q.den : ℚ) < 2 ^ (q.den.log2 + 1) := by
      exact_mod_cast Nat.lt_log2_self (n := q.den)
    have hpow : (2 : ℚ) ^ ((q.num.toNat.log2 : ℤ) - q.den.log2 - 1) =
        2 ^ q.num.toNat.log2 / 2 ^ (q.den.log2 + 1) := by
      rw [sub_sub, zpow_sub₀ (by norm_num)]
      norm_cast
    rw [hpow]
    calc (2 : ℚ) ^ q.num.toNat.log2 / 2 ^ (q.den.log2 + 1)
        ≤ q.num / 2 ^ (q.den.log2 + 1) := by gcongr
      _ ≤ q.num / q.den := by
        apply div_le_div_of_nonneg_left _ _ hhigh.le
        · exact_mod_cast hnum.le
        · exact_mod_cast hden
      _ = q := Rat.num_div_den q

theorem nearestDouble_error {q : ℚ} (h : 0 ≤ q) : |nearestDouble q - q| ≤ q / 2 ^ 53 := by
  rcases eq_or_lt_of_le h with rfl | hpos
  · simp [nearestDouble]
  · unfold nearestDouble
    rw [if_neg hpos.ne']
    dsimp only
    have hulp : (0 : ℚ) < 2 ^ (binade q - 52) := by positivity
    have hscale : (2 : ℚ) ^ (binade q - 52) / 2 ≤ q / 2 ^ 53 := by
      rw [zpow_sub₀ (by norm_num)]
      have := binade_le hpos
      norm_num at this ⊢
      linarith
    generalize (2 : ℚ) ^ (binade q - 52) = ulp at hulp hscale
    have hlow := Int.floor_le (q / ulp)
    have hhigh := Int.lt_floor_add_one (q / ulp)
    have hclose : |((if q / ulp - ⌊q / ulp⌋ < 1 / 2 ∨ q / ulp - ⌊q / ulp⌋ = 1 / 2 ∧ Even ⌊q / ulp⌋
        then ⌊q / ulp⌋ else ⌊q / ulp⌋ + 1 : ℤ) : ℚ) - q / ulp| ≤ 1 / 2 := by
      rw [abs_le]
      split
      · next hdown =>
        have : q / ulp - ⌊q / ulp⌋ ≤ 1 / 2 := by
          rcases hdown with hlt | ⟨heq, -⟩
          · exact hlt.le
          · exact heq.le
        constructor <;> linarith
      · next hup =>
        have := not_lt.mp (not_or.mp hup).1
        push_cast
        constructor <;> linarith
    calc _ = |((if q / ulp - ⌊q / ulp⌋ < 1 / 2 ∨ q / ulp - ⌊q / ulp⌋ = 1 / 2 ∧ Even ⌊q / ulp⌋
          then ⌊q / ulp⌋ else ⌊q / ulp⌋ + 1 : ℤ) : ℚ) - q / ulp| * ulp := by
          rw [← abs_of_pos hulp, ← abs_mul, abs_of_pos hulp, sub_mul, div_mul_cancel₀ _ hulp.ne']
      _ ≤ 1 / 2 * ulp := by gcongr
      _ ≤ q / 2 ^ 53 := by linarith

/-- The value of a decimal fraction. -/
def fractionValue (text : List Char) : ℚ := digitValue text / 10 ^ text.length

theorem fractionValue_mem {text : List Char} (hne : text ≠ []) (h : text.all Char.isDigit = true) :
    0 ≤ fractionValue text ∧ fractionValue text < 1 := by
  have hlt := (padded_of_digits hne h).2
  refine ⟨by unfold fractionValue; positivity, ?_⟩
  rw [fractionValue, div_lt_one (by positivity)]
  exact_mod_cast hlt

/-- Two roundings to doubles and one to an integer stay within a millisecond. -/
theorem fractionMs_eq {text : List Char} (hne : text ≠ []) (h : text.all Char.isDigit = true) :
    ∃ ms : ℕ, fractionMs text = some ms ∧ |(ms : ℚ) - 1000 * fractionValue text| < 1 := by
  obtain ⟨hq₀, hq₁⟩ := fractionValue_mem hne h
  unfold fractionMs
  rw [if_neg (by simpa using hne), digits_eq_some.mpr ⟨h, rfl⟩]
  refine ⟨_, rfl, ?_⟩
  change |(((round (nearestDouble (nearestDouble (fractionValue text) * 1000))).toNat : ℕ) : ℚ) -
    1000 * fractionValue text| < 1
  generalize fractionValue text = q at hq₀ hq₁
  have hread := nearestDouble_error hq₀
  obtain ⟨hreadlow, hreadhigh⟩ := abs_le.mp hread
  have hread₀ : 0 ≤ nearestDouble q := by
    norm_num at hreadlow
    linarith
  have hscaled := nearestDouble_error (q := nearestDouble q * 1000) (by linarith)
  obtain ⟨hscaledlow, hscaledhigh⟩ := abs_le.mp hscaled
  have hscaled₀ : 0 ≤ nearestDouble (nearestDouble q * 1000) := by
    norm_num at hscaledlow
    linarith
  have hround := abs_sub_round (nearestDouble (nearestDouble q * 1000))
  obtain ⟨hroundlow, hroundhigh⟩ := abs_le.mp hround
  have hnonneg : 0 ≤ round (nearestDouble (nearestDouble q * 1000)) := by
    rw [round_eq]
    exact Int.floor_nonneg.mpr (by linarith)
  have hcast : (((round (nearestDouble (nearestDouble q * 1000))).toNat : ℕ) : ℚ) =
      round (nearestDouble (nearestDouble q * 1000)) := by
    rw [← Int.cast_natCast, Int.toNat_of_nonneg hnonneg]
  rw [hcast, abs_lt]
  norm_num at hreadlow hreadhigh hscaledlow hscaledhigh
  constructor <;> linarith

/-! ## Timestamps -/

abbrev Digits := { text : List Char // text ≠ [] ∧ text.all Char.isDigit = true }

/-- The numbers of a timestamp. -/
structure Stamp where
  year : Fin 10000
  month : Fin 100
  day : Fin 100
  hour : Fin 100
  minute : Fin 100
  second : Fin 100
  fraction : Option Digits

/-- `YYYY-MM-DDTHH:MM:SS` -/
def dateTime (year month day hour minute second : ℕ) : List Char :=
  padded 4 year ++ ['-'] ++ padded 2 month ++ ['-'] ++ padded 2 day ++ ['T'] ++ padded 2 hour ++ [':'] ++
    padded 2 minute ++ [':'] ++ padded 2 second

namespace Stamp

variable (s : Stamp)

def head : List Char := dateTime s.year s.month s.day s.hour s.minute s.second

def tail : List Char :=
  match s.fraction with
  | none => ['Z']
  | some text => '.' :: (text.val ++ ['Z'])

def text : List Char := s.head ++ s.tail

def fractionSeconds : ℚ :=
  match s.fraction with
  | none => 0
  | some text => fractionValue text.val

/-- The day is in the calendar and the time on the clock; 24:00 is the end of the day. -/
structure Valid : Prop where
  month : 1 ≤ s.month.val ∧ s.month.val ≤ 12
  day : 1 ≤ s.day.val ∧ s.day.val ≤ monthLength s.year s.month
  time : s.hour.val < 24 ∧ s.minute.val < 60 ∧ s.second.val < 60 ∨
    s.hour.val = 24 ∧ s.minute.val = 0 ∧ s.second.val = 0 ∧ s.fractionSeconds = 0

/-- The milliseconds since the beginning of 1970. -/
def instant : ℚ :=
  dayNumber s.year s.month s.day * 86400000 + s.hour.val * 3600000 + s.minute.val * 60000 +
    s.second.val * 1000 + 1000 * s.fractionSeconds

end Stamp

/-- The text is a timestamp of ISO 8601 in UTC, and `ms` its instant in milliseconds; digits beyond
the millisecond may be rounded either way. -/
def Denotes (text : String) (ms : ℤ) : Prop :=
  ∃ s : Stamp, text.toList = s.text ∧ s.Valid ∧ |(ms : ℚ) - s.instant| < 1

theorem padded_two {n : ℕ} (h : n < 100) : ∃ a b, padded 2 n = [a, b] ∧ digits [a, b] = some n := by
  have hlen := length_padded (k := 2) (by norm_num) h
  obtain ⟨a, b, hab⟩ := List.length_eq_two.mp hlen
  exact ⟨a, b, hab, hab ▸ digits_padded (by norm_num) h⟩

theorem padded_four {n : ℕ} (h : n < 10000) :
    ∃ a b c d, padded 4 n = [a, b, c, d] ∧ digits [a, b, c, d] = some n := by
  have hlen := length_padded (k := 4) (by norm_num) h
  match hpad : padded 4 n, hlen with
  | [a, b, c, d], _ => exact ⟨a, b, c, d, rfl, hpad ▸ digits_padded (by norm_num) h⟩

theorem padded_of_two {a b : Char} {n : ℕ} (h : digits [a, b] = some n) :
    padded 2 n = [a, b] ∧ n < 100 := padded_of_digits_eq (List.cons_ne_nil _ _) h

theorem padded_of_four {a b c d : Char} {n : ℕ} (h : digits [a, b, c, d] = some n) :
    padded 4 n = [a, b, c, d] ∧ n < 10000 := by
  obtain ⟨hpad, hlt⟩ := padded_of_digits_eq (List.cons_ne_nil _ _) h
  exact ⟨hpad, lt_of_lt_of_eq hlt (by norm_num)⟩

theorem length_dateTime (y : Fin 10000) (m d h n s : Fin 100) : (dateTime y m d h n s).length = 19 := by
  have h4 := length_padded (k := 4) (by norm_num) y.isLt
  have h2 : ∀ x : Fin 100, (padded 2 x).length = 2 := fun x => length_padded (by norm_num) x.isLt
  simp only [dateTime, List.length_append, h4, h2, List.length_singleton]

theorem fieldsOf_dateTime (y : Fin 10000) (m d h n s : Fin 100) :
    fieldsOf (dateTime y m d h n s) = some (y.val, m.val, d.val, h.val, n.val, s.val) := by
  obtain ⟨y₁, y₂, y₃, y₄, hy, hyear⟩ := padded_four y.isLt
  obtain ⟨m₁, m₂, hm, hmonth⟩ := padded_two m.isLt
  obtain ⟨d₁, d₂, hd, hday⟩ := padded_two d.isLt
  obtain ⟨h₁, h₂, hh, hhour⟩ := padded_two h.isLt
  obtain ⟨n₁, n₂, hn, hminute⟩ := padded_two n.isLt
  obtain ⟨s₁, s₂, hs, hsecond⟩ := padded_two s.isLt
  rw [dateTime, hy, hm, hd, hh, hn, hs]
  simp only [List.cons_append, List.nil_append, fieldsOf, hyear, hmonth, hday, hhour, hminute, hsecond]
  rfl

theorem fieldsOf_eq_some {text : List Char} {y m d h n s : ℕ}
    (hfields : fieldsOf text = some (y, m, d, h, n, s)) :
    (y < 10000 ∧ m < 100 ∧ d < 100 ∧ h < 100 ∧ n < 100 ∧ s < 100) ∧ text = dateTime y m d h n s := by
  unfold fieldsOf at hfields
  split at hfields
  · simp only [Option.bind_eq_bind, Option.bind_eq_some_iff, Option.pure_def, Option.some.injEq,
      Prod.mk.injEq] at hfields
    obtain ⟨_, hyear, _, hmonth, _, hday, _, hhour, _, hminute, _, hsecond, rfl, rfl, rfl, rfl, rfl, rfl⟩ :=
      hfields
    obtain ⟨hy, hylt⟩ := padded_of_four hyear
    obtain ⟨hm, hmlt⟩ := padded_of_two hmonth
    obtain ⟨hd, hdlt⟩ := padded_of_two hday
    obtain ⟨hh, hhlt⟩ := padded_of_two hhour
    obtain ⟨hn, hnlt⟩ := padded_of_two hminute
    obtain ⟨hs, hslt⟩ := padded_of_two hsecond
    refine ⟨⟨hylt, hmlt, hdlt, hhlt, hnlt, hslt⟩, ?_⟩
    rw [dateTime, hy, hm, hd, hh, hn, hs]
    rfl
  · cases hfields

/-! ## Parsing -/

theorem tailMs_tail (s : Stamp) :
    ∃ ms : ℕ, tailMs s.tail = .ok (some ms) ∧ |(ms : ℚ) - 1000 * s.fractionSeconds| < 1 := by
  unfold Stamp.tail Stamp.fractionSeconds
  cases s.fraction with
  | none => exact ⟨0, rfl, by norm_num⟩
  | some text =>
    obtain ⟨text, hne, hall⟩ := text
    obtain ⟨ms, hms, hclose⟩ := fractionMs_eq hne hall
    have hdigit : ∀ c ∈ text, decide (c ≠ 'Z') = true := by
      intro c hc
      have := List.all_eq_true.mp hall c hc
      rw [decide_eq_true_eq]
      rintro rfl
      exact absurd this (by decide)
    refine ⟨ms, ?_, hclose⟩
    dsimp only
    rw [tailMs, if_pos (List.mem_append_right _ (List.mem_singleton.mpr rfl)),
      List.dropWhile_append_of_pos hdigit, List.takeWhile_append_of_pos hdigit]
    simpa using hms

/-- What a tail that is read looks like. -/
theorem tailMs_eq_ok {text : List Char} {ms : ℕ} (h : tailMs text = .ok (some ms)) :
    ∃ fraction : Option Digits, text = (match fraction with
      | none => ['Z']
      | some digits => '.' :: (digits.val ++ ['Z'])) := by
  unfold tailMs at h
  split at h
  · exact ⟨none, rfl⟩
  · next rest =>
    split at h
    · split at h
      · next hrest =>
        have hms : fractionMs (rest.takeWhile (· ≠ 'Z')) = some ms := by simpa using h
        unfold fractionMs at hms
        split at hms
        · cases hms
        · next hempty =>
          obtain ⟨_, hn, -⟩ := Option.map_eq_some_iff.mp hms
          obtain ⟨n, hn, -⟩ := Option.bind_eq_some_iff.mp hn
          have hall := (digits_eq_some.mp hn).1
          refine ⟨some ⟨rest.takeWhile (· ≠ 'Z'), by simpa using hempty, hall⟩, ?_⟩
          dsimp only
          conv_lhs => rw [← List.takeWhile_append_dropWhile (p := (· ≠ 'Z')) (l := rest), hrest]
      · cases h
    · cases h
  · cases h

/-- A date and time with a fraction that no `Z` ends. -/
def Unterminated (text : String) : Prop :=
  ∃ (y : Fin 10000) (m d h n s : Fin 100) (rest : List Char),
    text.toList = dateTime y m d h n s ++ '.' :: rest ∧ 'Z' ∉ rest

theorem tailMs_eq_error {text : List Char} (h : tailMs text = .error ()) :
    ∃ rest, text = '.' :: rest ∧ 'Z' ∉ rest := by
  unfold tailMs at h
  split at h
  · cases h
  · next rest =>
    split at h
    · cases h
    · next hZ => exact ⟨rest, rfl, hZ⟩
  · cases h

theorem take_dateTime {text : String} {y : Fin 10000} {m d h n s : Fin 100} {rest : List Char}
    (htext : text.toList = dateTime y m d h n s ++ rest) :
    text.toList.take 19 = dateTime y m d h n s ∧ text.toList.drop 19 = rest := by
  have hlen := length_dateTime y m d h n s
  rw [htext]
  exact ⟨List.take_left' hlen, List.drop_left' hlen⟩

theorem parseIsoMs_unterminated {text : String} (h : Unterminated text) : parseIsoMs text = .error () := by
  obtain ⟨y, m, d, h, n, s, rest, htext, hZ⟩ := h
  obtain ⟨htake, hdrop⟩ := take_dateTime htext
  rw [parseIsoMs, htake, hdrop, fieldsOf_dateTime]
  dsimp only
  rw [tailMs, if_neg hZ]
  rfl

/-- The answer to a timestamp whose month and day look right. -/
theorem parseIsoMs_stamp {text : String} {s : Stamp} (htext : text.toList = s.text) :
    ∃ ms : ℕ, |(ms : ℚ) - 1000 * s.fractionSeconds| < 1 ∧
      parseIsoMs text = .ok (if 1 ≤ s.month.val ∧ s.month.val ≤ 12 ∧ 1 ≤ s.day.val ∧ s.day.val ≤ 31 then
        some (daysFromCivil s.year s.month s.day * 86400000 + s.hour.val * 3600000 +
          s.minute.val * 60000 + s.second.val * 1000 + ms) else none) := by
  obtain ⟨ms, htail, hclose⟩ := tailMs_tail s
  obtain ⟨htake, hdrop⟩ := take_dateTime htext
  refine ⟨ms, hclose, ?_⟩
  rw [parseIsoMs, htake, hdrop, fieldsOf_dateTime]
  dsimp only
  rw [htail]
  simp only [bind, Except.bind, pure, Except.pure]
  split <;> rfl

theorem parseIsoMs_cases (text : String) :
    parseIsoMs text = .ok none ∨ Unterminated text ∨ ∃ s : Stamp, text.toList = s.text := by
  cases hfields : fieldsOf (text.toList.take 19) with
  | none =>
    left
    rw [parseIsoMs, hfields]
  | some fields =>
    obtain ⟨y, m, d, h, n, s⟩ := fields
    obtain ⟨⟨hy, hm, hd, hh, hn, hs⟩, htake⟩ := fieldsOf_eq_some hfields
    have hsplit : text.toList = dateTime y m d h n s ++ text.toList.drop 19 := by
      rw [← htake, List.take_append_drop]
    cases htail : tailMs (text.toList.drop 19) with
    | error u =>
      obtain ⟨rest, hrest, hZ⟩ := tailMs_eq_error htail
      rw [hrest] at hsplit
      exact .inr (.inl ⟨⟨y, hy⟩, ⟨m, hm⟩, ⟨d, hd⟩, ⟨h, hh⟩, ⟨n, hn⟩, ⟨s, hs⟩, rest, hsplit, hZ⟩)
    | ok r =>
      cases r with
      | none =>
        left
        rw [parseIsoMs, hfields]
        dsimp only
        rw [htail]
        rfl
      | some ms =>
        obtain ⟨fraction, hfraction⟩ := tailMs_eq_ok htail
        refine .inr (.inr ⟨⟨⟨y, hy⟩, ⟨m, hm⟩, ⟨d, hd⟩, ⟨h, hh⟩, ⟨n, hn⟩, ⟨s, hs⟩, fraction⟩, ?_⟩)
        rw [hsplit, hfraction]
        rfl

theorem stamp_text_injective {s t : Stamp} (h : s.text = t.text) : s = t := by
  have hhead : s.head = t.head ∧ s.tail = t.tail := by
    apply List.append_inj h
    rw [Stamp.head, Stamp.head, length_dateTime, length_dateTime]
  obtain ⟨hdate, htail⟩ := hhead
  have hfields := congrArg fieldsOf hdate
  rw [Stamp.head, Stamp.head, fieldsOf_dateTime, fieldsOf_dateTime] at hfields
  simp only [Option.some.injEq, Prod.mk.injEq, Fin.val_inj] at hfields
  obtain ⟨hy, hm, hd, hh, hn, hs⟩ := hfields
  have hfraction : s.fraction = t.fraction := by
    unfold Stamp.tail at htail
    revert htail
    cases s.fraction <;> cases t.fraction
    · exact fun _ => rfl
    · exact fun htail => absurd (List.cons.inj htail).1 (by decide)
    · exact fun htail => absurd (List.cons.inj htail).1 (by decide)
    · intro htail
      exact congrArg some (Subtype.ext (List.append_cancel_right (List.cons.inj htail).2))
  cases s
  cases t
  simp only at hy hm hd hh hn hs hfraction
  rw [hy, hm, hd, hh, hn, hs, hfraction]

/-- A valid timestamp has the milliseconds that the source computes. -/
theorem close_of_valid {s : Stamp} (hvalid : s.Valid) {ms : ℕ}
    (hclose : |(ms : ℚ) - 1000 * s.fractionSeconds| < 1) :
    |((daysFromCivil s.year s.month s.day * 86400000 + s.hour.val * 3600000 + s.minute.val * 60000 +
      s.second.val * 1000 + ms : ℤ) : ℚ) - s.instant| < 1 := by
  rw [daysFromCivil_eq _ _ hvalid.month.1 hvalid.month.2, Stamp.instant]
  push_cast
  convert hclose using 2
  ring

theorem monthLength_le (y m : ℕ) : monthLength y m ≤ 31 := by
  unfold monthLength
  split_ifs <;> norm_num

/-- A text is parsed without a panic, and only as the instant of a valid timestamp, exactly if it is
no date and time with an unterminated fraction and, being a timestamp with a month up to 12 and a
day up to 31, is a valid one. -/
theorem parseIsoMs_strict_iff (text : String) :
    (∃ r, parseIsoMs text = .ok r ∧ ∀ ms, r = some ms → Denotes text ms) ↔
      ¬ Unterminated text ∧ ∀ s : Stamp, text.toList = s.text →
        1 ≤ s.month.val ∧ s.month.val ≤ 12 ∧ 1 ≤ s.day.val ∧ s.day.val ≤ 31 → s.Valid := by
  constructor
  · rintro ⟨r, hr, hdenotes⟩
    refine ⟨fun h => ?_, fun s htext hrange => ?_⟩
    · rw [parseIsoMs_unterminated h] at hr
      cases hr
    · obtain ⟨ms, -, hparse⟩ := parseIsoMs_stamp htext
      rw [hparse, if_pos hrange, Except.ok.injEq] at hr
      obtain ⟨t, ht, hvalid, -⟩ := hdenotes _ hr.symm
      rwa [stamp_text_injective (htext.symm.trans ht)]
  · rintro ⟨hended, hvalid⟩
    rcases parseIsoMs_cases text with hnone | hunterminated | ⟨s, htext⟩
    · exact ⟨none, hnone, fun ms h => nomatch h⟩
    · exact absurd hunterminated hended
    · obtain ⟨ms, hclose, hparse⟩ := parseIsoMs_stamp htext
      refine ⟨_, hparse, fun v hv => ?_⟩
      split at hv
      · next hrange =>
        have hs := hvalid s htext hrange
        obtain rfl := Option.some_inj.mp hv
        exact ⟨s, htext, hs, close_of_valid hs hclose⟩
      · cases hv

theorem parseIsoMs_not_total : parseIsoMs "2026-01-01T00:00:00.5" = .error () := by decide +kernel

/-! ## Round trip -/

/-- The fraction that is written for some milliseconds. -/
def millisDigits (millis : ℕ) (h : millis < 1000) : Digits :=
  ⟨padded 3 millis, by
    have hlen := length_padded (k := 3) (by norm_num) h
    constructor
    · intro hnil
      rw [hnil] at hlen
      cases hlen
    · exact (digits_eq_some.mp (digits_padded (k := 3) (by norm_num) h)).1⟩

theorem fractionValue_millisDigits (millis : ℕ) (h : millis < 1000) :
    fractionValue (millisDigits millis h).val = millis / 1000 := by
  have hlen := length_padded (k := 3) (by norm_num) h
  have hvalue := (digits_eq_some.mp (digits_padded (k := 3) (by norm_num) h)).2
  rw [fractionValue, millisDigits, hlen, hvalue]
  norm_num

/-- The timestamp that is written for a millisecond count. -/
theorem isoFromUnixMs_text {ms : ℤ} (h₀ : dayNumber 0 1 1 ≤ ms / 86400000)
    (h₁ : ms / 86400000 < dayNumber 10000 1 1) :
    ∃ s : Stamp, (isoFromUnixMs ms).toList = s.text ∧ s.fractionSeconds = (ms % 1000 : ℤ) / 1000 ∧
      (1 ≤ s.month.val ∧ s.month.val ≤ 12 ∧ 1 ≤ s.day.val ∧ s.day.val ≤ 31) ∧
      daysFromCivil s.year s.month s.day = ms / 86400000 ∧
      (s.hour.val * 3600 + s.minute.val * 60 + s.second.val : ℤ) = ms / 1000 % 86400 := by
  obtain ⟨hyear₀, hyear₁⟩ := civilFromDays_year h₀ h₁
  obtain ⟨⟨hmonth₀, hmonth₁⟩, hday₀, hday₁⟩ := civilFromDays_bounds (ms / 86400000)
  have hnumber := daysFromCivil_civilFromDays (ms / 86400000)
  clear h₀ h₁
  have hdays : ms / 1000 / 86400 = ms / 86400000 := by omega
  rcases hdate : civilFromDays (ms / 86400000) with ⟨y, m, d⟩
  rw [hdate] at hyear₀ hyear₁ hmonth₀ hmonth₁ hday₀ hday₁ hnumber
  dsimp only at hyear₀ hyear₁ hmonth₀ hmonth₁ hday₀ hday₁ hnumber
  have hmillis : (ms % 1000).toNat < 1000 := by omega
  have hclock : (ms / 1000 % 86400).toNat < 86400 := by omega
  refine ⟨⟨⟨y.toNat, by omega⟩, ⟨m, by omega⟩, ⟨d, by omega⟩,
    ⟨(ms / 1000 % 86400).toNat / 3600, by omega⟩, ⟨(ms / 1000 % 86400).toNat % 3600 / 60, by omega⟩,
    ⟨(ms / 1000 % 86400).toNat % 60, by omega⟩, some (millisDigits (ms % 1000).toNat hmillis)⟩,
    ?_, ?_, ⟨hmonth₀, hmonth₁, hday₀, hday₁⟩, ?_, ?_⟩
  · unfold isoFromUnixMs
    dsimp only
    rw [hdays, hdate, String.toList_ofList]
    simp only [shownYear, if_pos hyear₀, Stamp.text, Stamp.head, Stamp.tail, dateTime, millisDigits,
      List.append_assoc, List.cons_append, List.nil_append]
  · rw [Stamp.fractionSeconds]
    dsimp only
    rw [fractionValue_millisDigits]
    have hcast : (((ms % 1000).toNat : ℕ) : ℚ) = ((ms % 1000 : ℤ) : ℚ) := by
      rw [← Int.cast_natCast, Int.toNat_of_nonneg (by omega)]
    rw [hcast]
  · dsimp only
    rw [Int.toNat_of_nonneg hyear₀, hnumber]
  · dsimp only
    push_cast
    omega

/-- What is written for a day of the years 0 to 9999 is read back. -/
theorem parseIsoMs_isoFromUnixMs {ms : ℤ} (h₀ : dayNumber 0 1 1 ≤ ms / 86400000)
    (h₁ : ms / 86400000 < dayNumber 10000 1 1) : parseIsoMs (isoFromUnixMs ms) = .ok (some ms) := by
  obtain ⟨s, htext, hfraction, hrange, hday, hclock⟩ := isoFromUnixMs_text h₀ h₁
  obtain ⟨millis, hclose, hparse⟩ := parseIsoMs_stamp htext
  clear h₀ h₁
  rw [hparse, if_pos hrange, hday]
  have hmillis : (millis : ℤ) = ms % 1000 := by
    rw [hfraction, mul_div_cancel₀ _ (by norm_num)] at hclose
    have hint : |(millis : ℤ) - ms % 1000| < 1 := by exact_mod_cast hclose
    exact sub_eq_zero.mp (Int.abs_lt_one_iff.mp hint)
  have hsum : ms / 86400000 * 86400000 + (s.hour.val : ℤ) * 3600000 + s.minute.val * 60000 +
      s.second.val * 1000 + millis = ms := by
    clear hday hparse hrange htext
    omega
  rw [hsum]

theorem dayNumber_zero : dayNumber 0 1 1 = -719528 := by
  rw [dayNumber, daysBeforeYear_1970]
  rfl

theorem dayNumber_tenThousand : dayNumber 10000 1 1 = 2932897 := by
  rw [← daysFromCivil_eq 10000 1 le_rfl (by norm_num)]
  decide

/-- The last millisecond before 1970. -/
theorem parseIsoMs_isoFromUnixMs_neg : parseIsoMs (isoFromUnixMs (-1)) = .ok (some (-1)) :=
  parseIsoMs_isoFromUnixMs (by rw [dayNumber_zero]; decide) (by rw [dayNumber_tenThousand]; decide)

end PrtsMcp.IsoText
