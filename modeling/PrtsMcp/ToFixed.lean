import Mathlib

/-!
# Fixed decimals of doubles

A double, given by its bits, printed with a fixed number of fraction digits.
-/
namespace PrtsMcp.ToFixed

/-! ## Digits -/

/-- The last digits of a number, as many as asked for. -/
def fractionDigits (digits n : ℕ) : List Char :=
  (List.range digits).map fun i => Nat.digitChar (n / 10 ^ (digits - 1 - i) % 10)

/-- `n` with a decimal point before its last digits. -/
def layout (digits n : ℕ) : String :=
  toString (n / 10 ^ digits) ++
    if digits = 0 then "" else "." ++ String.ofList (fractionDigits digits n)

@[simp]
theorem length_fractionDigits (digits n : ℕ) : (fractionDigits digits n).length = digits := by
  simp [fractionDigits]

theorem fractionDigits_succ (digits n : ℕ) :
    fractionDigits (digits + 1) n = fractionDigits digits (n / 10) ++ [Nat.digitChar (n % 10)] := by
  rw [fractionDigits, List.range_succ, List.map_append, fractionDigits]
  congr 1
  · apply List.map_congr_left
    intro i hi
    have hlt : i < digits := List.mem_range.mp hi
    have hexponent : digits + 1 - 1 - i = digits - 1 - i + 1 := by omega
    rw [hexponent, Nat.pow_succ', Nat.div_div_eq_div_mul]
  · simp

theorem leftpad_concat (width : ℕ) (cs : List Char) (c : Char) :
    (cs ++ [c]).leftpad (width + 1) '0' = cs.leftpad width '0' ++ [c] := by
  simp [List.leftpad]

/-- Padded with zeros to one more than the fraction digits, a number shows its integer part and then
its fraction digits. -/
theorem leftpad_toDigits (digits n : ℕ) :
    (Nat.toDigits 10 n).leftpad (digits + 1) '0' =
      Nat.toDigits 10 (n / 10 ^ digits) ++ fractionDigits digits n := by
  induction digits generalizing n with
  | zero =>
    have hlength : 1 ≤ (Nat.toDigits 10 n).length :=
      List.length_pos_iff.mpr Nat.toDigits_ne_nil
    simp [List.leftpad, fractionDigits, Nat.sub_eq_zero_of_le hlength]
  | succ digits ih =>
    rw [fractionDigits_succ, Nat.pow_succ', ← Nat.div_div_eq_div_mul, ← List.append_assoc, ← ih]
    rcases Nat.lt_or_ge n 10 with hsmall | hlarge
    · have hdigits : Nat.toDigits 10 n = [] ++ [Nat.digitChar n] := Nat.toDigits_of_lt_base hsmall
      have hzero : n / 10 = 0 := Nat.div_eq_of_lt hsmall
      rw [hdigits, leftpad_concat, hzero, Nat.mod_eq_of_lt hsmall]
      congr 1
      have hnil : Nat.toDigits 10 0 = [] ++ ['0'] := rfl
      rw [hnil, leftpad_concat]
      simp [List.leftpad, List.replicate_succ']
    · have hstep := Nat.toDigits_append_toDigits (b := 10) (n := n / 10) (d := n % 10) (by omega)
        (by omega) (by omega)
      rw [Nat.div_add_mod, Nat.toDigits_of_lt_base (Nat.mod_lt n (by omega))] at hstep
      rw [← hstep, leftpad_concat]

/-! ## Rounding -/

/-- No decimal with these fraction digits is closer to `x` than `n`, and none as close is larger. -/
def IsClosest (digits : ℕ) (x : ℚ) (n : ℕ) : Prop :=
  ∀ k : ℤ, |x - n / 10 ^ digits| ≤ |x - k / 10 ^ digits| ∧
    (|x - n / 10 ^ digits| = |x - k / 10 ^ digits| → k ≤ n)

theorem isClosest_of_floor {digits : ℕ} {x : ℚ} {n : ℕ} (h : ⌊x * 10 ^ digits + 1 / 2⌋ = (n : ℤ)) :
    IsClosest digits x n := by
  intro k
  have hpos : (0 : ℚ) < 10 ^ digits := by positivity
  obtain ⟨hlow, hhigh⟩ := Int.floor_eq_iff.mp h
  push_cast at hlow hhigh
  generalize hy : x * 10 ^ digits = y at hlow hhigh
  have hx : x = y / 10 ^ digits := by rw [← hy, mul_div_cancel_right₀ _ hpos.ne']
  have hscale : ∀ z : ℚ, |x - z / 10 ^ digits| = |y - z| / 10 ^ digits := by
    intro z
    rw [hx, ← sub_div, abs_div, abs_of_pos hpos]
  rw [hscale, hscale, div_le_div_iff_of_pos_right hpos, div_left_inj' hpos.ne']
  have hnear : |y - n| ≤ 1 / 2 := abs_le.mpr ⟨by linarith, by linarith⟩
  rcases lt_trichotomy k (n : ℤ) with hlt | heq | hgt
  · have hk : (k : ℚ) + 1 ≤ n := by exact_mod_cast hlt
    have hfar : 1 / 2 ≤ |y - k| := (by linarith : 1 / 2 ≤ y - k).trans (le_abs_self _)
    exact ⟨hnear.trans hfar, fun _ => hlt.le⟩
  · subst heq
    exact ⟨le_of_eq (by norm_cast), fun _ => le_rfl⟩
  · have hk : (n : ℚ) + 1 ≤ k := by exact_mod_cast hgt
    have hfar : 1 / 2 < |y - k| := (by linarith : 1 / 2 < -(y - k)).trans_le (neg_le_abs _)
    exact ⟨hnear.trans hfar.le, fun heq => absurd heq (hnear.trans_lt hfar).ne⟩

theorem floor_div_two_pow_add_half (a : ℕ) {shift : ℕ} (hshift : 0 < shift) :
    ⌊(a : ℚ) / 2 ^ shift + 1 / 2⌋ =
      ((a / 2 ^ shift + if 2 ^ (shift - 1) ≤ a % 2 ^ shift then 1 else 0 : ℕ) : ℤ) := by
  obtain ⟨k, rfl⟩ := Nat.exists_eq_add_of_lt hshift
  rw [Nat.zero_add, Nat.add_sub_cancel]
  have hpos : (0 : ℚ) < 2 ^ k := by positivity
  have hlt : a % 2 ^ (k + 1) < 2 ^ (k + 1) := Nat.mod_lt _ (by positivity)
  have hsplit : (a : ℚ) = 2 ^ (k + 1) * (a / 2 ^ (k + 1) : ℕ) + (a % 2 ^ (k + 1) : ℕ) := by
    exact_mod_cast (Nat.div_add_mod a (2 ^ (k + 1))).symm
  generalize a / 2 ^ (k + 1) = quot at hsplit ⊢
  generalize a % 2 ^ (k + 1) = rem at hsplit hlt ⊢
  have hrem : (rem : ℚ) < 2 * 2 ^ k := by
    rw [← pow_succ']
    exact_mod_cast hlt
  have hvalue : (a : ℚ) / 2 ^ (k + 1) + 1 / 2 = quot + (rem + 2 ^ k) / (2 * 2 ^ k) := by
    rw [hsplit, pow_succ']
    field_simp
    ring
  rw [hvalue, Int.floor_eq_iff]
  push_cast
  split_ifs with hhalf
  · have hhalf' : (2 : ℚ) ^ k ≤ rem := by exact_mod_cast hhalf
    have hlow : 1 ≤ ((rem : ℚ) + 2 ^ k) / (2 * 2 ^ k) := (one_le_div (by positivity)).mpr (by linarith)
    have hhigh : ((rem : ℚ) + 2 ^ k) / (2 * 2 ^ k) < 2 := (div_lt_iff₀ (by positivity)).mpr (by linarith)
    constructor <;> linarith
  · have hhalf' : (rem : ℚ) < 2 ^ k := by exact_mod_cast not_le.mp hhalf
    have hlow : 0 ≤ ((rem : ℚ) + 2 ^ k) / (2 * 2 ^ k) := by positivity
    have hhigh : ((rem : ℚ) + 2 ^ k) / (2 * 2 ^ k) < 1 := (div_lt_one (by positivity)).mpr (by linarith)
    constructor <;> linarith

/-! ## Doubles -/

def negative (bits : UInt64) : Bool := bits >>> 63 = 1

def biased (bits : UInt64) : UInt64 := bits >>> 52 &&& 0x7ff

def mantissa (bits : UInt64) : UInt64 := bits &&& 0xfffffffffffff

def isNan (bits : UInt64) : Bool := biased bits = 0x7ff && mantissa bits ≠ 0

def isInfinite (bits : UInt64) : Bool := biased bits = 0x7ff && mantissa bits = 0

def IsFinite (bits : UInt64) : Prop := bits.toNat / 2 ^ 52 % 2 ^ 11 ≠ 2 ^ 11 - 1

instance : DecidablePred IsFinite := fun _ => inferInstanceAs (Decidable (_ ≠ _))

/-- The absolute value of a finite double, by the exponent and the mantissa that its bits hold. -/
def magnitude (bits : UInt64) : ℚ :=
  let exponent : ℕ := bits.toNat / 2 ^ 52 % 2 ^ 11
  let fraction : ℕ := bits.toNat % 2 ^ 52
  if exponent = 0 then fraction * 2 ^ (-1074 : ℤ)
  else (2 ^ 52 + fraction) * 2 ^ ((exponent : ℤ) - 1075)

/-- `m` and `e` of the value `m * 2 ^ e`. -/
def parts (bits : UInt64) : UInt64 × ℤ :=
  if biased bits = 0 then (mantissa bits, -1074)
  else (mantissa bits ||| (1 : UInt64) <<< 52, (biased bits).toNat - 1075)

/-! ## The scaled value -/

/-- A `u128`; `none` where a result leaves its type. -/
def u128 (x : ℕ) : Option ℕ := if x < 2 ^ 128 then some x else none

/-- An `i128`; `none` where a result leaves its type. -/
def i128 (x : ℤ) : Option ℤ := if -2 ^ 127 ≤ x ∧ x < 2 ^ 127 then some x else none

/-- A shift of an `i128` to the left; `none` where bits are lost as well. -/
def shlI128 (x : ℤ) (amount : ℕ) : Option ℤ :=
  if amount < 128 then i128 (x * 2 ^ amount) else none

def pow5 : ℕ → Option ℕ
  | 0 => some 1
  | digits + 1 => do u128 ((← pow5 digits) * 5)

/-- `m * 2 ^ e * 10 ^ digits`, rounded to an integer; `none` where an operation overflows. -/
def scaled (m : ℕ) (e : ℤ) (digits : ℕ) : Option ℤ := do
  let mScaled ← u128 (m * (← pow5 digits))
  if 0 ≤ e + digits then shlI128 (← i128 mScaled) (e + digits).toNat
  else
    let shift := (-(e + digits)).toNat
    if 128 ≤ shift then return if shift = 128 ∧ 2 ^ 127 ≤ mScaled then 1 else 0
    let quot ← i128 (mScaled >>> shift)
    let rem ← i128 (mScaled &&& ((← u128 (1 <<< shift)) - 1) : ℕ)
    let half ← shlI128 1 (shift - 1)
    if half ≤ rem then i128 (quot + 1) else return quot

def jsToFixed (jsNumberToString : UInt64 → String) (bits : UInt64) (digits : ℕ) :
    Option String := do
  if isNan bits then return "NaN"
  if isInfinite bits then return if negative bits then "-Infinity" else "Infinity"
  if 10 ^ 21 ≤ magnitude bits then return jsNumberToString bits
  let (m, e) := parts bits
  let scaled ← scaled m.toNat e digits
  let sign := if negative bits then "-" else ""
  let digitsVal := toString scaled.natAbs
  if digits = 0 then return sign ++ digitsVal
  let padded := digitsVal.toList.leftpad (digits + 1) '0'
  let split := padded.length - digits
  return sign ++ String.ofList (padded.take split) ++ "." ++ String.ofList (padded.drop split)

theorem u128_of_lt {x : ℕ} (h : x < 2 ^ 128) : u128 x = some x := if_pos h

theorem i128_of_lt {x : ℕ} (h : x < 2 ^ 127) : i128 x = some (x : ℤ) :=
  if_pos ⟨by omega, by exact_mod_cast h⟩

theorem pow5_eq {digits : ℕ} (h : digits ≤ 6) : pow5 digits = some (5 ^ digits) := by
  induction digits with
  | zero => rfl
  | succ digits ih =>
    have hle : 5 ^ digits ≤ 5 ^ 5 := Nat.pow_le_pow_right (by norm_num) (by omega)
    have hlt : 5 ^ digits * 5 < 2 ^ 128 := by omega
    rw [pow5, ih (by omega), Nat.pow_succ]
    exact u128_of_lt hlt

theorem toNat_negative (bits : UInt64) : negative bits = decide (bits.toNat / 2 ^ 63 = 1) := by
  rw [negative, decide_eq_decide, ← UInt64.toNat_inj]
  simp [Nat.shiftRight_eq_div_pow]

theorem toNat_biased (bits : UInt64) : (biased bits).toNat = bits.toNat / 2 ^ 52 % 2 ^ 11 := by
  rw [biased, UInt64.toNat_and, UInt64.toNat_shiftRight]
  exact (Nat.and_two_pow_sub_one_eq_mod _ 11).trans (by rw [Nat.shiftRight_eq_div_pow]; rfl)

theorem toNat_mantissa (bits : UInt64) : (mantissa bits).toNat = bits.toNat % 2 ^ 52 := by
  rw [mantissa, UInt64.toNat_and]
  exact Nat.and_two_pow_sub_one_eq_mod _ 52

theorem toNat_mantissa_or (bits : UInt64) :
    (mantissa bits ||| (1 : UInt64) <<< 52).toNat = 2 ^ 52 + bits.toNat % 2 ^ 52 := by
  rw [UInt64.toNat_or, toNat_mantissa, Nat.or_comm]
  have hlt : bits.toNat % 2 ^ 52 < 2 ^ 52 := Nat.mod_lt _ (by norm_num)
  exact (Nat.two_pow_add_eq_or_of_lt hlt 1).symm

/-- What the bits hold is `m * 2 ^ e`, with `m` of at most 53 bits. -/
theorem parts_spec (bits : UInt64) :
    magnitude bits = (parts bits).1.toNat * 2 ^ (parts bits).2 ∧ (parts bits).1.toNat < 2 ^ 53 ∧
      ((parts bits).1.toNat = 0 → (parts bits).2 = -1074) := by
  have hlt : bits.toNat % 2 ^ 52 < 2 ^ 52 := Nat.mod_lt _ (by norm_num)
  have hzero : biased bits = 0 ↔ bits.toNat / 2 ^ 52 % 2 ^ 11 = 0 := by
    rw [← toNat_biased, ← UInt64.toNat_inj]
    rfl
  rw [parts, magnitude]
  by_cases hbiased : biased bits = 0
  · rw [if_pos hbiased, if_pos (hzero.mp hbiased)]
    refine ⟨?_, ?_, fun _ => rfl⟩
    · rw [toNat_mantissa]
    · rw [toNat_mantissa]
      omega
  · rw [if_neg hbiased, if_neg (mt hzero.mpr hbiased)]
    refine ⟨?_, ?_, fun h => ?_⟩
    · rw [toNat_mantissa_or, toNat_biased]
      push_cast
      rfl
    · rw [toNat_mantissa_or]
      omega
    · rw [toNat_mantissa_or] at h
      omega

/-! ## Exactness -/

theorem shlI128_of_lt {x amount : ℕ} (hamount : amount < 128) (h : x * 2 ^ amount < 2 ^ 127) :
    shlI128 x amount = some ((x * 2 ^ amount : ℕ) : ℤ) := by
  have hcast : (x : ℤ) * 2 ^ amount = ((x * 2 ^ amount : ℕ) : ℤ) := by push_cast; rfl
  rw [shlI128, if_pos hamount, hcast]
  exact i128_of_lt h

/-- The branch of the shift to the left. -/
theorem scaled_shl {m digits amount : ℕ} {e : ℤ} (hm : m * 5 ^ digits < 2 ^ 67) (hdigits : digits ≤ 6)
    (hamount : e + digits = amount) (hlt : amount < 128) (hfits : m * 5 ^ digits * 2 ^ amount < 2 ^ 127) :
    scaled m e digits = some ((m * 5 ^ digits * 2 ^ amount : ℕ) : ℤ) := by
  have hu : m * 5 ^ digits < 2 ^ 128 := by omega
  have hi : m * 5 ^ digits < 2 ^ 127 := by omega
  have hnonneg : (0 : ℤ) ≤ (amount : ℤ) := Int.natCast_nonneg amount
  rw [scaled, pow5_eq hdigits, Option.bind_eq_bind, Option.bind_some, u128_of_lt hu,
    Option.bind_eq_bind, Option.bind_some, hamount, if_pos hnonneg, i128_of_lt hi, Option.bind_some,
    Int.toNat_natCast]
  exact shlI128_of_lt hlt hfits

section ShiftRight

variable {m digits shift : ℕ} {e : ℤ} (hm : m * 5 ^ digits < 2 ^ 67) (hdigits : digits ≤ 6)
  (hshift : e + digits = -(shift : ℤ))

include hm hdigits hshift

/-- Shifted by 128 or more, nothing is left. -/
theorem scaled_far (hlarge : 128 ≤ shift) : scaled m e digits = some 0 := by
  have hu : m * 5 ^ digits < 2 ^ 128 := by omega
  have hneg : ¬ (0 : ℤ) ≤ -(shift : ℤ) := by omega
  have hamount : (-(-(shift : ℤ))).toNat = shift := by omega
  have hnot : ¬ (shift = 128 ∧ 2 ^ 127 ≤ m * 5 ^ digits) := fun h => by omega
  rw [scaled, pow5_eq hdigits, Option.bind_eq_bind, Option.bind_some, u128_of_lt hu,
    Option.bind_eq_bind, Option.bind_some, hshift, if_neg hneg]
  dsimp only
  rw [hamount, if_pos hlarge, if_neg hnot]
  rfl

theorem scaled_near (hpos : 0 < shift) (hsmall : shift < 128) :
    scaled m e digits = some ((m * 5 ^ digits / 2 ^ shift +
      if 2 ^ (shift - 1) ≤ m * 5 ^ digits % 2 ^ shift then 1 else 0 : ℕ) : ℤ) := by
  have hu : m * 5 ^ digits < 2 ^ 128 := by omega
  have hneg : ¬ (0 : ℤ) ≤ -(shift : ℤ) := by omega
  have hamount : (-(-(shift : ℤ))).toNat = shift := by omega
  have hpow : 2 ^ shift < 2 ^ 128 := Nat.pow_lt_pow_right (by norm_num) hsmall
  have hhalf : 1 * 2 ^ (shift - 1) < 2 ^ 127 := by
    rw [one_mul]
    exact Nat.pow_lt_pow_right (by norm_num) (by omega)
  have hmask : u128 (1 <<< shift) = some (2 ^ shift) := by
    rw [Nat.shiftLeft_eq, one_mul, u128_of_lt hpow]
  have hone : shlI128 1 (shift - 1) = some ((2 ^ (shift - 1) : ℕ) : ℤ) := by
    have h := shlI128_of_lt (show shift - 1 < 128 by omega) hhalf
    rwa [one_mul] at h
  rw [scaled, pow5_eq hdigits, Option.bind_eq_bind, Option.bind_some, u128_of_lt hu,
    Option.bind_eq_bind, Option.bind_some, hshift, if_neg hneg]
  dsimp only
  rw [hamount, if_neg (not_le.mpr hsmall)]
  generalize m * 5 ^ digits = mScaled at hm hu
  have hquot : mScaled / 2 ^ shift < 2 ^ 67 := (Nat.div_le_self _ _).trans_lt hm
  have hrem : mScaled % 2 ^ shift < 2 ^ 67 := (Nat.mod_le _ _).trans_lt hm
  have hmasked : mScaled &&& (2 ^ shift - 1) = mScaled % 2 ^ shift :=
    Nat.and_two_pow_sub_one_eq_mod _ _
  rw [Nat.shiftRight_eq_div_pow, i128_of_lt (by omega), Option.bind_some, hmask, Option.bind_some,
    hmasked, i128_of_lt (by omega), Option.bind_some, hone, Option.bind_some]
  split_ifs with hround hround' hround'
  · exact i128_of_lt (x := mScaled / 2 ^ shift + 1) (by omega)
  · exact absurd (Int.ofNat_le.mp hround) hround'
  · exact absurd (Int.ofNat_le.mpr hround') hround
  · rfl

end ShiftRight

/-- The branch of the shift to the right, rounded half up. -/
theorem scaled_shr {m digits shift : ℕ} {e : ℤ} (hm : m * 5 ^ digits < 2 ^ 67) (hdigits : digits ≤ 6)
    (hshift : e + digits = -(shift : ℤ)) (hpos : 0 < shift) :
    scaled m e digits = some ((m * 5 ^ digits / 2 ^ shift +
      if 2 ^ (shift - 1) ≤ m * 5 ^ digits % 2 ^ shift then 1 else 0 : ℕ) : ℤ) := by
  rcases le_or_gt 128 shift with hlarge | hsmall
  · have hbelow : 2 ^ 127 ≤ 2 ^ (shift - 1) := Nat.pow_le_pow_right (by norm_num) (by omega)
    have hbelow' : 2 ^ 128 ≤ 2 ^ shift := Nat.pow_le_pow_right (by norm_num) hlarge
    have hlt : m * 5 ^ digits < 2 ^ shift := by omega
    have hhalf : ¬ 2 ^ (shift - 1) ≤ m * 5 ^ digits := by omega
    rw [scaled_far hm hdigits hshift hlarge, Nat.mod_eq_of_lt hlt, Nat.div_eq_of_lt hlt, if_neg hhalf]
    rfl
  · exact scaled_near hm hdigits hshift hpos hsmall

/-- The scaled value is rounded half up, and no operation on the way overflows. -/
theorem scaled_eq {m digits : ℕ} {e : ℤ} (hm : m < 2 ^ 53) (hzero : m = 0 → e = -1074)
    (hdigits : digits ≤ 6) (hsmall : (m : ℚ) * 2 ^ e < 10 ^ 21) :
    ∃ n : ℕ, scaled m e digits = some (n : ℤ) ∧
      ⌊(m : ℚ) * 2 ^ e * 10 ^ digits + 1 / 2⌋ = (n : ℤ) := by
  have hfive : 5 ^ digits ≤ 5 ^ 6 := Nat.pow_le_pow_right (by norm_num) hdigits
  have hscaled : m * 5 ^ digits < 2 ^ 67 :=
    (Nat.mul_le_mul hm.le hfive).trans_lt (by norm_num)
  have hvalue : (m : ℚ) * 2 ^ e * 10 ^ digits = (m * 5 ^ digits : ℕ) * 2 ^ (e + digits) := by
    rw [show (10 : ℚ) = 2 * 5 by norm_num, mul_pow, zpow_add₀ (by norm_num), zpow_natCast]
    push_cast
    ring
  rcases le_or_gt 0 (e + digits) with hle | hgt
  · obtain ⟨amount, hamount⟩ := Int.eq_ofNat_of_zero_le hle
    have hexact : (m : ℚ) * 2 ^ e * 10 ^ digits = (m * 5 ^ digits * 2 ^ amount : ℕ) := by
      rw [hvalue, hamount]
      push_cast
      rfl
    have hfits : m * 5 ^ digits * 2 ^ amount < 2 ^ 90 := by
      have hten : (10 : ℚ) ^ digits ≤ 10 ^ 6 := pow_le_pow_right₀ (by norm_num) hdigits
      have hlt : (m : ℚ) * 2 ^ e * 10 ^ digits < 2 ^ 90 :=
        (mul_lt_mul hsmall hten (by positivity) (by positivity)).trans (by norm_num)
      rw [hexact] at hlt
      exact_mod_cast hlt
    have hamount' : amount < 128 := by
      by_contra hlarge
      have hpos : 0 < m := by
        rcases Nat.eq_zero_or_pos m with hm0 | hpos
        · have he := hzero hm0
          omega
        · exact hpos
      have hbig : 2 ^ 128 ≤ 2 ^ amount := Nat.pow_le_pow_right (by norm_num) (not_lt.mp hlarge)
      have hone : 1 ≤ m * 5 ^ digits := Nat.mul_pos hpos (by positivity)
      have := Nat.mul_le_mul hone hbig
      omega
    refine ⟨m * 5 ^ digits * 2 ^ amount, scaled_shl hscaled hdigits hamount hamount' (by omega), ?_⟩
    rw [hexact, Int.floor_eq_iff]
    push_cast
    constructor <;> linarith
  · obtain ⟨shift, hshift⟩ := Int.eq_ofNat_of_zero_le (show 0 ≤ -(e + digits) by omega)
    have hneg : e + digits = -(shift : ℤ) := by omega
    have hpos : 0 < shift := by omega
    refine ⟨_, scaled_shr hscaled hdigits hneg hpos, ?_⟩
    rw [hvalue, hneg, zpow_neg, zpow_natCast, ← div_eq_mul_inv]
    exact floor_div_two_pow_add_half _ hpos

theorem biased_of_isFinite {bits : UInt64} (h : IsFinite bits) : biased bits ≠ 0x7ff := by
  intro hbiased
  apply h
  rw [← toNat_biased, hbiased]
  rfl

/-- What is printed of the scaled value. -/
theorem split_leftpad (digits n : ℕ) :
    let padded := (toString n).toList.leftpad (digits + 1) '0'
    padded.take (padded.length - digits) = (toString (n / 10 ^ digits)).toList ∧
      padded.drop (padded.length - digits) = fractionDigits digits n := by
  have htoString : ∀ k : ℕ, (toString k).toList = Nat.toDigits 10 k := fun k => Nat.toList_repr
  have hlength : (Nat.toDigits 10 (n / 10 ^ digits) ++ fractionDigits digits n).length - digits =
      (Nat.toDigits 10 (n / 10 ^ digits)).length := by
    rw [List.length_append, length_fractionDigits, Nat.add_sub_cancel]
  dsimp only
  rw [htoString, htoString, leftpad_toDigits, hlength, List.take_left, List.drop_left]
  exact ⟨rfl, rfl⟩

/-- A finite double below `10 ^ 21` is printed as its sign and the closest decimal, the larger one of
two, with exactly the fraction digits asked for; nothing overflows. -/
theorem jsToFixed_exact (jsNumberToString : UInt64 → String) (bits : UInt64) (digits : ℕ)
    (hfinite : IsFinite bits) (hsmall : magnitude bits < 10 ^ 21) (hdigits : digits ≤ 6) :
    ∃ n : ℕ, IsClosest digits (magnitude bits) n ∧
      jsToFixed jsNumberToString bits digits =
        some ((if bits.toNat / 2 ^ 63 = 1 then "-" else "") ++ layout digits n) := by
  obtain ⟨hvalue, hm, hzero⟩ := parts_spec bits
  obtain ⟨n, hscaled, hfloor⟩ := scaled_eq hm hzero hdigits (hvalue ▸ hsmall)
  rw [← hvalue] at hfloor
  refine ⟨n, isClosest_of_floor hfloor, ?_⟩
  have hbiased := biased_of_isFinite hfinite
  have hnan : isNan bits = false := by simp [isNan, hbiased]
  have hinfinite : isInfinite bits = false := by simp [isInfinite, hbiased]
  obtain ⟨htake, hdrop⟩ := split_leftpad digits n
  simp only [jsToFixed, hnan, hinfinite, not_le.mpr hsmall, hscaled, toNat_negative, layout, Int.natAbs_natCast,
    Option.bind_eq_bind, Option.bind_some, htake, hdrop, String.ofList_toList, decide_eq_true_eq,
    Bool.false_eq_true, if_false, Option.pure_def]
  by_cases hd : digits = 0
  · subst hd
    simp
  · simp [hd, String.append_assoc]

/-- `0.5` lies between two integers. -/
theorem jsToFixed_exact_half :
    ∃ n : ℕ, IsClosest 0 (magnitude 0x3fe0000000000000) n ∧
      jsToFixed (fun _ => "") 0x3fe0000000000000 0 =
        some ((if (0x3fe0000000000000 : UInt64).toNat / 2 ^ 63 = 1 then "-" else "") ++ layout 0 n) :=
  jsToFixed_exact (fun _ => "") 0x3fe0000000000000 0 (by decide) (by decide +kernel) (by decide)

example : jsToFixed (fun _ => "") 0x4005666666666666 2 = some "2.67" := by decide +kernel

end PrtsMcp.ToFixed
