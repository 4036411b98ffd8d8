import PrtsMcp.IsoTime

/-!
# The civil calendar

Days counted year by year and month by month, and the two conversions of the source against that
count.
-/
namespace PrtsMcp.IsoCalendar

open IsoTime

def isLeap (y : ℕ) : Bool := y % 4 = 0 && (y % 100 ≠ 0 || y % 400 = 0)

def yearLength (y : ℕ) : ℕ := if isLeap y then 366 else 365

def monthLength (y m : ℕ) : ℕ :=
  if m = 2 then if isLeap y then 29 else 28
  else if m = 4 ∨ m = 6 ∨ m = 9 ∨ m = 11 then 30
  else 31

/-- The days from the first of January of the year 0 to that of `y`. -/
def daysBeforeYear : ℕ → ℕ
  | 0 => 0
  | y + 1 => daysBeforeYear y + yearLength y

/-- The days of the year before the month with `m` months before it. -/
def daysBeforeMonth (y : ℕ) : ℕ → ℕ
  | 0 => 0
  | m + 1 => daysBeforeMonth y m + monthLength y (m + 1)

/-- The days from the first of January 1970 to a date. -/
def dayNumber (y m d : ℕ) : ℤ :=
  daysBeforeYear y + daysBeforeMonth y (m - 1) + d - 1 - daysBeforeYear 1970

/-! ## Closed forms -/

theorem isLeap_iff (y : ℕ) : isLeap y = true ↔ y % 4 = 0 ∧ (y % 100 ≠ 0 ∨ y % 400 = 0) := by
  simp [isLeap]

theorem ceilDiv_succ (y k : ℕ) : (y + 1 + k) / (k + 1) = (y + k) / (k + 1) + if y % (k + 1) = 0 then 1 else 0 := by
  rw [Nat.add_right_comm, Nat.succ_div]
  congr 1
  have hdvd : k + 1 ∣ y + k + 1 ↔ y % (k + 1) = 0 := by
    rw [Nat.add_assoc, Nat.dvd_add_left (dvd_refl _), Nat.dvd_iff_mod_eq_zero]
  simp only [hdvd]

/-- One leap day in four years, none in a hundred, and one in four hundred. -/
theorem daysBeforeYear_add (y : ℕ) :
    daysBeforeYear y + (y + 99) / 100 = 365 * y + (y + 3) / 4 + (y + 399) / 400 := by
  induction y with
  | zero => rfl
  | succ y ih =>
    have h4 := ceilDiv_succ y 3
    have h100 := ceilDiv_succ y 99
    have h400 := ceilDiv_succ y 399
    have hleap := isLeap_iff y
    unfold daysBeforeYear yearLength
    rw [h100, h4, h400]
    have h₁ : y % 400 = 0 → y % 100 = 0 := by omega
    have h₂ : y % 100 = 0 → y % 4 = 0 := by omega
    split_ifs <;> simp_all <;> omega

theorem daysBeforeYear_1970 : daysBeforeYear 1970 = 719528 := by
  have h := daysBeforeYear_add 1970
  generalize daysBeforeYear 1970 = days at h ⊢
  omega

theorem daysBeforeMonth_eq (y : ℕ) {m : ℕ} (h₁ : 1 ≤ m) (h₂ : m ≤ 12) :
    daysBeforeMonth y (m - 1) =
      if m ≤ 2 then 31 * (m - 1) else (153 * (m - 3) + 2) / 5 + 59 + if isLeap y then 1 else 0 := by
  interval_cases m <;> cases hleap : isLeap y <;> simp [daysBeforeMonth, monthLength, hleap]

/-! ## The conversions of the source -/

theorem tdiv_era (y : ℤ) : (if 0 ≤ y then y else y - 399).tdiv 400 = y / 400 := by
  split
  · next h => exact Int.tdiv_eq_ediv_of_nonneg h
  · next h =>
    have hneg : (y - 399).tdiv 400 = -((399 - y) / 400) := by
      rw [← Int.tdiv_eq_ediv_of_nonneg (by omega : (0 : ℤ) ≤ 399 - y), ← Int.neg_tdiv, neg_sub]
    omega

theorem tdiv_eraDays (z : ℤ) : (if 0 ≤ z then z else z - 146096).tdiv 146097 = z / 146097 := by
  split
  · next h => exact Int.tdiv_eq_ediv_of_nonneg h
  · next h =>
    have hneg : (z - 146096).tdiv 146097 = -((146096 - z) / 146097) := by
      rw [← Int.tdiv_eq_ediv_of_nonneg (by omega : (0 : ℤ) ≤ 146096 - z), ← Int.neg_tdiv, neg_sub]
    omega

/-- The days before the March that begins the year `y`, from the March of the year 0. -/
def marchDays (y : ℤ) : ℤ := 365 * y + y / 4 - y / 100 + y / 400

/-- The months from March on, and the days before them. -/
def marchMonth (m : ℕ) : ℤ := if 2 < m then m - 3 else m + 9

theorem daysFromCivil_eq_march (y : ℤ) (m d : ℕ) :
    daysFromCivil y m d = marchDays (if m ≤ 2 then y - 1 else y) + (153 * marchMonth m + 2) / 5 + d -
      1 - 719468 := by
  unfold daysFromCivil marchDays marchMonth
  dsimp only
  generalize (if m ≤ 2 then y - 1 else y) = y'
  rw [tdiv_era]
  generalize (153 * (if 2 < m then (m : ℤ) - 3 else m + 9) + 2) / 5 = before
  have h4 : (y' - y' / 400 * 400) / 4 = y' / 4 - y' / 400 * 100 := by omega
  have h100 : (y' - y' / 400 * 400) / 100 = y' / 100 - y' / 400 * 4 := by omega
  rw [h4, h100]
  ring

theorem daysFromCivil_eq (y : ℕ) {m : ℕ} (d : ℕ) (h₁ : 1 ≤ m) (h₂ : m ≤ 12) :
    daysFromCivil y m d = dayNumber y m d := by
  have hyear := daysBeforeYear_add y
  have hleap := isLeap_iff y
  rw [daysFromCivil_eq_march, dayNumber, daysBeforeYear_1970, daysBeforeMonth_eq y h₁ h₂]
  unfold marchDays marchMonth
  by_cases hm : m ≤ 2
  · rw [if_pos hm, if_neg (by omega), if_pos hm]
    have h4 : ((y : ℤ) - 1) / 4 = (y + 3 : ℕ) / 4 - 1 := by omega
    have h100 : ((y : ℤ) - 1) / 100 = (y + 99 : ℕ) / 100 - 1 := by omega
    have h400 : ((y : ℤ) - 1) / 400 = (y + 399 : ℕ) / 400 - 1 := by omega
    rw [h4, h100, h400]
    omega
  · rw [if_neg hm, if_pos (by omega), if_neg hm]
    have h₁ : y % 400 = 0 → y % 100 = 0 := by omega
    have h₂ : y % 100 = 0 → y % 4 = 0 := by omega
    have h4 : (y + 3) / 4 = y / 4 + if y % 4 = 0 then 0 else 1 := by split <;> omega
    have h100 : (y + 99) / 100 = y / 100 + if y % 100 = 0 then 0 else 1 := by split <;> omega
    have h400 : (y + 399) / 400 = y / 400 + if y % 400 = 0 then 0 else 1 := by split <;> omega
    rw [h4, h100, h400] at hyear
    split_ifs at hyear ⊢ <;> simp_all <;> omega

/-! ## Back from the days -/

/-- The days of an era without the leap days before them, so that a year has 365. -/
def evened (doe : ℤ) : ℤ := doe - doe / 1460 + doe / 36524 - doe / 146096

def eraYear (doe : ℤ) : ℤ := evened doe / 365

/-- The first day of a year of the era. -/
def yearStart (n : ℤ) : ℤ := 365 * n + n / 4 - n / 100

theorem evened_le_succ {doe : ℤ} (h₀ : 0 ≤ doe) (h₁ : doe < 146096) : evened doe ≤ evened (doe + 1) := by
  unfold evened
  omega

theorem evened_mono {a b : ℤ} (ha : 0 ≤ a) (hab : a ≤ b) (hb : b ≤ 146096) : evened a ≤ evened b := by
  induction b, hab using Int.leInduction with
  | base => exact le_refl _
  | succ b hab ih => exact (ih (by omega)).trans (evened_le_succ (by omega) (by omega))

theorem evened_yearStart_aux : ∀ n : Fin 400, 365 * (n : ℤ) ≤ evened (yearStart n) ∧
    (0 < (n : ℤ) → evened (yearStart n - 1) < 365 * n) := by
  decide +kernel

theorem evened_yearStart {n : ℤ} (h₀ : 0 ≤ n) (h₁ : n ≤ 399) :
    365 * n ≤ evened (yearStart n) ∧ (0 < n → evened (yearStart n - 1) < 365 * n) := by
  lift n to ℕ using h₀
  exact evened_yearStart_aux ⟨n, by omega⟩

theorem yearStart_nonneg {n : ℤ} (h : 0 ≤ n) : 0 ≤ yearStart n := by
  unfold yearStart
  omega

theorem yearStart_le {n : ℤ} (h : n ≤ 399) : yearStart n ≤ 145731 := by
  unfold yearStart
  omega

/-- A day of an era is in the year that the division finds. -/
theorem eraYear_bounds {doe : ℤ} (h₀ : 0 ≤ doe) (h₁ : doe ≤ 146096) :
    0 ≤ eraYear doe ∧ eraYear doe ≤ 399 ∧ yearStart (eraYear doe) ≤ doe ∧
      (eraYear doe < 399 → doe < yearStart (eraYear doe + 1)) := by
  have hlow : 0 ≤ evened doe := evened_mono le_rfl h₀ h₁
  have hhigh : evened doe ≤ 145999 := evened_mono h₀ h₁ le_rfl
  have hn₀ : 0 ≤ eraYear doe := Int.ediv_nonneg hlow (by norm_num)
  have hn₁ : eraYear doe ≤ 399 := by
    have := Int.ediv_le_ediv (by norm_num : (0 : ℤ) < 365) hhigh
    exact this
  have hspan : 365 * eraYear doe ≤ evened doe ∧ evened doe < 365 * (eraYear doe + 1) := by
    unfold eraYear
    omega
  refine ⟨hn₀, hn₁, ?_, fun hlt => ?_⟩
  · by_contra hbefore
    have hpos : 0 < eraYear doe := by
      by_contra hzero
      rw [le_antisymm (not_lt.mp hzero) hn₀] at hbefore
      exact hbefore h₀
    have hstart := yearStart_le hn₁
    have hmono : evened doe ≤ evened (yearStart (eraYear doe) - 1) :=
      evened_mono h₀ (by omega) (by omega)
    have hspec := (evened_yearStart hn₀ hn₁).2 hpos
    omega
  · by_contra hafter
    have hmono : evened (yearStart (eraYear doe + 1)) ≤ evened doe :=
      evened_mono (yearStart_nonneg (by omega)) (not_lt.mp hafter) h₁
    have hspec := (evened_yearStart (n := eraYear doe + 1) (by omega) (by omega)).1
    omega

/-- The date of a day of a year that begins in March. -/
def marchDate (y doy : ℤ) : ℤ × ℕ × ℕ :=
  let mp := (5 * doy + 2) / 153
  let m := (if mp < 10 then mp + 3 else mp - 9).toNat
  (if m ≤ 2 then y + 1 else y, m, (doy - (153 * mp + 2) / 5 + 1).toNat)

theorem civilFromDays_eq (z : ℤ) :
    ∃ yoe doy : ℤ, 0 ≤ yoe ∧ yoe ≤ 399 ∧ 0 ≤ doy ∧ doy ≤ 365 ∧
      z + 719468 = (z + 719468) / 146097 * 146097 + yearStart yoe + doy ∧
      civilFromDays z = marchDate (yoe + (z + 719468) / 146097 * 400) doy := by
  have hdoe : 0 ≤ z + 719468 - (z + 719468) / 146097 * 146097 ∧
      z + 719468 - (z + 719468) / 146097 * 146097 ≤ 146096 := by omega
  obtain ⟨hn₀, hn₁, hstart, hend⟩ := eraYear_bounds hdoe.1 hdoe.2
  refine ⟨eraYear (z + 719468 - (z + 719468) / 146097 * 146097),
    z + 719468 - (z + 719468) / 146097 * 146097 -
      yearStart (eraYear (z + 719468 - (z + 719468) / 146097 * 146097)), hn₀, hn₁, by omega, ?_,
    by ring, ?_⟩
  · generalize eraYear (z + 719468 - (z + 719468) / 146097 * 146097) = yoe at hn₀ hn₁ hstart hend
    unfold yearStart at hstart hend ⊢
    omega
  · unfold civilFromDays
    dsimp only
    rw [tdiv_eraDays]
    rfl

theorem marchDate_of_lt (y : ℤ) {doy : ℤ} (h₀ : 0 ≤ doy) (h₁ : doy < 306) :
    marchDate y doy = (y, ((5 * doy + 2) / 153 + 3).toNat,
      (doy - (153 * ((5 * doy + 2) / 153) + 2) / 5 + 1).toNat) := by
  unfold marchDate
  dsimp only
  rw [if_pos (by omega : (5 * doy + 2) / 153 < 10), if_neg (by omega)]

theorem marchDate_of_ge (y : ℤ) {doy : ℤ} (h₀ : 306 ≤ doy) (h₁ : doy ≤ 365) :
    marchDate y doy = (y + 1, ((5 * doy + 2) / 153 - 9).toNat,
      (doy - (153 * ((5 * doy + 2) / 153) + 2) / 5 + 1).toNat) := by
  unfold marchDate
  dsimp only
  rw [if_neg (by omega : ¬ (5 * doy + 2) / 153 < 10), if_pos (by omega)]

theorem marchDate_spec (y : ℤ) {doy : ℤ} (h₀ : 0 ≤ doy) (h₁ : doy ≤ 365) :
    (1 ≤ (marchDate y doy).2.1 ∧ (marchDate y doy).2.1 ≤ 12) ∧
      (1 ≤ (marchDate y doy).2.2 ∧ (marchDate y doy).2.2 ≤ 31) ∧
      daysFromCivil (marchDate y doy).1 (marchDate y doy).2.1 (marchDate y doy).2.2 =
        marchDays y + doy - 719468 ∧
      (marchDate y doy).1 = if doy < 306 then y else y + 1 := by
  rw [daysFromCivil_eq_march]
  by_cases hspring : doy < 306
  · rw [marchDate_of_lt y h₀ hspring, if_pos hspring]
    dsimp only
    have hmonth : marchMonth ((5 * doy + 2) / 153 + 3).toNat = (5 * doy + 2) / 153 := by
      rw [marchMonth, if_pos (by omega)]
      omega
    rw [hmonth, if_neg (by omega)]
    omega
  · rw [marchDate_of_ge y (not_lt.mp hspring) h₁, if_neg hspring]
    dsimp only
    have hmonth : marchMonth ((5 * doy + 2) / 153 - 9).toNat = (5 * doy + 2) / 153 := by
      rw [marchMonth, if_neg (by omega)]
      omega
    rw [hmonth, if_pos (by omega), add_sub_cancel_right]
    omega

/-- The day of a date is the day it was made from. -/
theorem daysFromCivil_civilFromDays (z : ℤ) :
    daysFromCivil (civilFromDays z).1 (civilFromDays z).2.1 (civilFromDays z).2.2 = z := by
  obtain ⟨yoe, doy, hyoe₀, hyoe₁, hdoy₀, hdoy₁, hz, hdate⟩ := civilFromDays_eq z
  rw [hdate, (marchDate_spec _ hdoy₀ hdoy₁).2.2.1]
  generalize (z + 719468) / 146097 = era at hz
  have h4 : (yoe + era * 400) / 4 = yoe / 4 + era * 100 := by omega
  have h100 : (yoe + era * 400) / 100 = yoe / 100 + era * 4 := by omega
  have h400 : (yoe + era * 400) / 400 = era := by omega
  rw [marchDays, h4, h100, h400]
  unfold yearStart at hz
  omega

theorem civilFromDays_bounds (z : ℤ) :
    (1 ≤ (civilFromDays z).2.1 ∧ (civilFromDays z).2.1 ≤ 12) ∧
      1 ≤ (civilFromDays z).2.2 ∧ (civilFromDays z).2.2 ≤ 31 := by
  obtain ⟨yoe, doy, -, -, hdoy₀, hdoy₁, -, hdate⟩ := civilFromDays_eq z
  rw [hdate]
  exact ⟨(marchDate_spec _ hdoy₀ hdoy₁).1, (marchDate_spec _ hdoy₀ hdoy₁).2.1⟩

/-- The days of the years 0 to 9999 have dates in these years. -/
theorem civilFromDays_year {z : ℤ} (h₀ : dayNumber 0 1 1 ≤ z) (h₁ : z < dayNumber 10000 1 1) :
    0 ≤ (civilFromDays z).1 ∧ (civilFromDays z).1 ≤ 9999 := by
  obtain ⟨yoe, doy, hyoe₀, hyoe₁, hdoy₀, hdoy₁, hz, hdate⟩ := civilFromDays_eq z
  rw [← daysFromCivil_eq 0 1 le_rfl (by norm_num), daysFromCivil_eq_march] at h₀
  rw [← daysFromCivil_eq 10000 1 le_rfl (by norm_num), daysFromCivil_eq_march] at h₁
  norm_num [marchDays, marchMonth] at h₀ h₁
  rw [hdate, (marchDate_spec _ hdoy₀ hdoy₁).2.2.2]
  unfold yearStart at hz
  have hera : (z + 719468) / 146097 = -1 ∨
      0 ≤ (z + 719468) / 146097 ∧ (z + 719468) / 146097 ≤ 24 := by omega
  generalize (z + 719468) / 146097 = era at hz hera
  rcases hera with rfl | ⟨hera₀, hera₁⟩
  · split <;> omega
  · rcases eq_or_lt_of_le hera₁ with rfl | hera₁
    · split <;> omega
    · split <;> omega

end PrtsMcp.IsoCalendar
