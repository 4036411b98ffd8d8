import PrtsMcp.StoryCharacter
import PrtsMcp.Utf16

/-!
# Orders of texts

The order of identifiers by code units, and the collation of names with its two levels.
-/
namespace PrtsMcp.JsCompat

open StoryCharacter (compareIds headUnit tailUnit)

/-! ## Identifiers -/

theorem encodeChar_eq (c : Char) :
    Utf16.encodeChar c = if c.toNat ≤ 0xffff then [headUnit c] else [headUnit c, tailUnit c] := by
  rw [Utf16.encodeChar]
  by_cases hc : c.toNat ≤ 0xffff
  · have hsmall : c.toNat < 0x10000 := by omega
    rw [if_pos hsmall, if_pos hc, headUnit, if_neg (by omega)]
  · have hlarge : ¬ c.toNat < 0x10000 := by omega
    rw [if_neg hlarge, if_neg hc, headUnit, tailUnit, if_pos (by omega), if_pos (by omega),
      Nat.add_comm 0xd800, Nat.add_comm 0xdc00]

/-- Characters with one first code unit have as many code units. -/
theorem narrow_of_headUnit_eq {a b : Char} (h : headUnit a = headUnit b) (ha : a.toNat ≤ 0xffff) :
    b.toNat ≤ 0xffff := by
  have hboundsA := Utf16.toNat_bounds a
  have hboundsB := Utf16.toNat_bounds b
  simp only [headUnit] at h
  split_ifs at h <;> omega

/-- One step of the loop over two texts. -/
theorem compareIds_cons (a b : Char) (as bs : List Char) :
    compareIds (a :: as) (b :: bs) =
      (compare (Utf16.encodeChar a) (Utf16.encodeChar b)).then (compareIds as bs) := by
  rw [compareIds, encodeChar_eq, encodeChar_eq]
  by_cases hhead : headUnit a = headUnit b
  · rw [if_neg (not_not.mpr hhead)]
    by_cases ha : a.toNat ≤ 0xffff
    · have hb := narrow_of_headUnit_eq hhead ha
      simp [ha, hb, hhead]
    · have hb : ¬ b.toNat ≤ 0xffff := fun hb => ha (narrow_of_headUnit_eq hhead.symm hb)
      by_cases htail : tailUnit a = tailUnit b
      · simp [ha, hb, hhead, htail]
      · have hne : compare (tailUnit a) (tailUnit b) ≠ .eq := fun h => htail (Nat.compare_eq_eq.mp h)
        rw [if_neg (fun h => ha h.1), if_pos htail, if_neg ha, if_neg hb]
        cases horder : compare (tailUnit a) (tailUnit b) with
        | lt => simp [hhead, horder]
        | eq => exact absurd horder hne
        | gt => simp [hhead, horder]
  · have hne : compare (headUnit a) (headUnit b) ≠ .eq := fun h => hhead (Nat.compare_eq_eq.mp h)
    rw [if_pos hhead]
    cases horder : compare (headUnit a) (headUnit b) with
    | lt => split_ifs <;> simp [horder]
    | eq => exact absurd horder hne
    | gt => split_ifs <;> simp [horder]

theorem compareIds_eq_compare (a b : List Char) :
    compareIds a b = compare (Utf16.encode a) (Utf16.encode b) := by
  induction a generalizing b with
  | nil =>
    cases b with
    | nil => rfl
    | cons y bs => exact (Utf16.compare_nil_encode_cons y bs).symm
  | cons x as ih =>
    cases b with
    | nil => exact (Utf16.compare_encode_cons_nil x as).symm
    | cons y bs => rw [compareIds_cons, ih, Utf16.compare_encode_cons]

/-- Identifiers are ordered as the sequences of their UTF-16 code units, which is a total order. -/
theorem compareIds_order :
    (∀ a b : String, compareIds a.toList b.toList =
      compare (Utf16.encode a.toList) (Utf16.encode b.toList)) ∧
    (∀ a b : String, compareIds b.toList a.toList = (compareIds a.toList b.toList).swap) ∧
    (∀ a b c : String, (compareIds a.toList b.toList).isLE → (compareIds b.toList c.toList).isLE →
      (compareIds a.toList c.toList).isLE) ∧
    (∀ a b : String, compareIds a.toList b.toList = .eq ↔ a = b) := by
  refine ⟨fun a b => compareIds_eq_compare _ _, fun a b => ?_, fun a b c hab hbc => ?_, fun a b => ?_⟩
  · rw [compareIds_eq_compare, compareIds_eq_compare]
    exact Std.OrientedOrd.eq_swap
  · rw [compareIds_eq_compare] at hab hbc ⊢
    exact Std.TransOrd.isLE_trans hab hbc
  · rw [compareIds_eq_compare, Utf16.compare_encode_eq_iff, String.toList_inj]

example : compareIds "￮".toList "😀".toList = .gt := by decide

/-! ## Names -/

/-- The collation order of the printable ASCII characters. -/
def icuAsciiOrder : List Char :=
  (" _-,;:!?.'\"()[]\x7b\x7d@*/\\&#%`^+<=>|~$0123456789" ++
    "aAbBcCdDeEfFgGhHiIjJkKlLmMnNoOpPqQrRsStTuUvVwWxXyYzZ").toList

/-- The place in the table, or a weight past all of it; `none` is the failure to find an ASCII
character there. -/
def icuPrimary (c : Char) : Option ℕ :=
  if c.toNat < 0x80 then (icuAsciiOrder.idxOf? c).map (· + 1) else some (1000 + c.toNat)

/-- The pass over the weights; `none` is a panic. -/
def primaryLevel : List Char → List Char → Option Ordering
  | [], [] => some .eq
  | [], _ :: _ => some .lt
  | _ :: _, [] => some .gt
  | ca :: a, cb :: b => do
    let wa ← icuPrimary ca
    let wb ← icuPrimary cb
    if wa ≠ wb then return compare wa wb
    primaryLevel a b

section Case

variable (isLowercase isUppercase : Char → Bool)

def icuCaseWeight (c : Char) : ℕ :=
  if isLowercase c then 0 else if isUppercase c then 1 else 2

def caseLevel : List Char → List Char → Ordering
  | ca :: a, cb :: b =>
    if ca ≠ cb then compare (icuCaseWeight isLowercase isUppercase ca)
      (icuCaseWeight isLowercase isUppercase cb)
    else caseLevel a b
  | _, _ => .eq

def localeCompare (a b : List Char) : Option Ordering :=
  (primaryLevel a b).map (·.then (caseLevel isLowercase isUppercase a b))

end Case

/-! ### Weights -/

/-- The ASCII characters without a place in the table. -/
def IsControl (c : Char) : Prop := c.toNat < 0x20 ∨ c.toNat = 0x7f

instance : DecidablePred IsControl := fun _ => inferInstanceAs (Decidable (_ ∨ _))

set_option maxRecDepth 10000 in
theorem ascii_mem_iff :
    ∀ n < 128, (n ∈ icuAsciiOrder.map Char.toNat ↔ ¬ (n < 0x20 ∨ n = 0x7f)) := by
  decide

theorem mem_icuAsciiOrder_iff {c : Char} (h : c.toNat < 0x80) : c ∈ icuAsciiOrder ↔ ¬ IsControl c := by
  rw [IsControl, ← ascii_mem_iff c.toNat h]
  exact (List.mem_map_of_injective fun _ _ => Char.toNat_inj.mp).symm

theorem icuPrimary_eq_none_iff (c : Char) : icuPrimary c = none ↔ IsControl c := by
  rw [icuPrimary]
  split_ifs with h
  · rw [Option.map_eq_none_iff, List.idxOf?_eq_none_iff, mem_icuAsciiOrder_iff h, not_not]
  · simp only [IsControl, false_iff]
    omega

theorem icuPrimary_of_not_isControl {c : Char} (h : ¬ IsControl c) : ∃ w, icuPrimary c = some w :=
  Option.ne_none_iff_exists'.mp (mt (icuPrimary_eq_none_iff c).mp h)

theorem icuPrimary_ascii {c : Char} (h : c.toNat < 0x80) {w : ℕ} (hw : icuPrimary c = some w) :
    w ≤ 95 ∧ icuAsciiOrder[w - 1]? = some c := by
  rw [icuPrimary, if_pos h, Option.map_eq_some_iff] at hw
  obtain ⟨i, hi, rfl⟩ := hw
  obtain ⟨hlt, hplace, -⟩ := List.idxOf?_eq_some_iff.mp hi
  have hlength : icuAsciiOrder.length = 95 := by decide
  refine ⟨by omega, ?_⟩
  rw [Nat.add_sub_cancel, List.getElem?_eq_getElem hlt, hplace]

/-- No two characters have one weight, letters of different case included. -/
theorem icuPrimary_injective {a b : Char} {w : ℕ} (ha : icuPrimary a = some w)
    (hb : icuPrimary b = some w) : a = b := by
  by_cases haAscii : a.toNat < 0x80 <;> by_cases hbAscii : b.toNat < 0x80
  · have hplaceA := (icuPrimary_ascii haAscii ha).2
    have hplaceB := (icuPrimary_ascii hbAscii hb).2
    exact Option.some.inj (hplaceA.symm.trans hplaceB)
  · have hsmall := (icuPrimary_ascii haAscii ha).1
    rw [icuPrimary, if_neg hbAscii, Option.some.injEq] at hb
    omega
  · have hsmall := (icuPrimary_ascii hbAscii hb).1
    rw [icuPrimary, if_neg haAscii, Option.some.injEq] at ha
    omega
  · rw [icuPrimary, if_neg haAscii, Option.some.injEq] at ha
    rw [icuPrimary, if_neg hbAscii, Option.some.injEq] at hb
    exact Char.toNat_inj.mp (by omega)

/-! ### The two levels -/

theorem primaryLevel_cons_self {c : Char} (h : ¬ IsControl c) (a b : List Char) :
    primaryLevel (c :: a) (c :: b) = primaryLevel a b := by
  obtain ⟨w, hw⟩ := icuPrimary_of_not_isControl h
  simp [primaryLevel, hw]

theorem primaryLevel_cons_of_ne {x y : Char} (hxy : x ≠ y) (hx : ¬ IsControl x)
    (hy : ¬ IsControl y) :
    ∃ wx wy, icuPrimary x = some wx ∧ icuPrimary y = some wy ∧ wx ≠ wy ∧
      ∀ a b, primaryLevel (x :: a) (y :: b) = some (compare wx wy) := by
  obtain ⟨wx, hwx⟩ := icuPrimary_of_not_isControl hx
  obtain ⟨wy, hwy⟩ := icuPrimary_of_not_isControl hy
  have hne : wx ≠ wy := fun h => hxy (icuPrimary_injective hwx (h ▸ hwy))
  exact ⟨wx, wy, hwx, hwy, hne, fun a b => by simp [primaryLevel, hwx, hwy, hne]⟩

/-- The characters that the loop reads from two texts have weights. -/
def Readable : List Char → List Char → Prop
  | x :: a, y :: b => ¬ IsControl x ∧ ¬ IsControl y ∧ (x = y → Readable a b)
  | _, _ => True

theorem primaryLevel_isSome_iff (a b : List Char) :
    (∃ order, primaryLevel a b = some order) ↔ Readable a b := by
  induction a generalizing b with
  | nil => cases b <;> simp [primaryLevel, Readable]
  | cons x a ih =>
    cases b with
    | nil => simp [primaryLevel, Readable]
    | cons y b =>
      rw [Readable]
      by_cases hx : IsControl x
      · simp [primaryLevel, (icuPrimary_eq_none_iff x).mpr hx, hx]
      · by_cases hy : IsControl y
        · obtain ⟨wx, hwx⟩ := icuPrimary_of_not_isControl hx
          simp [primaryLevel, hwx, (icuPrimary_eq_none_iff y).mpr hy, hy]
        · by_cases hxy : x = y
          · subst hxy
            simp [primaryLevel_cons_self hx, ih, hx]
          · obtain ⟨wx, wy, -, -, -, hlevel⟩ := primaryLevel_cons_of_ne hxy hx hy
            simp [hlevel, hx, hy, hxy]

theorem readable_comm {a b : List Char} (h : Readable a b) : Readable b a := by
  induction a generalizing b with
  | nil => cases b <;> trivial
  | cons x a ih =>
    cases b with
    | nil => trivial
    | cons y b =>
      obtain ⟨hx, hy, hrest⟩ := h
      exact ⟨hy, hx, fun hxy => ih (hrest hxy.symm)⟩

theorem primaryLevel_swap (a b : List Char) :
    primaryLevel b a = (primaryLevel a b).map Ordering.swap := by
  induction a generalizing b with
  | nil => cases b <;> rfl
  | cons x a ih =>
    cases b with
    | nil => rfl
    | cons y b =>
      rw [primaryLevel, primaryLevel]
      cases hx : icuPrimary x with
      | none => cases hy : icuPrimary y <;> rfl
      | some wx =>
        cases hy : icuPrimary y with
        | none => rfl
        | some wy =>
          by_cases hw : wx = wy
          · simp [hw, ih]
          · simp [hw, Ne.symm hw, Nat.compare_swap]

/-- Equal at the level of weights means equal: letters of different case differ there already. -/
theorem eq_of_primaryLevel {a b : List Char} (h : primaryLevel a b = some .eq) : a = b := by
  induction a generalizing b with
  | nil => cases b <;> simp_all [primaryLevel]
  | cons x a ih =>
    cases b with
    | nil => simp [primaryLevel] at h
    | cons y b =>
      obtain ⟨hx, hy, -⟩ := (primaryLevel_isSome_iff (x :: a) (y :: b)).mp ⟨_, h⟩
      by_cases hxy : x = y
      · subst hxy
        rw [primaryLevel_cons_self hx] at h
        rw [ih h]
      · obtain ⟨wx, wy, -, -, hne, hlevel⟩ := primaryLevel_cons_of_ne hxy hx hy
        rw [hlevel, Option.some.injEq, Nat.compare_eq_eq] at h
        exact absurd h hne

theorem primaryLevel_self {a : List Char} (h : Readable a a) : primaryLevel a a = some .eq := by
  induction a with
  | nil => rfl
  | cons x a ih =>
    rw [primaryLevel_cons_self h.1]
    exact ih (h.2.2 rfl)

theorem primaryLevel_trans {a b c : List Char} (hab : primaryLevel a b = some .lt)
    (hbc : primaryLevel b c = some .lt) : primaryLevel a c = some .lt := by
  induction a generalizing b c with
  | nil =>
    cases c with
    | nil => cases b <;> simp_all [primaryLevel]
    | cons z c => rfl
  | cons x a ih =>
    cases b with
    | nil => simp [primaryLevel] at hab
    | cons y b =>
      cases c with
      | nil => simp [primaryLevel] at hbc
      | cons z c =>
        obtain ⟨hx, hy, -⟩ := (primaryLevel_isSome_iff (x :: a) (y :: b)).mp ⟨_, hab⟩
        obtain ⟨-, hz, -⟩ := (primaryLevel_isSome_iff (y :: b) (z :: c)).mp ⟨_, hbc⟩
        by_cases hxy : x = y <;> by_cases hyz : y = z
        · subst hxy hyz
          rw [primaryLevel_cons_self hx] at hab hbc ⊢
          exact ih hab hbc
        · subst hxy
          obtain ⟨_, _, -, -, -, hlevel⟩ := primaryLevel_cons_of_ne hyz hy hz
          rwa [hlevel] at hbc ⊢
        · subst hyz
          obtain ⟨_, _, -, -, -, hlevel⟩ := primaryLevel_cons_of_ne hxy hx hy
          rwa [hlevel] at hab ⊢
        · obtain ⟨wx, wy, hwx, hwy, hne, hlevel⟩ := primaryLevel_cons_of_ne hxy hx hy
          obtain ⟨wy', wz, hwy', hwz, hne', hlevel'⟩ := primaryLevel_cons_of_ne hyz hy hz
          obtain rfl : wy = wy' := Option.some.inj (hwy.symm.trans hwy')
          rw [hlevel, Option.some.injEq, Nat.compare_eq_lt] at hab
          rw [hlevel', Option.some.injEq, Nat.compare_eq_lt] at hbc
          have hlt : wx < wz := hab.trans hbc
          simp [primaryLevel, hwx, hwz, hlt.ne, Nat.compare_eq_lt.mpr hlt]

theorem localeCompare_eq (isLowercase isUppercase : Char → Bool) (a b : List Char) :
    localeCompare isLowercase isUppercase a b = primaryLevel a b := by
  rw [localeCompare]
  cases horder : primaryLevel a b with
  | none => rfl
  | some order =>
    cases order with
    | lt => rfl
    | gt => rfl
    | eq =>
      obtain rfl := eq_of_primaryLevel horder
      have hcase : caseLevel isLowercase isUppercase a a = .eq := by
        clear horder
        induction a with
        | nil => rfl
        | cons x a ih => rw [caseLevel, if_neg (not_not.mpr rfl), ih]
      rw [hcase]
      rfl

/-! ### What is right of the order -/

section Sound

variable (lower : Char → List Char) (isLowercase isUppercase : Char → Bool)

/-- The order by the first characters that differ in more than case. -/
def otherDifference : List Char → List Char → Ordering
  | [], [] => .eq
  | [], _ :: _ => .lt
  | _ :: _, [] => .gt
  | x :: a, y :: b =>
    if lower x = lower y then otherDifference a b
    else compare ((icuPrimary x).getD 0) ((icuPrimary y).getD 0)

structure Orders (a b : List Char) : Prop where
  answers : ∃ order, localeCompare isLowercase isUppercase a b = some order
  antisymmetric : localeCompare isLowercase isUppercase b a =
    (localeCompare isLowercase isUppercase a b).map Ordering.swap
  eq_iff : localeCompare isLowercase isUppercase a b = some .eq ↔ a = b
  case_last : otherDifference lower a b ≠ .eq →
    localeCompare isLowercase isUppercase a b = some (otherDifference lower a b)

def AtMost (a b : List Char) : Prop :=
  ∃ order, localeCompare isLowercase isUppercase a b = some order ∧ order.isLE

/-- Where the first characters that differ do so by case alone, nothing else differs after them or
what does is ordered as they are. -/
def CaseAgrees : List Char → List Char → Prop
  | x :: a, y :: b =>
    if x = y then CaseAgrees a b
    else lower x = lower y → otherDifference lower a b = .eq ∨
      otherDifference lower a b = compare ((icuPrimary x).getD 0) ((icuPrimary y).getD 0)
  | _, _ => True

theorem caseAgrees_iff {a b : List Char} (h : Readable a b) :
    CaseAgrees lower a b ↔
      (otherDifference lower a b ≠ .eq → primaryLevel a b = some (otherDifference lower a b)) := by
  induction a generalizing b with
  | nil => cases b <;> simp [CaseAgrees, otherDifference, primaryLevel]
  | cons x a ih =>
    cases b with
    | nil => simp [CaseAgrees, otherDifference, primaryLevel]
    | cons y b =>
      obtain ⟨hx, hy, hrest⟩ := h
      rw [CaseAgrees, otherDifference]
      by_cases hxy : x = y
      · subst hxy
        rw [if_pos rfl, if_pos rfl, primaryLevel_cons_self hx]
        exact ih (hrest rfl)
      · obtain ⟨wx, wy, hwx, hwy, -, hlevel⟩ := primaryLevel_cons_of_ne hxy hx hy
        rw [if_neg hxy, hlevel, hwx, hwy, Option.getD_some, Option.getD_some, Option.some.injEq]
        by_cases hlower : lower x = lower y
        · rw [if_pos hlower, eq_comm (a := compare wx wy)]
          tauto
        · simp [hlower]

theorem orders_iff (a b : List Char) :
    Orders lower isLowercase isUppercase a b ↔ Readable a b ∧ CaseAgrees lower a b := by
  constructor
  · rintro ⟨hanswers, -, -, hcase⟩
    rw [localeCompare_eq] at hanswers hcase
    have hread : Readable a b := (primaryLevel_isSome_iff a b).mp hanswers
    exact ⟨hread, (caseAgrees_iff lower hread).mpr hcase⟩
  · rintro ⟨hread, hcase⟩
    refine ⟨?_, ?_, ?_, ?_⟩
    · rw [localeCompare_eq]
      exact (primaryLevel_isSome_iff a b).mpr hread
    · rw [localeCompare_eq, localeCompare_eq, primaryLevel_swap]
    · rw [localeCompare_eq]
      constructor
      · exact eq_of_primaryLevel
      · rintro rfl
        exact primaryLevel_self hread
    · rw [localeCompare_eq]
      exact (caseAgrees_iff lower hread).mp hcase

theorem AtMost.trans {a b c : List Char} (hab : AtMost isLowercase isUppercase a b)
    (hbc : AtMost isLowercase isUppercase b c) : AtMost isLowercase isUppercase a c := by
  obtain ⟨o₁, hab, hle₁⟩ := hab
  obtain ⟨o₂, hbc, hle₂⟩ := hbc
  rw [localeCompare_eq] at hab hbc
  cases o₁ with
  | gt => cases hle₁
  | eq =>
    obtain rfl := eq_of_primaryLevel hab
    exact ⟨o₂, by rw [localeCompare_eq, hbc], hle₂⟩
  | lt =>
    cases o₂ with
    | gt => cases hle₂
    | eq =>
      obtain rfl := eq_of_primaryLevel hbc
      exact ⟨.lt, by rw [localeCompare_eq, hab], rfl⟩
    | lt => exact ⟨.lt, by rw [localeCompare_eq, primaryLevel_trans hab hbc], rfl⟩

/-- Three texts are ordered without a panic, alike in every direction and by case last exactly if no
two of them have a control character before or where they first differ, and a first difference by
case is ordered as the first other difference. -/
theorem localeCompare_orders_iff (a b c : List Char) :
    (Orders lower isLowercase isUppercase a b ∧ Orders lower isLowercase isUppercase b c ∧
      Orders lower isLowercase isUppercase a c ∧
      (AtMost isLowercase isUppercase a b → AtMost isLowercase isUppercase b c →
        AtMost isLowercase isUppercase a c)) ↔
    (Readable a b ∧ CaseAgrees lower a b) ∧ (Readable b c ∧ CaseAgrees lower b c) ∧
      (Readable a c ∧ CaseAgrees lower a c) := by
  rw [orders_iff, orders_iff, orders_iff]
  constructor
  · rintro ⟨hab, hbc, hac, -⟩
    exact ⟨hab, hbc, hac⟩
  · rintro ⟨hab, hbc, hac⟩
    exact ⟨hab, hbc, hac, AtMost.trans isLowercase isUppercase⟩

end Sound

/-- A tab makes the loop panic, and `A` before `a` hides that `b` comes before `c`. -/
theorem not_orders_tab_or_case :
    ¬ Orders (fun c => [c.toLower]) Char.isLower Char.isUpper ['\t'] ['a'] ∧
    ¬ Orders (fun c => [c.toLower]) Char.isLower Char.isUpper ['A', 'b'] ['a', 'C'] := by
  constructor
  · intro h
    have hread := ((orders_iff _ _ _ _ _).mp h).1
    exact absurd (show IsControl '\t' by decide) hread.1
  · intro h
    have hlevel := h.case_last (by decide)
    exact absurd hlevel (by decide)

end PrtsMcp.JsCompat
