import Mathlib

/-!
# UTF-16 text

The code units of a text, and the order of texts by their code units.
-/
namespace PrtsMcp.Utf16

/-! ## Lists of codes -/

section Codes

variable {α : Type*} [Ord α] [Std.LawfulEqOrd α]

/-- Two words, neither of which begins the other, decide the order of what they begin. -/
theorem compare_append (u v s t : List α) (huv : u <+: v → u = v) (hvu : v <+: u → v = u) :
    compare (u ++ s) (v ++ t) = (compare u v).then (compare s t) := by
  induction u generalizing v with
  | nil =>
    obtain rfl : [] = v := huv (List.nil_prefix)
    rfl
  | cons x u ih =>
    cases v with
    | nil => exact absurd (hvu List.nil_prefix) (by simp)
    | cons y v =>
      rw [List.cons_append, List.cons_append, List.compare_cons_cons, List.compare_cons_cons,
        Ordering.then_assoc]
      by_cases hxy : x = y
      · subst hxy
        have hstep := ih v (fun h => List.tail_eq_of_cons_eq (huv ((List.prefix_cons_inj x).mpr h)))
          (fun h => List.tail_eq_of_cons_eq (hvu ((List.prefix_cons_inj x).mpr h)))
        rw [hstep]
      · have hne : compare x y ≠ .eq := fun h => hxy (Std.LawfulEqOrd.eq_of_compare h)
        cases horder : compare x y with
        | lt => rfl
        | eq => exact absurd horder hne
        | gt => rfl

end Codes

/-! ## The code units of a text -/

/-- A surrogate pair for a character outside the basic plane. -/
def encodeChar (c : Char) : List ℕ :=
  if c.toNat < 0x10000 then [c.toNat]
  else [0xd800 + (c.toNat - 0x10000) / 0x400, 0xdc00 + (c.toNat - 0x10000) % 0x400]

def encode (text : List Char) : List ℕ := text.flatMap encodeChar

/-- The characters of a list of code units in which every high surrogate begins a pair. -/
def decode : List ℕ → List Char
  | [] => []
  | [unit] => [Char.ofNat unit]
  | unit :: next :: rest =>
    if 0xd800 ≤ unit ∧ unit < 0xdc00 then
      Char.ofNat (0x10000 + (unit - 0xd800) * 0x400 + (next - 0xdc00)) :: decode rest
    else Char.ofNat unit :: decode (next :: rest)

@[simp]
theorem encode_nil : encode [] = [] := rfl

@[simp]
theorem encode_cons (c : Char) (text : List Char) : encode (c :: text) = encodeChar c ++ encode text := rfl

theorem encodeChar_ne_nil (c : Char) : encodeChar c ≠ [] := by
  rw [encodeChar]
  split_ifs <;> simp

/-- No character is a surrogate. -/
theorem toNat_bounds (c : Char) : c.toNat < 0xd800 ∨ 0xdfff < c.toNat ∧ c.toNat < 0x110000 := c.valid

theorem unit_lt {c : Char} {unit : ℕ} (h : unit ∈ encodeChar c) : unit < 0x10000 := by
  have hc := toNat_bounds c
  rw [encodeChar] at h
  split_ifs at h with hsmall
  · obtain rfl : unit = c.toNat := by simpa using h
    exact hsmall
  · simp only [List.mem_cons, List.not_mem_nil, or_false] at h
    omega

theorem decode_encodeChar_append (c : Char) (rest : List ℕ) :
    decode (encodeChar c ++ rest) = c :: decode rest := by
  have hc := toNat_bounds c
  rw [encodeChar]
  split_ifs with hsmall
  · have hunit : ¬ (0xd800 ≤ c.toNat ∧ c.toNat < 0xdc00) := by omega
    cases rest with
    | nil => simp [decode]
    | cons next rest => simp [decode, hunit]
  · have hhigh : 0xd800 ≤ 0xd800 + (c.toNat - 0x10000) / 0x400 ∧
        0xd800 + (c.toNat - 0x10000) / 0x400 < 0xdc00 := by omega
    have hcode : 0x10000 + (0xd800 + (c.toNat - 0x10000) / 0x400 - 0xd800) * 0x400 +
        (0xdc00 + (c.toNat - 0x10000) % 0x400 - 0xdc00) = c.toNat := by omega
    rw [List.cons_append, List.cons_append, List.nil_append, decode, if_pos hhigh, hcode,
      Char.ofNat_toNat]

/-- A text is found again from its code units. -/
theorem decode_encode (text : List Char) : decode (encode text) = text := by
  induction text with
  | nil => rfl
  | cons c text ih => rw [encode_cons, decode_encodeChar_append, ih]

theorem encode_injective : Function.Injective encode :=
  Function.LeftInverse.injective decode_encode

/-- The code units of a character begin those of no other. -/
theorem encodeChar_inj_of_begins {a b : Char} (h : encodeChar a <+: encodeChar b) : a = b := by
  obtain ⟨rest, hrest⟩ := h
  have ha := decode_encodeChar_append a rest
  have hb := decode_encodeChar_append b []
  rw [List.append_nil] at hb
  rw [hrest, hb] at ha
  exact (List.head_eq_of_cons_eq ha).symm

/-! ## The order of texts -/

theorem compare_encode_cons (a b : Char) (as bs : List Char) :
    compare (encode (a :: as)) (encode (b :: bs)) =
      (compare (encodeChar a) (encodeChar b)).then (compare (encode as) (encode bs)) :=
  compare_append _ _ _ _ (fun h => congrArg encodeChar (encodeChar_inj_of_begins h))
    (fun h => congrArg encodeChar (encodeChar_inj_of_begins h))

theorem compare_nil_encode_cons (b : Char) (bs : List Char) :
    compare [] (encode (b :: bs)) = .lt := by
  obtain ⟨unit, rest, hunits⟩ := List.exists_cons_of_ne_nil
    (show encode (b :: bs) ≠ [] by simp [encodeChar_ne_nil])
  rw [hunits]
  rfl

theorem compare_encode_cons_nil (a : Char) (as : List Char) :
    compare (encode (a :: as)) [] = .gt := by
  obtain ⟨unit, rest, hunits⟩ := List.exists_cons_of_ne_nil
    (show encode (a :: as) ≠ [] by simp [encodeChar_ne_nil])
  rw [hunits]
  rfl

theorem compare_encode_eq_iff (a b : List Char) : compare (encode a) (encode b) = .eq ↔ a = b := by
  constructor
  · intro h
    exact encode_injective (Std.LawfulEqOrd.eq_of_compare h)
  · rintro rfl
    exact Std.ReflOrd.compare_self

end PrtsMcp.Utf16
