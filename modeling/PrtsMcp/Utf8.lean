import Mathlib

/-!
# UTF-8 text

The bytes of a text, where its characters begin among them, and the sublists that a search for a
sublist finds.
-/
namespace PrtsMcp.Utf8

variable {α : Type*}

section Contains

variable [BEq α] [LawfulBEq α]

/-- Some sublist of `xs` of consecutive elements is `needle`. -/
def contains (xs needle : List α) : Bool := xs.tails.any fun tail => needle.isPrefixOf tail

theorem contains_iff {xs needle : List α} : contains xs needle = true ↔ needle <:+: xs := by
  simp only [contains, List.any_eq_true, List.mem_tails, List.isPrefixOf_iff_prefix,
    List.infix_iff_prefix_suffix]
  constructor
  · rintro ⟨tail, hsuffix, hprefix⟩
    exact ⟨tail, hprefix, hsuffix⟩
  · rintro ⟨tail, hprefix, hsuffix⟩
    exact ⟨tail, hsuffix, hprefix⟩

end Contains

/-- The UTF-8 bytes of a text. -/
def encode (text : List Char) : List UInt8 := text.flatMap String.utf8EncodeChar

@[simp]
theorem encode_nil : encode [] = [] := rfl

@[simp]
theorem encode_cons (c : Char) (text : List Char) :
    encode (c :: text) = String.utf8EncodeChar c ++ encode text := by
  simp [encode]

@[simp]
theorem encode_append (a b : List Char) : encode (a ++ b) = encode a ++ encode b := by
  simp [encode]

theorem encode_segment {a b : List Char} (h : a <:+: b) : encode a <:+: encode b := by
  obtain ⟨s, t, rfl⟩ := h
  exact ⟨encode s, encode t, by simp⟩

def IsContinuation (b : UInt8) : Prop := 128 ≤ b.toNat ∧ b.toNat < 192

instance : DecidablePred IsContinuation := fun _ => inferInstanceAs (Decidable (_ ∧ _))

/-- An ASCII character is one byte below 128; any other one is a lead byte and one to three
continuation bytes. -/
inductive EncodedChar (c : Char) : List UInt8 → Prop
  | ascii (b : UInt8) (value : b.toNat = c.toNat) (small : c.toNat < 128) : EncodedChar c [b]
  | wide (lead next : UInt8) (tail : List UInt8) (large : 128 ≤ c.toNat) (lead_le : 192 ≤ lead.toNat)
    (next_continuation : IsContinuation next) (continuation : ∀ b ∈ tail, IsContinuation b) :
    EncodedChar c (lead :: next :: tail)

theorem encodedChar (c : Char) : EncodedChar c (String.utf8EncodeChar c) := by
  have hc : c.val.toNat = c.toNat := rfl
  have hmax : c.toNat < 1114112 := by
    rcases c.valid with h | ⟨-, h⟩
    · exact (show c.toNat < 55296 from h).trans (by norm_num)
    · exact h
  unfold String.utf8EncodeChar
  simp only [hc]
  split
  · exact .ascii _ (by simp; omega) (by omega)
  · split
    · refine .wide _ _ _ (by omega) ?_ ?_ (by simp)
      · simp; omega
      · simp [IsContinuation]; omega
    · split
      · refine .wide _ _ _ (by omega) ?_ ?_ ?_
        · simp; omega
        · simp [IsContinuation]; omega
        · simp [IsContinuation]; omega
      · refine .wide _ _ _ (by omega) ?_ ?_ ?_
        · simp; omega
        · simp [IsContinuation]; omega
        · simp [IsContinuation]; omega

theorem EncodedChar.ne_nil {c : Char} {bytes : List UInt8} (h : EncodedChar c bytes) :
    bytes ≠ [] := by
  cases h <;> simp

/-- No text begins with a continuation byte. -/
theorem EncodedChar.head {c : Char} {bytes : List UInt8} (h : EncodedChar c bytes) :
    ∀ b ∈ bytes.head?, ¬ IsContinuation b := by
  cases h with
  | ascii b hvalue hsmall =>
    intro b' hb'
    obtain rfl : b = b' := by simpa using hb'
    simp only [IsContinuation]
    omega
  | wide lead next tail _ hlead _ _ =>
    intro b' hb'
    obtain rfl : lead = b' := by simpa using hb'
    simp only [IsContinuation]
    omega

theorem encode_head (text : List Char) : ∀ b ∈ (encode text).head?, ¬ IsContinuation b := by
  cases text with
  | nil => simp
  | cons c text =>
    have hc := encodedChar c
    intro b hb
    rw [encode_cons, List.head?_append_of_ne_nil _ hc.ne_nil] at hb
    exact hc.head b hb

theorem eq_nil_of_encode_eq_nil {text : List Char} (h : encode text = []) : text = [] := by
  cases text with
  | nil => rfl
  | cons c text =>
    rw [encode_cons, List.append_eq_nil_iff] at h
    exact absurd h.1 (encodedChar c).ne_nil

/-- Bytes below 128 in an encoded text are whole characters of it. -/
theorem ascii_segment {text : List Char} {p q r : List UInt8} (h : encode text = p ++ (q ++ r))
    (hne : q ≠ []) (hq : ∀ b ∈ q, b.toNat < 128) :
    ∃ a m b, text = a ++ (m ++ b) ∧ encode a = p ∧
      List.Forall₂ (fun c byte => c.toNat = byte.toNat) m q := by
  induction text generalizing p q with
  | nil =>
    have hempty : q = [] := by simp_all
    exact absurd hempty hne
  | cons c text ih =>
    rw [encode_cons] at h
    have hc := encodedChar c
    generalize hbytes : String.utf8EncodeChar c = bytes at h hc
    obtain ⟨q₀, q', rfl⟩ := List.exists_cons_of_ne_nil hne
    cases hc with
    | ascii b hvalue hsmall =>
      cases p with
      | nil =>
        obtain ⟨rfl, htail⟩ : b = q₀ ∧ encode text = q' ++ r := by simpa using h
        by_cases hq' : q' = []
        · subst hq'
          exact ⟨[], [c], text, rfl, rfl, .cons hvalue.symm .nil⟩
        · obtain ⟨a, m, b', rfl, ha, hm⟩ := ih (p := []) htail hq' fun x hx => hq x (by simp [hx])
          obtain rfl := eq_nil_of_encode_eq_nil ha
          exact ⟨[], c :: m, b', rfl, rfl, .cons hvalue.symm hm⟩
      | cons p₀ p =>
        obtain ⟨rfl, htail⟩ : b = p₀ ∧ encode text = p ++ (q₀ :: q' ++ r) := by simpa using h
        obtain ⟨a, m, b', rfl, ha, hm⟩ := ih htail hne hq
        exact ⟨c :: a, m, b', rfl, by simp [hbytes, ha], hm⟩
    | wide lead next tail _ hlead hnext htail =>
      cases p with
      | nil =>
        obtain ⟨rfl, -⟩ : lead = q₀ ∧ next :: (tail ++ encode text) = q' ++ r := by simpa using h
        have := hq lead (by simp)
        omega
      | cons p₀ p =>
        obtain ⟨rfl, hrest⟩ : lead = p₀ ∧ (next :: tail) ++ encode text = p ++ (q₀ :: q' ++ r) := by
          simpa using h
        rcases List.append_eq_append_iff.mp hrest with ⟨p', hp, hrest⟩ | ⟨c', hwide, hrest⟩
        · obtain ⟨a, m, b', rfl, ha, hm⟩ := ih hrest hne hq
          exact ⟨c :: a, m, b', rfl, by simp [hbytes, ha, hp], hm⟩
        · cases c' with
          | nil =>
            obtain ⟨a, m, b', rfl, ha, hm⟩ := ih (p := []) (by simpa using hrest.symm) hne hq
            obtain rfl := eq_nil_of_encode_eq_nil ha
            exact ⟨[c], m, b', rfl, by simpa [hbytes] using hwide, hm⟩
          | cons x c' =>
            obtain ⟨rfl, -⟩ : q₀ = x ∧ q' ++ r = c' ++ encode text := by simpa using hrest
            -- the segment would begin inside a character
            have hmem : q₀ ∈ next :: tail := by simp [hwide]
            have hcontinuation : IsContinuation q₀ := by
              rcases List.mem_cons.mp hmem with rfl | hmem
              · exact hnext
              · exact htail q₀ hmem
            have := hq q₀ (by simp)
            simp only [IsContinuation] at hcontinuation
            omega

end PrtsMcp.Utf8
