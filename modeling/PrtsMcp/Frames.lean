import Mathlib

/-!
# Frames

Bodies of bytes on a stream, each behind its length in four bytes, and the reader that waits until a
body is there as a whole.
-/
namespace PrtsMcp.Frames

/-- The four bytes of a length, the highest first. -/
def bigEndian (n : ℕ) : List UInt8 :=
  [UInt8.ofNat (n / 16777216), UInt8.ofNat (n / 65536), UInt8.ofNat (n / 256), UInt8.ofNat n]

def ofBigEndian (a b c d : UInt8) : ℕ := a.toNat * 16777216 + b.toNat * 65536 + c.toNat * 256 + d.toNat

def frame (body : List UInt8) : List UInt8 := bigEndian body.length ++ body

/-- What the bytes that have arrived so far give. -/
inductive Reading where
  | more
  | refused
  | got (body rest : List UInt8)
  deriving DecidableEq, Repr

def readFrame (limit : ℕ) : List UInt8 → Reading
  | a :: b :: c :: d :: rest =>
    let size := ofBigEndian a b c d
    if size = 0 ∨ limit < size then .refused
    else if rest.length < size then .more
    else .got (rest.take size) (rest.drop size)
  | _ => .more

theorem bigEndian_length (n : ℕ) : (bigEndian n).length = 4 := rfl

theorem frame_length (body : List UInt8) : (frame body).length = 4 + body.length := by
  rw [frame, List.length_append, bigEndian_length]

theorem ofBigEndian_bigEndian {n : ℕ} (h : n < 4294967296) :
    ofBigEndian (UInt8.ofNat (n / 16777216)) (UInt8.ofNat (n / 65536)) (UInt8.ofNat (n / 256)) (UInt8.ofNat n) =
      n := by
  simp only [ofBigEndian, UInt8.toNat_ofNat']
  omega

theorem bigEndian_ofBigEndian (a b c d : UInt8) : bigEndian (ofBigEndian a b c d) = [a, b, c, d] := by
  have ha := a.toNat_lt
  have hb := b.toNat_lt
  have hc := c.toNat_lt
  have hd := d.toNat_lt
  simp only [bigEndian, ofBigEndian, List.cons.injEq, and_true]
  refine ⟨?_, ?_, ?_, ?_⟩ <;> (apply UInt8.toNat_inj.mp; rw [UInt8.toNat_ofNat']; omega)

theorem readFrame_bigEndian {limit n : ℕ} (h : n < 4294967296) (rest : List UInt8) :
    readFrame limit (bigEndian n ++ rest) =
      if n = 0 ∨ limit < n then .refused
      else if rest.length < n then .more else .got (rest.take n) (rest.drop n) := by
  simp only [bigEndian, List.cons_append, List.nil_append, readFrame, ofBigEndian_bigEndian h]

section Limit

variable {limit : ℕ} {body bytes rest : List UInt8}

/-- A frame is read back, whatever follows it. -/
theorem readFrame_frame_append (hlimit : limit < 4294967296) (hne : body ≠ []) (hle : body.length ≤ limit)
    (rest : List UInt8) : readFrame limit (frame body ++ rest) = .got body rest := by
  have hpos : body.length ≠ 0 := by simpa using hne
  rw [frame, List.append_assoc, readFrame_bigEndian (by omega), if_neg (by omega), if_neg (by simp)]
  simp

/-- As long as the last byte of a frame has not arrived, the reader waits. -/
theorem readFrame_of_append (hlimit : limit < 4294967296) (hne : body ≠ []) (hle : body.length ≤ limit)
    {missing : List UInt8} (h : bytes ++ missing = frame body) (hmissing : missing ≠ []) :
    readFrame limit bytes = .more := by
  have hpos : body.length ≠ 0 := by simpa using hne
  have hlt : bytes.length < 4 + body.length := by
    have hlength := congrArg List.length h
    have hmore : missing.length ≠ 0 := by simpa using hmissing
    rw [List.length_append, frame_length] at hlength
    omega
  by_cases hshort : bytes.length < 4
  · match bytes, hshort with
    | [], _ | [_], _ | [_, _], _ | [_, _, _], _ => rfl
  · obtain ⟨arrived, rfl⟩ : ∃ arrived, bytes = bigEndian body.length ++ arrived := by
      have hheader : bytes.take 4 = bigEndian body.length := by
        have htake := congrArg (List.take 4) h
        rw [List.take_append_of_le_length (by omega), frame, List.take_left' (bigEndian_length _)] at htake
        exact htake
      exact ⟨bytes.drop 4, by rw [← hheader, List.take_append_drop]⟩
    rw [readFrame_bigEndian (by omega), if_neg (by omega), if_pos]
    rw [List.length_append, bigEndian_length] at hlt
    omega

theorem readFrame_eq_got_iff (hlimit : limit < 4294967296) :
    readFrame limit bytes = .got body rest ↔ bytes = frame body ++ rest ∧ body ≠ [] ∧ body.length ≤ limit := by
  constructor
  · intro h
    match bytes with
    | [] | [_] | [_, _] | [_, _, _] => cases h
    | a :: b :: c :: d :: tail =>
      rw [← List.singleton_append, show [a] ++ b :: c :: d :: tail = [a, b, c, d] ++ tail by rfl,
        ← bigEndian_ofBigEndian] at h ⊢
      have hsize : ofBigEndian a b c d < 4294967296 := by
        have ha := a.toNat_lt
        have hb := b.toNat_lt
        have hc := c.toNat_lt
        have hd := d.toNat_lt
        simp only [ofBigEndian]
        omega
      rw [readFrame_bigEndian hsize] at h
      split at h
      · cases h
      · next hin =>
        split at h
        · cases h
        · next hall =>
          obtain ⟨rfl, rfl⟩ := Reading.got.inj h
          have hlength : (tail.take (ofBigEndian a b c d)).length = ofBigEndian a b c d :=
            List.length_take_of_le (by omega)
          refine ⟨?_, ?_, by omega⟩
          · rw [frame, hlength, List.append_assoc, List.take_append_drop]
          · intro hnil
            rw [hnil] at hlength
            simp only [List.length_nil] at hlength
            omega
  · rintro ⟨rfl, hne, hle⟩
    exact readFrame_frame_append hlimit hne hle rest

/-- Bytes that arrive later change nothing that has been read. -/
theorem readFrame_append (hlimit : limit < 4294967296) (h : readFrame limit bytes = .got body rest)
    (later : List UInt8) : readFrame limit (bytes ++ later) = .got body (rest ++ later) := by
  obtain ⟨rfl, hne, hle⟩ := (readFrame_eq_got_iff hlimit).mp h
  rw [List.append_assoc, readFrame_frame_append hlimit hne hle]

end Limit

end PrtsMcp.Frames
