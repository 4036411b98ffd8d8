import PrtsMcp.ActivityPages

/-!
# 64-bit integers

Operations on `i64` in the two kinds of build.
-/
namespace PrtsMcp.I64

open ActivityPages (Build)

def InRange (x : ℤ) : Prop := -2 ^ 63 ≤ x ∧ x < 2 ^ 63

instance : DecidablePred InRange := fun _ => inferInstanceAs (Decidable (_ ∧ _))

/-- The `i64` for the result of one operation; `none` is a panic. -/
def narrow (build : Build) (x : ℤ) : Option ℤ :=
  if InRange x then some x
  else
    match build with
    | .checked => none
    | .wrapping => some (x.bmod (2 ^ 64))

theorem narrow_of_inRange {x : ℤ} (h : InRange x) (build : Build) : narrow build x = some x := if_pos h

theorem inRange_of_narrow {build : Build} {x y : ℤ} (h : narrow build x = some y) : InRange y := by
  unfold narrow at h
  split_ifs at h with hx
  · exact Option.some.inj h ▸ hx
  · cases build with
    | checked => cases h
    | wrapping =>
      obtain rfl := Option.some.inj h
      exact ⟨(Int.le_bmod (by norm_num)).trans' (by norm_num),
        (Int.bmod_lt (by norm_num)).trans_le (by norm_num)⟩

end PrtsMcp.I64
