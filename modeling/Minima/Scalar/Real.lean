import Mathlib.Analysis.Complex.Trigonometric
import Mathlib.Analysis.Real.Sqrt
import Minima.Scalar
import Minima.Text.Numeral

/-!
# Reals

The exact scalars. Every real is finite, none is undefined, and two that compare as equal are equal.
-/

namespace Minima

namespace RealScalar

/-- The real that a numeral stands for, which only finite ones do. -/
noncomputable def ofNumeral? : Text.Numeral → Option ℝ
  | .decimal negative mantissa exponent =>
    some (if negative then -(mantissa * 10 ^ exponent) else mantissa * 10 ^ exponent)
  | .infinite _ | .undefined => none

/-- The whole part, cut toward zero. -/
noncomputable def truncate (x : ℝ) : ℤ := if x < 0 then ⌈x⌉ else ⌊x⌋

end RealScalar

noncomputable instance : Scalar ℝ where
  beq x y := decide (x = y)
  power x n := x ^ n
  decidableLT := inferInstance
  decidableLE := inferInstance
  abs x := |x|
  sqrt := Real.sqrt
  exp := Real.exp
  sin := Real.sin
  cos := Real.cos
  isNaN _ := false
  isFinite _ := true
  truncate := RealScalar.truncate
  decades x := ⌈x⌉₊
  ofText? s := (Text.Numeral.ofText? s).bind RealScalar.ofNumeral?

namespace RealScalar

@[simp] theorem isFinite_eq (x : ℝ) : Scalar.isFinite x = true := rfl

theorem zero_literal : (0.0 : ℝ) = 0 := by norm_num

theorem one_literal : (1.0 : ℝ) = 1 := by norm_num

/-- Reals that compare as equal are equal. -/
theorem beq_iff (x y : ℝ) : (Scalar.toBEq.beq x y) = true ↔ x = y := decide_eq_true_iff

theorem lesser_eq_min (x y : ℝ) : Scalar.lesser x y = min x y := by
  rw [Scalar.lesser, min_comm, min_def_lt]

theorem greater_eq_max (x y : ℝ) : Scalar.greater x y = max x y := by
  rw [Scalar.greater, max_def_lt]

end RealScalar

end Minima
