import Minima.Scalar.Real
import Minima.Method.QuasiNewton
import Minima.Proofs.Acceptance
import Minima.Proofs.RealVectors
import Mathlib.Algebra.Order.Star.Real
import Mathlib.LinearAlgebra.Matrix.PosDef

/-!
# The correction of an approximate inverse

Over the reals the correction is a shear of the old approximation plus a square along the step. So
where the curvature along the step is positive, what was positive definite stays so, and the new
approximation maps the change of the gradient to the change of the point. The test before a
correction sees to it that the curvature is positive.
-/

namespace Minima.QuasiNewton

open Linear Matrix

variable {n : Nat}

/-! ## The update of a matrix -/

section

variable {b : Matrix (Fin n) (Fin n) ℝ} {s y : Fin n → ℝ}

/-- `1 - ρ y sᵀ` with `ρ = 1 / s·y`. -/
noncomputable def shear (s y : Fin n → ℝ) : Matrix (Fin n) (Fin n) ℝ :=
  1 - (s ⬝ᵥ y)⁻¹ • vecMulVec y s

noncomputable def update (b : Matrix (Fin n) (Fin n) ℝ) (s y : Fin n → ℝ) :
    Matrix (Fin n) (Fin n) ℝ :=
  (shear s y)ᵀ * b * shear s y + (s ⬝ᵥ y)⁻¹ • vecMulVec s s

theorem shear_mulVec (s y x : Fin n → ℝ) :
    shear s y *ᵥ x = x - ((s ⬝ᵥ y)⁻¹ * (s ⬝ᵥ x)) • y := by
  rw [shear, sub_mulVec, one_mulVec, smul_mulVec, vecMulVec_mulVec, op_smul_eq_smul, smul_smul]

theorem shear_mulVec_self (h : s ⬝ᵥ y ≠ 0) : shear s y *ᵥ y = 0 := by
  rw [shear_mulVec, inv_mul_cancel₀ h, one_smul, sub_self]

/-- The update takes at `x` the value of the old form where the shear brings `x`, and a square. -/
theorem form_update (b : Matrix (Fin n) (Fin n) ℝ) (s y x : Fin n → ℝ) :
    x ⬝ᵥ (update b s y *ᵥ x) =
      (shear s y *ᵥ x) ⬝ᵥ (b *ᵥ (shear s y *ᵥ x)) + (s ⬝ᵥ y)⁻¹ * (s ⬝ᵥ x) ^ 2 := by
  have hsheared : x ⬝ᵥ (((shear s y)ᵀ * b * shear s y) *ᵥ x) =
      (shear s y *ᵥ x) ⬝ᵥ (b *ᵥ (shear s y *ᵥ x)) := by
    rw [← mulVec_mulVec, ← mulVec_mulVec, dotProduct_mulVec, vecMul_transpose]
  have hsquare : x ⬝ᵥ (((s ⬝ᵥ y)⁻¹ • vecMulVec s s) *ᵥ x) = (s ⬝ᵥ y)⁻¹ * (s ⬝ᵥ x) ^ 2 := by
    rw [smul_mulVec, vecMulVec_mulVec, op_smul_eq_smul, dotProduct_smul, dotProduct_smul,
      dotProduct_comm x s, smul_eq_mul, smul_eq_mul, sq]
  rw [update, add_mulVec, dotProduct_add, hsheared, hsquare]

/-- Across the step the form stays. -/
theorem form_update_of_orthogonal (b : Matrix (Fin n) (Fin n) ℝ) (y : Fin n → ℝ) {x : Fin n → ℝ}
    (h : s ⬝ᵥ x = 0) : x ⬝ᵥ (update b s y *ᵥ x) = x ⬝ᵥ (b *ᵥ x) := by
  have hsheared : shear s y *ᵥ x = x := by
    rw [shear_mulVec, h, mul_zero, zero_smul, sub_zero]
  rw [form_update, hsheared, h, zero_pow two_ne_zero, mul_zero, add_zero]

theorem isHermitian_update (hb : b.IsHermitian) (s y : Fin n → ℝ) :
    (update b s y).IsHermitian := by
  have hsheared : ((shear s y)ᵀ * b * shear s y).IsHermitian :=
    isHermitian_conjTranspose_mul_mul (shear s y) hb
  have hsquare : ((s ⬝ᵥ y)⁻¹ • vecMulVec s s).IsHermitian := by
    ext i j
    simp [vecMulVec_apply, mul_comm (s j)]
  exact hsheared.add hsquare

/-- Along positive curvature, an update keeps a matrix positive definite: where the shear brings a
vector to zero, it is a multiple of `y`, and the square is positive. -/
theorem posDef_update (hb : b.PosDef) (hcurved : 0 < s ⬝ᵥ y) : (update b s y).PosDef := by
  refine .of_dotProduct_mulVec_pos (isHermitian_update hb.isHermitian s y) fun x hx => ?_
  rw [star_trivial, form_update]
  -- one of the two terms is positive, and neither is negative
  by_cases hsheared : shear s y *ᵥ x = 0
  · have hmultiple : x = ((s ⬝ᵥ y)⁻¹ * (s ⬝ᵥ x)) • y := by
      rwa [shear_mulVec, sub_eq_zero] at hsheared
    have halong : s ⬝ᵥ x ≠ 0 := by
      intro hzero
      rw [hzero, mul_zero, zero_smul] at hmultiple
      exact hx hmultiple
    rw [hsheared, zero_dotProduct, zero_add]
    exact mul_pos (inv_pos.mpr hcurved) (sq_pos_of_ne_zero halong)
  · have hform := hb.dotProduct_mulVec_pos hsheared
    rw [star_trivial] at hform
    exact add_pos_of_pos_of_nonneg hform (mul_nonneg (inv_pos.mpr hcurved).le (sq_nonneg _))

/-- The secant equation. -/
theorem update_mulVec (b : Matrix (Fin n) (Fin n) ℝ) (h : s ⬝ᵥ y ≠ 0) : update b s y *ᵥ y = s := by
  have hsheared : ((shear s y)ᵀ * b * shear s y) *ᵥ y = 0 := by
    rw [← mulVec_mulVec, shear_mulVec_self h, mulVec_zero]
  have hsquare : ((s ⬝ᵥ y)⁻¹ • vecMulVec s s) *ᵥ y = s := by
    rw [smul_mulVec, vecMulVec_mulVec, op_smul_eq_smul, smul_smul, inv_mul_cancel₀ h, one_smul]
  rw [update, add_mulVec, hsheared, hsquare, zero_add]

end

/-! ## The correction -/

section

variable {b : Square ℝ n} {s y : Vector ℝ n}

theorem divide_of_ne_zero (x : ℝ) {t : ℝ} (h : t ≠ 0) : divide x t = .ok (x / t) := by
  have hbeq : (t == (0.0 : ℝ)) = false := by
    rw [Bool.eq_false_iff, ne_eq, RealScalar.beq_iff, RealScalar.zero_literal]
    exact h
  rw [divide, hbeq]
  rfl

theorem corrected_real (h : dot s y ≠ 0) :
    ∃ b', corrected b s y = .ok b' ∧ b'.toMatrix = update b.toMatrix s.get y.get := by
  refine ⟨_, by rw [corrected, divide_of_ne_zero 1.0 h]; rfl, ?_⟩
  have hrho : (1.0 : ℝ) / dot s y = (s.get ⬝ᵥ y.get)⁻¹ := by
    rw [dot_real]
    norm_num
  simp [update, shear, hrho, transpose_vecMulVec]

/-- What is corrected after a step: the first step scales it. -/
noncomputable def uncorrected (count : Nat) (b : Matrix (Fin n) (Fin n) ℝ) (s y : Fin n → ℝ) :
    Matrix (Fin n) (Fin n) ℝ :=
  if count = 0 then ((s ⬝ᵥ y) / (y ⬝ᵥ y)) • b else b

/-- A change that meets a change of the gradient is none only with it. -/
theorem self_pos_of_curved {s y : Fin n → ℝ} (hcurved : 0 < s ⬝ᵥ y) : 0 < y ⬝ᵥ y := by
  have hself : 0 ≤ y ⬝ᵥ y := dotProduct_star_self_nonneg y
  refine hself.lt_of_ne' fun hzero => ?_
  rw [dotProduct_self_eq_zero.mp hzero, dotProduct_zero] at hcurved
  exact lt_irrefl 0 hcurved

theorem posDef_uncorrected {b : Matrix (Fin n) (Fin n) ℝ} {s y : Fin n → ℝ} (hb : b.PosDef)
    (hcurved : 0 < s ⬝ᵥ y) (count : Nat) : (uncorrected count b s y).PosDef := by
  unfold uncorrected
  split
  · exact hb.smul (div_pos hcurved (self_pos_of_curved hcurved))
  · exact hb

theorem correction_real (count : Nat) (b : Square ℝ n) (hcurved : 0 < dot s y) :
    ∃ b', correction count b s y = .ok b' ∧
      b'.toMatrix = update (uncorrected count b.toMatrix s.get y.get) s.get y.get := by
  rw [correction, uncorrected, ← dot_real, ← dot_real]
  split
  · have hself : dot y y ≠ 0 := by
      rw [dot_real] at hcurved ⊢
      exact (self_pos_of_curved hcurved).ne'
    rw [scaled, divide_of_ne_zero _ hself, ← Square.toMatrix_scale]
    exact corrected_real hcurved.ne'
  · exact corrected_real hcurved.ne'

/-- The test before a correction. -/
theorem curved_of_test {eps : ℝ} (heps : 0 ≤ eps) (h : eps * norm s * norm y < dot s y) :
    0 < dot s y :=
  (mul_nonneg (mul_nonneg heps (Real.sqrt_nonneg _)) (Real.sqrt_nonneg _)).trans_lt h

end

/-! ## The direction -/

section

variable {st : State ℝ n}

/-- A positive definite approximation leads downhill. -/
theorem downhill_of_posDef {b : Square ℝ n} (hb : b.toMatrix.PosDef) {g : Vector ℝ n} (hg : g ≠ 0) :
    dot g (b.negate.mulVec g) < 0 := by
  have hform := hb.dotProduct_mulVec_pos (mt get_eq_zero_iff.mp hg)
  rw [star_trivial] at hform
  rw [dot_real, Square.get_mulVec, Square.toMatrix_negate, neg_mulVec, dotProduct_neg]
  exact neg_neg_of_pos hform

theorem direction_of_posDef (hb : st.inverse.toMatrix.PosDef) (hg : st.iterate.gradient ≠ 0) :
    direction st = (st.inverse.negate.mulVec st.iterate.gradient, st.inverse) := by
  have hdownhill : ¬ (0.0 : ℝ) ≤ dot st.iterate.gradient
      (st.inverse.negate.mulVec st.iterate.gradient) := by
    norm_num
    exact downhill_of_posDef hb hg
  exact if_neg hdownhill

/-- Without a slope the approximation is given up, and there is no direction. -/
theorem direction_of_flat (hg : st.iterate.gradient = 0) :
    direction st = (0, Square.identity n) := by
  have hlevel : (0.0 : ℝ) ≤ dot st.iterate.gradient
      (st.inverse.negate.mulVec st.iterate.gradient) := by
    rw [hg, zero_dot]
    norm_num
  rw [direction, if_pos hlevel, hg, neg_zero_vector]

end

end Minima.QuasiNewton
