import Minima.Scalar.Real
import Minima.Linear.Cholesky
import Minima.Method.Newton
import Minima.Proofs.LinearSystems
import Mathlib.LinearAlgebra.Matrix.PosDef
import Mathlib.LinearAlgebra.Matrix.NonsingularInverse
import Mathlib.Tactic.FieldSimp

/-!
# A positive definite matrix has its Cholesky factor

Over the reals the recursion finds a factor of a symmetric matrix exactly if the matrix is positive
definite: the value of its form is a square, from the first column, and the value of the form of what
remains when that column has been divided out. With its factor a system of the matrix is solved.
-/

namespace Minima

namespace Linear

open Matrix

variable {n : Nat}

section

variable {a : Square ℝ (n + 1)}

noncomputable def root (a : Square ℝ (n + 1)) : ℝ := √(a.toMatrix 0 0)

/-- The first column below the pivot, divided by the root. -/
noncomputable def column (a : Square ℝ (n + 1)) : Vector ℝ n :=
  .ofFn fun i => a.toMatrix i.succ 0 / root a

/-- What remains when the first column has been divided out. -/
noncomputable def remainder (a : Square ℝ (n + 1)) : Square ℝ n :=
  .ofFn fun i j => a.toMatrix i.succ j.succ - (column a).get i * (column a).get j

/-- The factor of a matrix, given that of its remainder. -/
noncomputable def bordered (a : Square ℝ (n + 1)) (l : Square ℝ n) : Square ℝ (n + 1) :=
  cons (.ofFn fun j => if j.val = 0 then root a else 0.0)
    (.ofFn fun i => cons ((column a).get i) (l.get i))

theorem cholesky?_succ (h : 0 < a.toMatrix 0 0) :
    cholesky? (n + 1) a = (cholesky? n (remainder a)).map (bordered a) := by
  have hpivot : ¬ a.toMatrix 0 0 ≤ (0.0 : ℝ) := by
    rw [RealScalar.zero_literal]
    exact not_le.mpr h
  exact if_neg hpivot

theorem root_mul_self (h : 0 < a.toMatrix 0 0) : root a * root a = a.toMatrix 0 0 :=
  Real.mul_self_sqrt h.le

theorem root_mul_column (h : 0 < a.toMatrix 0 0) (i : Fin n) :
    root a * (column a).get i = a.toMatrix i.succ 0 := by
  have hne : root a ≠ 0 := (Real.sqrt_pos.mpr h).ne'
  rw [column, get_ofFn, mul_div_cancel₀ _ hne]

theorem toMatrix_remainder (a : Square ℝ (n + 1)) :
    (remainder a).toMatrix =
      a.toMatrix.submatrix Fin.succ Fin.succ - vecMulVec (column a).get (column a).get := by
  rw [remainder, Square.toMatrix_ofFn]
  rfl

/-- The value of a quadratic form, by the first component and the others. -/
theorem form_cons (m : Matrix (Fin (n + 1)) (Fin (n + 1)) ℝ) (t : ℝ) (y : Fin n → ℝ) :
    (Fin.cons t y : Fin (n + 1) → ℝ) ⬝ᵥ (m *ᵥ Fin.cons t y) =
      t * (m 0 0 * t + (fun j => m 0 j.succ) ⬝ᵥ y) +
        (t * ((fun i => m i.succ 0) ⬝ᵥ y) + y ⬝ᵥ (m.submatrix Fin.succ Fin.succ *ᵥ y)) := by
  have hcolumn : ∑ i, y i * (m i.succ 0 * t) = t * ∑ i, m i.succ 0 * y i := by
    rw [Finset.mul_sum]
    exact Finset.sum_congr rfl fun i _ => by ring
  simp only [dotProduct, mulVec, Fin.sum_univ_succ, Fin.cons_zero, Fin.cons_succ, mul_add,
    Finset.sum_add_distrib, submatrix_apply, hcolumn]
  ring

theorem form_remainder (y : Fin n → ℝ) :
    y ⬝ᵥ ((remainder a).toMatrix *ᵥ y) =
      y ⬝ᵥ (a.toMatrix.submatrix Fin.succ Fin.succ *ᵥ y) - ((column a).get ⬝ᵥ y) ^ 2 := by
  rw [toMatrix_remainder, sub_mulVec, vecMulVec_mulVec, dotProduct_sub]
  simp [dotProduct_comm]
  ring

theorem isSymm_remainder (ha : a.toMatrix.IsSymm) : (remainder a).toMatrix.IsSymm := by
  ext i j
  simp [toMatrix_remainder, vecMulVec_apply, ha.apply i.succ, mul_comm]

/-- The value of the form of a symmetric matrix is a square and the value of the form of what
remains. -/
theorem form_eq_sq_add (hpivot : 0 < a.toMatrix 0 0) (ha : a.toMatrix.IsSymm) (t : ℝ)
    (y : Fin n → ℝ) :
    (Fin.cons t y : Fin (n + 1) → ℝ) ⬝ᵥ (a.toMatrix *ᵥ Fin.cons t y) =
      (root a * t + (column a).get ⬝ᵥ y) ^ 2 + y ⬝ᵥ ((remainder a).toMatrix *ᵥ y) := by
  have hcolumn : (fun i => a.toMatrix i.succ 0) = root a • (column a).get :=
    funext fun i => (root_mul_column hpivot i).symm
  have hrow : (fun j => a.toMatrix 0 j.succ) = root a • (column a).get :=
    funext fun j => (ha.apply j.succ 0).trans (congrFun hcolumn j)
  rw [form_cons, hrow, hcolumn, smul_dotProduct, smul_eq_mul, ← root_mul_self hpivot,
    form_remainder]
  ring

/-- What remains of a positive definite matrix is positive definite. -/
theorem posDef_remainder (ha : a.toMatrix.PosDef) : (remainder a).toMatrix.PosDef := by
  have hpivot : 0 < a.toMatrix 0 0 := ha.diag_pos
  refine .of_dotProduct_mulVec_pos (isSymm_remainder ha.isHermitian) fun y hy => ?_
  -- `y` is continued so that the square vanishes
  have hne : root a ≠ 0 := (Real.sqrt_pos.mpr hpivot).ne'
  have hcontinued : (Fin.cons (-((column a).get ⬝ᵥ y) / root a) y : Fin (n + 1) → ℝ) ≠ 0 := by
    intro hzero
    exact hy (funext fun i => congrFun hzero i.succ)
  have hpositive := ha.dotProduct_mulVec_pos hcontinued
  rw [star_trivial, form_eq_sq_add hpivot ha.isHermitian, mul_div_cancel₀ _ hne,
    neg_add_cancel, zero_pow two_ne_zero, zero_add] at hpositive
  rwa [star_trivial]

/-- A symmetric matrix with a positive pivot is positive definite if what remains is. -/
theorem posDef_of_remainder (hpivot : 0 < a.toMatrix 0 0) (ha : a.toMatrix.IsSymm)
    (hremainder : (remainder a).toMatrix.PosDef) : a.toMatrix.PosDef := by
  refine .of_dotProduct_mulVec_pos ha fun x hx => ?_
  obtain ⟨t, y, rfl⟩ : ∃ t y, x = Fin.cons t y := ⟨x 0, Fin.tail x, (Fin.cons_self_tail x).symm⟩
  rw [star_trivial, form_eq_sq_add hpivot ha]
  by_cases hy : y = 0
  · have ht : t ≠ 0 := by
      rintro rfl
      refine hx (funext fun i => ?_)
      cases i using Fin.cases <;> simp [hy]
    have hroot : 0 < root a := Real.sqrt_pos.mpr hpivot
    rw [hy, dotProduct_zero, add_zero, zero_dotProduct, add_zero]
    exact sq_pos_of_ne_zero (mul_ne_zero hroot.ne' ht)
  · have hform := hremainder.dotProduct_mulVec_pos hy
    rw [star_trivial] at hform
    exact add_pos_of_nonneg_of_pos (sq_nonneg _) hform

theorem toMatrix_bordered_mul_transpose (h : 0 < a.toMatrix 0 0) {l : Square ℝ n}
    (hsymmetric : a.toMatrix.IsSymm)
    (hl : l.toMatrix * l.toMatrixᵀ = (remainder a).toMatrix) :
    (bordered a l).toMatrix * (bordered a l).toMatrixᵀ = a.toMatrix := by
  have htop : (bordered a l).toMatrix 0 = Fin.cons (root a) 0 := by
    funext j
    cases j using Fin.cases <;>
      simp [Square.toMatrix_apply, bordered, get_cons, RealScalar.zero_literal]
  have hbelow (i : Fin n) :
      (bordered a l).toMatrix i.succ = Fin.cons ((column a).get i) (l.toMatrix i) := by
    funext j
    cases j using Fin.cases <;> simp [Square.toMatrix_apply, bordered, get_cons]
  have hremainder (i j : Fin n) : ∑ k, l.toMatrix i k * l.toMatrix j k =
      a.toMatrix i.succ j.succ - (column a).get i * (column a).get j := by
    have hentry := congrFun (congrFun hl i) j
    rw [toMatrix_remainder] at hentry
    simpa [mul_apply, vecMulVec_apply] using hentry
  ext i j
  rw [mul_apply]
  cases i using Fin.cases with
  | zero =>
      cases j using Fin.cases with
      | zero => simp [htop, Fin.sum_univ_succ, root_mul_self h]
      | succ j => simp [htop, hbelow, Fin.sum_univ_succ, root_mul_column h, hsymmetric.apply]
  | succ i =>
      cases j using Fin.cases with
      | zero => simp [htop, hbelow, Fin.sum_univ_succ, mul_comm _ (root a), root_mul_column h]
      | succ j => simp [hbelow, Fin.sum_univ_succ, hremainder]

end

/-- A positive definite matrix has a Cholesky factor. -/
theorem cholesky?_posDef {a : Square ℝ n} (ha : a.toMatrix.PosDef) :
    ∃ l, cholesky? n a = some l ∧ l.toMatrix * l.toMatrixᵀ = a.toMatrix := by
  induction n with
  | zero => exact ⟨#v[], rfl, Subsingleton.elim _ _⟩
  | succ n ih =>
      have hpivot : 0 < a.toMatrix 0 0 := ha.diag_pos
      obtain ⟨l, hl, hfactor⟩ := ih (posDef_remainder ha)
      refine ⟨bordered a l, by rw [cholesky?_succ hpivot, hl]; rfl, ?_⟩
      exact toMatrix_bordered_mul_transpose hpivot ha.isHermitian hfactor

theorem pivot_pos_of_cholesky? {a l : Square ℝ (n + 1)} (h : cholesky? (n + 1) a = some l) :
    0 < a.toMatrix 0 0 := by
  by_contra hpivot
  have hnot : a.toMatrix 0 0 ≤ (0.0 : ℝ) := by
    rw [RealScalar.zero_literal]
    exact not_lt.mp hpivot
  have hnone : cholesky? (n + 1) a = none := if_pos hnot
  rw [hnone] at h
  cases h

/-- A symmetric matrix has a Cholesky factor exactly if it is positive definite. -/
theorem cholesky?_isSome_iff {a : Square ℝ n} (ha : a.toMatrix.IsSymm) :
    (cholesky? n a).isSome = true ↔ a.toMatrix.PosDef := by
  constructor
  · -- on the dimension: the pivot is positive, and what remains has a factor
    intro hfactor
    obtain ⟨l, hl⟩ := Option.isSome_iff_exists.mp hfactor
    induction n with
    | zero => exact .of_dotProduct_mulVec_pos ha fun x hx => absurd (Subsingleton.elim x 0) hx
    | succ n ih =>
        have hpivot := pivot_pos_of_cholesky? hl
        rw [cholesky?_succ hpivot] at hl
        obtain ⟨l', hl', -⟩ := Option.map_eq_some_iff.mp hl
        refine posDef_of_remainder hpivot ha (ih (isSymm_remainder ha) ?_ l' hl')
        rw [hl']
        rfl
  · intro hdefinite
    obtain ⟨l, hl, -⟩ := cholesky?_posDef hdefinite
    rw [hl]
    rfl

/-- A system with an invertible matrix is solved. -/
theorem solve?_isUnit {a : Square ℝ n} (ha : IsUnit a.toMatrix) (b : Vector ℝ n) :
    ∃ x, solve? a b = some x ∧ a.mulVec x = b := by
  refine solve?_of_injective (fun y hy => ext_get ?_) b
  refine mulVec_injective_of_isUnit ha ?_
  rw [← Square.get_mulVec, hy, get_zero, mulVec_zero]

end Linear

/-! ## Systems with a factor -/

namespace Newton

open Linear Matrix

variable {n : Nat} {a l : Square ℝ n}

/-- With a Cholesky factor a system is solved. -/
theorem solveFactored_posDef (ha : a.toMatrix.PosDef)
    (hl : l.toMatrix * l.toMatrixᵀ = a.toMatrix) (b : Vector ℝ n) :
    ∃ p, solveFactored l b = .ok p ∧ a.mulVec p = b := by
  have hdet : IsUnit (l.toMatrix.det * l.toMatrixᵀ.det) := by
    rw [← det_mul, hl]
    exact (isUnit_iff_isUnit_det _).mp ha.isUnit
  have hunit : IsUnit l.toMatrix :=
    (isUnit_iff_isUnit_det _).mpr (isUnit_of_mul_isUnit_left hdet)
  have hunit' : IsUnit l.transpose.toMatrix := by
    rw [Square.toMatrix_transpose]
    exact (isUnit_iff_isUnit_det _).mpr (isUnit_of_mul_isUnit_right hdet)
  obtain ⟨y, hy, hly⟩ := solve?_isUnit hunit b
  obtain ⟨p, hp, hlp⟩ := solve?_isUnit hunit' y
  refine ⟨p, by simp [solveFactored, hy, hp]; rfl, ?_⟩
  calc a.mulVec p = l.mulVec (l.transpose.mulVec p) := by
        refine ext_get ?_
        simp [Square.get_mulVec, hl]
    _ = b := by rw [hlp, hly]

end Newton

end Minima
