import Mathlib.Algebra.Order.Star.Real
import Mathlib.Topology.Instances.Matrix
import Mathlib.Topology.MetricSpace.Bounded
import Mathlib.Tactic.LinearCombination
import Mathlib.Tactic.Module
import Minima.Proofs.Quadratics

/-!
# Steps on a quadratic

Along a step a quadratic with a symmetric matrix changes by the slope and half the curvature, both
taken exactly. So its least value is where the gradient vanishes, and a definite form is at least a
fixed multiple of the square of the length.
-/

namespace Minima

open Linear Matrix

variable {n : Nat}

/-! ## Definite forms -/

/-- The sphere is compact. -/
theorem isCompact_unit : IsCompact {v : Fin n → ℝ | v ⬝ᵥ v = 1} := by
  refine Metric.isCompact_of_isClosed_isBounded (isClosed_eq (by fun_prop) continuous_const) ?_
  refine (Metric.isBounded_closedBall (x := (0 : Fin n → ℝ)) (r := 1)).subset fun v hv => ?_
  rw [Metric.mem_closedBall, dist_pi_le_iff zero_le_one]
  intro i
  have hsquare : v i * v i ≤ v ⬝ᵥ v :=
    Finset.single_le_sum (fun j _ => mul_self_nonneg (v j)) (Finset.mem_univ i)
  have hi : v i * v i ≤ 1 := hsquare.trans hv.le
  simpa [Real.dist_eq] using abs_le_one_iff_mul_self_le_one.mpr hi

theorem exists_unit {v : Fin n → ℝ} (hv : v ≠ 0) :
    ∃ (r : ℝ) (u : Fin n → ℝ), u ⬝ᵥ u = 1 ∧ v = r • u := by
  have hpositive : 0 < v ⬝ᵥ v := dotProduct_self_star_pos_iff.mpr hv
  have hroot := Real.mul_self_sqrt hpositive.le
  have hne : Real.sqrt (v ⬝ᵥ v) ≠ 0 := (Real.sqrt_pos.mpr hpositive).ne'
  refine ⟨Real.sqrt (v ⬝ᵥ v), (Real.sqrt (v ⬝ᵥ v))⁻¹ • v, ?_, (smul_inv_smul₀ hne v).symm⟩
  simp only [smul_dotProduct, dotProduct_smul, smul_eq_mul]
  field_simp
  linarith

/-- A positive form is at least a multiple of the square of the length, which is its least value on
the sphere. -/
theorem exists_le_form {m : Matrix (Fin n) (Fin n) ℝ} (hm : ∀ v ≠ 0, 0 < v ⬝ᵥ m *ᵥ v) :
    ∃ c > 0, ∀ v, c * (v ⬝ᵥ v) ≤ v ⬝ᵥ m *ᵥ v := by
  rcases Set.eq_empty_or_nonempty {v : Fin n → ℝ | v ⬝ᵥ v = 1} with hempty | hnonempty
  · -- there are no variables, and so only one vector
    refine ⟨1, one_pos, fun v => ?_⟩
    have hzero : v = 0 := by
      by_contra hv
      obtain ⟨-, u, hu, -⟩ := exists_unit hv
      exact hempty.subset hu
    simp [hzero]
  · obtain ⟨u, hu, hleast⟩ := isCompact_unit.exists_isMinOn hnonempty
      (f := fun v => v ⬝ᵥ m *ᵥ v) (by fun_prop)
    have hne : u ≠ 0 := by
      rintro rfl
      simp at hu
    refine ⟨u ⬝ᵥ m *ᵥ u, hm u hne, fun v => ?_⟩
    by_cases hv : v = 0
    · simp [hv]
    obtain ⟨r, w, hw, rfl⟩ := exists_unit hv
    have hle : u ⬝ᵥ m *ᵥ u ≤ w ⬝ᵥ m *ᵥ w := hleast hw
    have hscaled := mul_le_mul_of_nonneg_left hle (mul_self_nonneg r)
    simp only [mulVec_smul, smul_dotProduct, dotProduct_smul, smul_eq_mul, hw]
    linarith

namespace Quadratic

variable {a : Square ℝ n} {b x p : Vector ℝ n}

noncomputable abbrev subject (name : String) (a : Square ℝ n) (b : Vector ℝ n)
    (ledger : Ledger ℝ n) : Subject ℝ :=
  { n, objective := objective name a b, ledger }

theorem get_vecMul (x : Vector ℝ n) (a : Square ℝ n) :
    (Square.vecMul x a).get = x.get ᵥ* a.toMatrix := by
  funext j
  rw [Square.vecMul, get_map, dot_real]
  simp [Square.transpose, Square.ofFn, vecMul, dotProduct, Square.toMatrix_apply]

theorem get_gradient (a : Square ℝ n) (b x : Vector ℝ n) :
    (gradient a b x).get = a.toMatrix *ᵥ x.get - b.get := by
  rw [gradient, get_sub, Square.get_mulVec]

theorem value_real (a : Square ℝ n) (b x : Vector ℝ n) :
    value a b x = 1 / 2 * (x.get ⬝ᵥ a.toMatrix *ᵥ x.get) - b.get ⬝ᵥ x.get := by
  rw [value, dot_real, dot_real, get_vecMul, get_smul, smul_vecMul, smul_dotProduct,
    ← dotProduct_mulVec, smul_eq_mul]
  norm_num

/-- What a step does to the value. -/
theorem value_add (ha : a.toMatrix.IsSymm) (b x p : Vector ℝ n) :
    value a b (x + p) = value a b x + (gradient a b x).get ⬝ᵥ p.get +
      1 / 2 * (p.get ⬝ᵥ a.toMatrix *ᵥ p.get) := by
  have hcross : x.get ⬝ᵥ a.toMatrix *ᵥ p.get = p.get ⬝ᵥ a.toMatrix *ᵥ x.get := by
    rw [dotProduct_mulVec, ← mulVec_transpose, ha.eq, dotProduct_comm]
  rw [value_real, value_real, get_gradient, get_add]
  simp only [mulVec_add, add_dotProduct, dotProduct_add, sub_dotProduct, hcross]
  rw [dotProduct_comm (a.toMatrix *ᵥ x.get) p.get]
  ring

/-- Away from where the system is solved the value is greater by half the curvature. -/
theorem value_eq_add_form (ha : a.toMatrix.IsSymm) (hx : a.mulVec x = b) (y : Vector ℝ n) :
    value a b y = value a b x + 1 / 2 * ((y - x).get ⬝ᵥ a.toMatrix *ᵥ (y - x).get) := by
  have hy : y = x + (y - x) := ext_get (by rw [get_add, get_sub, add_sub_cancel])
  conv_lhs => rw [hy]
  rw [value_add ha, gradient_minimum hx, get_zero, zero_dotProduct, add_zero]

/-- The value is least where the system is solved. -/
theorem value_minimum_le (ha : a.toMatrix.PosSemidef) (hx : a.mulVec x = b) (y : Vector ℝ n) :
    value a b x ≤ value a b y := by
  have hcurved : 0 ≤ (y - x).get ⬝ᵥ a.toMatrix *ᵥ (y - x).get := by
    simpa using ha.dotProduct_mulVec_nonneg (y - x).get
  rw [value_eq_add_form ha.isHermitian hx y]
  linarith

/-- If the matrix is definite, the value is least only there. -/
theorem value_eq_minimum_iff (ha : a.toMatrix.PosDef) (hx : a.mulVec x = b) {y : Vector ℝ n} :
    value a b y = value a b x ↔ y = x := by
  refine ⟨fun h => ?_, fun h => by rw [h]⟩
  by_contra hne
  have hstep : (y - x).get ≠ 0 := by
    rw [get_sub, sub_ne_zero]
    exact fun h => hne (ext_get h)
  have hcurved : 0 < (y - x).get ⬝ᵥ a.toMatrix *ᵥ (y - x).get := by
    simpa using ha.dotProduct_mulVec_pos hstep
  rw [value_eq_add_form ha.isHermitian hx y] at h
  linarith

end Quadratic

end Minima
