import Mathlib.Algebra.MvPolynomial.PDeriv
import Minima.Proofs.QuadraticForms

/-!
# Expansions along lines

On a line a polynomial of several variables becomes one of a single variable, of no larger degree.
Its first coefficients are the value, the slope and half the curvature in the direction of the line,
and these are given by the first and second partial derivatives. An objective with such coefficients
on every line through a point expands there; polynomials do, and so do quadratics given by a matrix.
-/

namespace Minima

open Linear Matrix
open MvPolynomial (pderiv)

variable {n : Nat}

/-! ## Polynomials on a line -/

/-- A polynomial on the line from `x` in the direction `v`. -/
noncomputable def onLine (x v : Vector ℝ n) : MvPolynomial (Fin n) ℝ →ₐ[ℝ] Polynomial ℝ :=
  MvPolynomial.aeval fun i => .C (x.get i) + .C (v.get i) * .X

section

variable (x v : Vector ℝ n) (p : MvPolynomial (Fin n) ℝ)

@[simp] theorem onLine_X (i : Fin n) : onLine x v (.X i) = .C (x.get i) + .C (v.get i) * .X :=
  MvPolynomial.aeval_X _ i

theorem eval_onLine (t : ℝ) : (onLine x v p).eval t = MvPolynomial.eval (x + t * v).get p := by
  induction p using MvPolynomial.induction_on with
  | C c => simp
  | add p q hp hq => simp only [map_add, Polynomial.eval_add, hp, hq]
  | mul_X p i hp =>
      rw [map_mul, Polynomial.eval_mul, hp, map_mul, onLine_X, MvPolynomial.eval_X]
      simp only [get_add, get_smul, Polynomial.eval_add, Polynomial.eval_mul, Polynomial.eval_C,
        Polynomial.eval_X, Pi.add_apply, Pi.smul_apply, smul_eq_mul, mul_comm t]

theorem natDegree_onLine_le : (onLine x v p).natDegree ≤ p.totalDegree := by
  have hlinear (i : Fin n) :
      (Polynomial.C (x.get i) + Polynomial.C (v.get i) * Polynomial.X).natDegree ≤ 1 := by
    compute_degree
  simpa [onLine] using MvPolynomial.aeval_natDegree_le p le_rfl _ hlinear

/-- The chain rule. -/
theorem derivative_onLine :
    (onLine x v p).derivative = ∑ i, .C (v.get i) * onLine x v (pderiv i p) := by
  induction p using MvPolynomial.induction_on with
  | C c => simp
  | add p q hp hq => simp [hp, hq, mul_add, Finset.sum_add_distrib]
  | mul_X p j hp =>
      have hvariable : ∑ i, .C (v.get i) * onLine x v (pderiv i (.X j)) = .C (v.get j) := by
        simp [MvPolynomial.pderiv_X, Pi.single_apply, apply_ite (onLine x v)]
      calc (onLine x v (p * .X j)).derivative
        _ = (onLine x v p).derivative * onLine x v (.X j) + onLine x v p * .C (v.get j) := by
            rw [map_mul, Polynomial.derivative_mul]
            simp
        _ = ∑ i, .C (v.get i) * onLine x v (pderiv i (p * .X j)) := by
            rw [hp, ← hvariable, Finset.sum_mul, Finset.mul_sum, ← Finset.sum_add_distrib]
            refine Finset.sum_congr rfl fun i _ => ?_
            rw [MvPolynomial.pderiv_mul, map_add, map_mul, map_mul]
            ring

/-! ## The first coefficients -/

noncomputable def gradientAt : Vector ℝ n :=
  Vector.ofFn fun i => MvPolynomial.eval x.get (pderiv i p)

noncomputable def hessianAt : Square ℝ n :=
  Square.ofFn fun i j => MvPolynomial.eval x.get (pderiv i (pderiv j p))

theorem pderiv_ofNat (i : Fin n) (k : ℕ) [k.AtLeastTwo] :
    pderiv i (ofNat(k) : MvPolynomial (Fin n) ℝ) = 0 :=
  (pderiv i).map_natCast k

theorem pderiv_comm (i j : Fin n) : pderiv i (pderiv j p) = pderiv j (pderiv i p) := by
  have hfactors (m : Fin n →₀ ℕ) : (((m + .single i 1) j : ℕ) + 1 : ℝ) * (m i + 1) =
      (((m + .single j 1) i : ℕ) + 1) * (m j + 1) := by
    by_cases h : i = j
    · rw [h]
    · simp [h, Ne.symm h, mul_comm]
  ext m
  simp only [MvPolynomial.coeff_pderiv, mul_assoc]
  rw [add_right_comm, hfactors]

theorem isSymm_hessianAt : (hessianAt x p).toMatrix.IsSymm := by
  refine .ext fun i j => ?_
  simp only [hessianAt, Square.toMatrix_ofFn, of_apply, pderiv_comm p i j]

theorem coeff_zero_onLine : (onLine x v p).coeff 0 = MvPolynomial.eval x.get p := by
  rw [Polynomial.coeff_zero_eq_eval_zero, eval_onLine, get_add, get_smul, zero_smul, add_zero]

theorem coeff_one_onLine : (onLine x v p).coeff 1 = (gradientAt x p).get ⬝ᵥ v.get := by
  have hcoeff := Polynomial.coeff_derivative (onLine x v p) 0
  rw [derivative_onLine, Polynomial.finsetSum_coeff] at hcoeff
  simpa [coeff_zero_onLine, gradientAt, dotProduct, mul_comm] using hcoeff.symm

theorem coeff_two_onLine :
    2 • (onLine x v p).coeff 2 = v.get ⬝ᵥ (hessianAt x p).toMatrix *ᵥ v.get := by
  have hcoeff : ∑ i, v.get i * ((gradientAt x (pderiv i p)).get ⬝ᵥ v.get) =
      (onLine x v p).coeff 2 * 2 := by
    have hderivative := Polynomial.coeff_derivative (onLine x v p) 1
    rw [derivative_onLine, Polynomial.finsetSum_coeff] at hderivative
    simpa [coeff_one_onLine, one_add_one_eq_two] using hderivative
  have hform : v.get ⬝ᵥ (hessianAt x p).toMatrix *ᵥ v.get =
      ∑ i, v.get i * ((gradientAt x (pderiv i p)).get ⬝ᵥ v.get) := by
    rw [← (isSymm_hessianAt x p).eq]
    simp [hessianAt, gradientAt, dotProduct, mulVec]
  rw [hform, hcoeff, nsmul_eq_mul, Nat.cast_ofNat, mul_comm]

end

/-! ## Expansions of an objective -/

namespace Objective

variable {f : Objective ℝ n} {x v : Vector ℝ n} {q : Polynomial ℝ}

/-- On the line from `x` in the direction `v` the values are those of a polynomial. -/
def Along (f : Objective ℝ n) (x v : Vector ℝ n) (q : Polynomial ℝ) : Prop :=
  ∀ t : ℝ, f.value (x + t * v) = .ok (q.eval t)

theorem Along.value_of_get (h : f.Along x v q) {y : Vector ℝ n} {t : ℝ}
    (hy : y.get = x.get + t • v.get) : f.value y = .ok (q.eval t) := by
  rw [← h t]
  exact congrArg f.value (ext_get (by rw [hy, get_add, get_smul]))

theorem Along.value_eq (h : f.Along x v q) : f.value x = .ok (q.coeff 0) := by
  rw [Polynomial.coeff_zero_eq_eval_zero]
  exact h.value_of_get (by rw [zero_smul, add_zero])

/-- On every line through `x` the values are those of a polynomial of degree at most `d`, whose
coefficients are given by the gradient `g` and the Hessian `m`: the one at `t` is the slope, and
twice the one at `t²` is the curvature. -/
def Expands (f : Objective ℝ n) (x : Vector ℝ n) (d : ℕ) (g : Vector ℝ n) (m : Square ℝ n) : Prop :=
  ∀ v : Vector ℝ n, ∃ q, f.Along x v q ∧ q.natDegree ≤ d ∧ q.coeff 1 = g.get ⬝ᵥ v.get ∧
    2 • q.coeff 2 = v.get ⬝ᵥ m.toMatrix *ᵥ v.get

theorem Expands.mono {d e : ℕ} {g : Vector ℝ n} {m : Square ℝ n} (h : f.Expands x d g m)
    (hde : d ≤ e) : f.Expands x e g m := by
  intro v
  obtain ⟨q, hq, hdegree, hcoefficients⟩ := h v
  exact ⟨q, hq, hdegree.trans hde, hcoefficients⟩

/-- The values are those of a polynomial in the components of the point. -/
def IsPolynomial (f : Objective ℝ n) (p : MvPolynomial (Fin n) ℝ) : Prop :=
  ∀ y, f.value y = .ok (MvPolynomial.eval y.get p)

/-- A polynomial expands with its partial derivatives. -/
theorem IsPolynomial.expands {p : MvPolynomial (Fin n) ℝ} (hf : f.IsPolynomial p)
    (x : Vector ℝ n) : f.Expands x p.totalDegree (gradientAt x p) (hessianAt x p) :=
  fun v => ⟨onLine x v p, fun t => by rw [hf, eval_onLine], natDegree_onLine_le x v p,
    coeff_one_onLine x v p, coeff_two_onLine x v p⟩

end Objective

namespace Quadratic

/-- The polynomial `c₀ + c₁ t + c₂ t²`. -/
noncomputable def parabola (c₀ c₁ c₂ : ℝ) : Polynomial ℝ := .C c₂ * .X ^ 2 + .C c₁ * .X + .C c₀

section

variable (c₀ c₁ c₂ : ℝ)

theorem eval_parabola (t : ℝ) : (parabola c₀ c₁ c₂).eval t = c₀ + t * c₁ + t ^ 2 * c₂ := by
  simp only [parabola, Polynomial.eval_add, Polynomial.eval_mul, Polynomial.eval_C,
    Polynomial.eval_X, Polynomial.eval_pow]
  ring

theorem coeff_one_parabola : (parabola c₀ c₁ c₂).coeff 1 = c₁ := by
  simp [parabola, Polynomial.coeff_X_pow, Polynomial.coeff_C]

theorem coeff_two_parabola : (parabola c₀ c₁ c₂).coeff 2 = c₂ := by
  simp [parabola]

end

/-- What is quadratic up to a constant expands with its gradient and its matrix. -/
theorem expands {f : Objective ℝ n} {a : Square ℝ n} {b : Vector ℝ n} {c : ℝ}
    (ha : a.toMatrix.IsSymm) (hf : ∀ y, f.value y = .ok (value a b y + c)) (x : Vector ℝ n) :
    f.Expands x 2 (gradient a b x) a := by
  intro v
  refine ⟨parabola (value a b x + c) ((gradient a b x).get ⬝ᵥ v.get)
    (1 / 2 * (v.get ⬝ᵥ a.toMatrix *ᵥ v.get)), fun t => ?_, Polynomial.natDegree_quadratic_le,
    coeff_one_parabola .., ?_⟩
  · rw [hf, value_add ha, eval_parabola]
    simp only [get_smul, mulVec_smul, dotProduct_smul, smul_dotProduct, smul_eq_mul]
    congr 1
    ring
  · rw [coeff_two_parabola, two_nsmul]
    ring

end Quadratic

end Minima
