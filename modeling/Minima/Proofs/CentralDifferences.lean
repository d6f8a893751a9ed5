import Mathlib.Algebra.MvPolynomial.PDeriv
import Minima.Objective.Difference
import Minima.Proofs.Acceptance
import Minima.Proofs.Expansions

/-!
# Central differences are exact for low degrees

Over the reals a difference that is symmetric about a point loses no term of a polynomial up to the
degree at which the first one of its own parity is missing: two values give the slope up to degree
2, three the curvature up to degree 3. The four values of a mixed difference are two such
differences, along the two diagonals of a square. So gradients and Hessians by differences are those
of the function, whatever the step is.
-/

namespace Minima

open Linear Matrix
open MvPolynomial (pderiv)

variable {n : Nat}

/-! ## Symmetric differences of one variable -/

section

variable {q : Polynomial ℝ}

theorem eval_sub_eval_neg (hq : q.natDegree ≤ 2) (h : ℝ) :
    q.eval h - q.eval (-h) = 2 * h * q.coeff 1 := by
  have hsum := fun t => Polynomial.eval_eq_sum_range' (Nat.lt_succ_of_le hq) t
  rw [hsum, hsum]
  simp only [Finset.sum_range_succ, Finset.sum_range_zero]
  ring

theorem eval_add_eval_neg (hq : q.natDegree ≤ 3) (h : ℝ) :
    q.eval h + q.eval (-h) = 2 * q.coeff 0 + 2 * h ^ 2 * q.coeff 2 := by
  have hsum := fun t => Polynomial.eval_eq_sum_range' (Nat.lt_succ_of_le hq) t
  rw [hsum, hsum]
  simp only [Finset.sum_range_succ, Finset.sum_range_zero]
  ring

end

/-! ## Points of the differences -/

namespace Linear

noncomputable def unit (i : Fin n) : Vector ℝ n := Vector.ofFn (Pi.single i 1)

@[simp] theorem get_unit (i : Fin n) : (unit i).get = Pi.single i 1 := funext fun j => get_ofFn _ j

theorem get_axis (i : Fin n) (h : ℝ) : (axis i.val h).get = h • (unit i).get := by
  funext j
  by_cases hj : j = i
  · simp [axis, hj]
  · simp [axis, hj, Fin.val_ne_of_ne hj, RealScalar.zero_literal]

end Linear

namespace Objective

variable {f : Objective ℝ n} {x : Vector ℝ n} {h : ℝ} {g : Vector ℝ n} {m : Square ℝ n}

theorem get_stride (h : ℝ) (i : Fin n) : (stride h i).get = h • (unit i).get := by
  funext j
  by_cases hj : j = i
  · simp [stride, hj, RealScalar.one_literal]
  · simp [stride, hj, RealScalar.zero_literal]

/-! ## One entry -/

theorem quotient_real {den : ℝ} (hden : den ≠ 0) (guarded : Bool) (num : ℝ) :
    quotient guarded num den = .ok (num / den) := by
  have hzero : ¬(den == (0.0 : ℝ)) = true := by
    rw [RealScalar.beq_iff, RealScalar.zero_literal]
    exact hden
  cases guarded with
  | false => rfl
  | true => exact if_neg hzero

theorem squared_real (h : ℝ) : squared h = .ok (h ^ 2) := rfl

/-- The difference along an axis is the component of the gradient. -/
theorem slope_of_expands (hf : f.Expands x 2 g m) (hh : h ≠ 0) (i : Fin n) :
    f.slope x h i = .ok (g.get i) := by
  obtain ⟨q, hq, hdegree, hfirst, -⟩ := hf (unit i)
  have hahead : f.value (x + axis i.val h) = .ok (q.eval h) :=
    hq.value_of_get (by rw [get_add, get_axis])
  have hbehind : f.value (x - axis i.val h) = .ok (q.eval (-h)) :=
    hq.value_of_get (by rw [get_sub, get_axis, neg_smul, sub_eq_add_neg])
  have htwo : (2.0 : ℝ) = 2 := by norm_num
  have hden : (2.0 : ℝ) * h ≠ 0 := by rw [htwo]; exact mul_ne_zero two_ne_zero hh
  have hcomponent : q.coeff 1 = g.get i := by rw [hfirst, get_unit, dotProduct_single_one]
  have hentry : (q.eval h - q.eval (-h)) / (2.0 * h) = g.get i := by
    rw [div_eq_iff hden, htwo]
    linear_combination eval_sub_eval_neg hdegree h + 2 * h * hcomponent
  rw [slope, hahead, hbehind, Attempt.ok_bind, Attempt.ok_bind, quotient_real hden, hentry]

/-- The difference along an axis is the entry of the Hessian on the diagonal. -/
theorem curvature_of_expands (hf : f.Expands x 3 g m) (hh : h ≠ 0) {centre : ℝ}
    (hcentre : f.value x = .ok centre) (i : Fin n) :
    f.curvature x h centre i = .ok (m.toMatrix i i) := by
  obtain ⟨q, hq, hdegree, -, hsecond⟩ := hf (unit i)
  have hahead : f.value (x + stride h i) = .ok (q.eval h) :=
    hq.value_of_get (by rw [get_add, get_stride])
  have hbehind : f.value (x - stride h i) = .ok (q.eval (-h)) :=
    hq.value_of_get (by rw [get_sub, get_stride, neg_smul, sub_eq_add_neg])
  have htwo : (2.0 : ℝ) = 2 := by norm_num
  have hden : h ^ 2 ≠ 0 := pow_ne_zero 2 hh
  obtain rfl : centre = q.coeff 0 := Except.ok.inj (hcentre.symm.trans hq.value_eq)
  have hform : 2 • q.coeff 2 = m.toMatrix i i := by
    rw [hsecond, get_unit, mulVec_single_one, single_one_dotProduct, col_apply]
  have hentry : (q.eval h - 2.0 * q.coeff 0 + q.eval (-h)) / h ^ 2 = m.toMatrix i i := by
    rw [div_eq_iff hden, htwo]
    linear_combination eval_add_eval_neg hdegree h + h ^ 2 * hform
  rw [curvature, hahead, hbehind, Attempt.ok_bind, Attempt.ok_bind, squared_real, Attempt.ok_bind,
    quotient_real hden, hentry]

/-- The mixed difference is the entry of the Hessian beside the diagonal. Its four values lie in
pairs on the diagonals of a square, and what it is made of are the curvatures along these. -/
theorem mixed_of_expands (hf : f.Expands x 3 g m) (hm : m.toMatrix.IsSymm) (hh : h ≠ 0)
    (i j : Fin n) : f.mixed x h i j = .ok (m.toMatrix i j) := by
  obtain ⟨q, hq, hdegree, -, hsecond⟩ := hf (unit i + unit j)
  obtain ⟨r, hr, hdegree', -, hsecond'⟩ := hf (unit i - unit j)
  have hpp : f.value (x + stride h i + stride h j) = .ok (q.eval h) :=
    hq.value_of_get (by simp only [get_add, get_stride]; module)
  have hpm : f.value (x + stride h i - stride h j) = .ok (r.eval h) :=
    hr.value_of_get (by simp only [get_add, get_sub, get_stride]; module)
  have hmp : f.value (x - stride h i + stride h j) = .ok (r.eval (-h)) :=
    hr.value_of_get (by simp only [get_add, get_sub, get_stride]; module)
  have hmm : f.value (x - stride h i - stride h j) = .ok (q.eval (-h)) :=
    hq.value_of_get (by simp only [get_add, get_sub, get_stride]; module)
  have hcentre : q.coeff 0 = r.coeff 0 := Except.ok.inj (hq.value_eq.symm.trans hr.value_eq)
  have hfour : (4.0 : ℝ) = 4 := by norm_num
  have hden : (4.0 : ℝ) * h ^ 2 ≠ 0 := by
    rw [hfour]
    exact mul_ne_zero four_ne_zero (pow_ne_zero 2 hh)
  have hforms : 2 • q.coeff 2 - 2 • r.coeff 2 = 4 * m.toMatrix i j := by
    rw [hsecond, hsecond']
    simp only [get_add, get_sub, get_unit, mulVec_add, mulVec_sub, mulVec_single_one,
      add_dotProduct, sub_dotProduct, dotProduct_add, dotProduct_sub, single_one_dotProduct,
      col_apply, hm.apply i j]
    ring
  have hentry : (q.eval h - r.eval h - r.eval (-h) + q.eval (-h)) / (4.0 * h ^ 2) =
      m.toMatrix i j := by
    rw [div_eq_iff hden, hfour]
    linear_combination eval_add_eval_neg hdegree h - eval_add_eval_neg hdegree' h +
      h ^ 2 * hforms + 2 * hcentre
  rw [mixed, hpp, hpm, hmp, hmm]
  simp only [Attempt.ok_bind, squared_real, quotient_real hden, hentry]

/-! ## Gradient and Hessian -/

theorem differenceGradient_of_expands (hf : f.Expands x 2 g m) (hh : h ≠ 0) :
    f.differenceGradient x h = .ok g := by
  have hentries : (fun i => f.slope x h i) = fun i => pure (g.get i) :=
    funext fun i => slope_of_expands hf hh i
  have hall : Vector.ofFn (fun i => g.get i) = g := ext_get (funext fun i => get_ofFn _ i)
  rw [differenceGradient, hentries, Vector.ofFnM_pure, hall]
  rfl

theorem differenceHessian_of_expands (hf : f.Expands x 3 g m) (hm : m.toMatrix.IsSymm)
    (hh : h ≠ 0) : f.differenceHessian x h = .ok m := by
  obtain ⟨centre, hcentre⟩ : ∃ centre, f.value x = .ok centre := by
    obtain ⟨q, hq, -⟩ := hf 0
    exact ⟨_, hq.value_eq⟩
  have hdiagonal : (fun i => f.curvature x h centre i) = fun i => pure (m.toMatrix i i) :=
    funext fun i => curvature_of_expands hf hh hcentre i
  have hupper : (fun i => Vector.ofFnM fun j => if i < j then f.mixed x h i j else pure 0.0) =
      fun i => pure (Vector.ofFn fun j => if i < j then m.toMatrix i j else 0.0) := by
    funext i
    rw [← Vector.ofFnM_pure]
    congr 1
    funext j
    split
    · exact mixed_of_expands hf hm hh i j
    · rfl
  rw [differenceHessian, hcentre, Attempt.ok_bind, hdiagonal, hupper, Vector.ofFnM_pure,
    Vector.ofFnM_pure]
  refine congrArg Except.ok (Square.ext_toMatrix ?_)
  ext i j
  simp only [Square.toMatrix_ofFn, of_apply, get_ofFn]
  rcases lt_trichotomy i j with hij | rfl | hij
  · simp [hij, hij.ne]
  · simp
  · simp [hij, hij.ne', hij.not_gt, hm.apply]

/-- Central differences of a polynomial are its derivatives: the gradient up to degree 2, and the
Hessian up to degree 3, for every step that is not zero. Of a quadratic they are the formulas. -/
theorem differences_exact (f : Objective ℝ n) (x : Vector ℝ n) {h : ℝ} (hh : h ≠ 0) :
    (∀ p : MvPolynomial (Fin n) ℝ, f.IsPolynomial p →
      (p.totalDegree ≤ 2 →
        ∃ g, f.differenceGradient x h = .ok g ∧
          ∀ i, g.get i = MvPolynomial.eval x.get (pderiv i p)) ∧
      (p.totalDegree ≤ 3 →
        ∃ m, f.differenceHessian x h = .ok m ∧
          ∀ i j, m.toMatrix i j = MvPolynomial.eval x.get (pderiv i (pderiv j p)))) ∧
    ∀ (a : Square ℝ n) (b : Vector ℝ n) (c : ℝ), a.toMatrix.IsSymm →
      (∀ y, f.value y = .ok (1 / 2 * (y.get ⬝ᵥ a.toMatrix *ᵥ y.get) - b.get ⬝ᵥ y.get + c)) →
        f.differenceGradient x h = .ok (a.mulVec x - b) ∧ f.differenceHessian x h = .ok a := by
  refine ⟨fun p hp => ⟨fun hdegree => ?_, fun hdegree => ?_⟩, fun a b c ha hf => ?_⟩
  · refine ⟨gradientAt x p, ?_, fun i => get_ofFn _ i⟩
    exact differenceGradient_of_expands ((hp.expands x).mono hdegree) hh
  · refine ⟨hessianAt x p, ?_, fun i j => ?_⟩
    · exact differenceHessian_of_expands ((hp.expands x).mono hdegree) (isSymm_hessianAt x p) hh
    · rw [hessianAt, Square.toMatrix_ofFn, of_apply]
  · have hquadratic : f.Expands x 2 (Quadratic.gradient a b x) a :=
      Quadratic.expands ha (fun y => by rw [hf, Quadratic.value_real]) x
    exact ⟨differenceGradient_of_expands hquadratic hh,
      differenceHessian_of_expands (hquadratic.mono (by norm_num)) ha hh⟩

noncomputable def ofPolynomial (name : String) (p : MvPolynomial (Fin n) ℝ) : Objective ℝ n where
  name
  value x := pure (MvPolynomial.eval x.get p)
  gradient? := none
  hessian? := none

/-- The differences of `x² y`, with a large step and at a point where the entries differ. -/
theorem fold_curvature_exact :
    (3 : ℝ) ≠ 0 ∧ (.X 0 ^ 2 * .X 1 : MvPolynomial (Fin 2) ℝ).totalDegree ≤ 3 ∧
      ∃ m, (ofPolynomial "fold" (.X 0 ^ 2 * .X 1)).differenceHessian #v[1, 2] 3 = .ok m ∧
        m.toMatrix = !![4, 2; 2, 0] := by
  have hdegree : (.X 0 ^ 2 * .X 1 : MvPolynomial (Fin 2) ℝ).totalDegree ≤ 3 := by
    refine (MvPolynomial.totalDegree_mul ..).trans ?_
    simp [MvPolynomial.totalDegree_X_pow]
  obtain ⟨m, hm, hentries⟩ :=
    ((differences_exact (ofPolynomial "fold" (.X 0 ^ 2 * .X 1)) #v[1, 2] three_ne_zero).1 _
      fun _ => rfl).2 hdegree
  refine ⟨three_ne_zero, hdegree, m, hm, ?_⟩
  ext i j
  rw [hentries]
  fin_cases i <;> fin_cases j <;> simp [MvPolynomial.pderiv_X, pderiv_ofNat, get_eq_getElem]
  norm_num

end Objective

end Minima
