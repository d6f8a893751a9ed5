import Mathlib.Analysis.Calculus.Deriv.Polynomial
import Mathlib.Analysis.Calculus.LocalExtr.Basic
import Minima.Problem.Catalogue
import Minima.Proofs.Expansions

/-!
# Known derivatives and known minima

Problems come with formulas for their derivatives and with a minimum, where these are known. The
formulas are right: on every line through every point the value is a polynomial of the step, whose
coefficients are those that gradient and Hessian give. The minimum is right too: no point has a
smaller value, no other point has the same, and the gradient vanishes there.
-/

namespace Minima

open Linear Matrix
open MvPolynomial (pderiv X C eval)

variable {n : Nat}

/-! ## What is known of a problem -/

/-- The derivatives of an objective are given by formulas, and the objective expands with them at
every point. -/
structure Objective.DerivedBy (f : Objective ℝ n) (gradient : Vector ℝ n → Vector ℝ n)
    (hessian : Vector ℝ n → Square ℝ n) : Prop where
  given : f.gradient?.isSome ∧ f.hessian?.isSome
  answers_gradient : ∀ x, Ledger.plainAnswer f (.gradient x) = .ok (gradient x)
  answers_hessian : ∀ x, Ledger.plainAnswer f (.hessian x) = .ok (hessian x)
  expands : ∀ x, ∃ d, f.Expands x d (gradient x) (hessian x)

/-- The minimum of a problem is `x`, its least value is `least`, and both are true: no other point
has such a small value, and the gradient vanishes at `x`. -/
structure Problem.LeastAt (p : Problem ℝ) (x : Vector ℝ p.n) (least : ℝ) : Prop where
  minimum : p.minimum? = some (Tensor.ofVector x)
  leastValue : p.leastValue? = some least
  le_value : ∀ y, ∃ v, p.objective.value y = .ok v ∧ least ≤ v ∧ (v = least ↔ y = x)
  flat : Ledger.plainAnswer p.objective (.gradient x) = .ok 0

/-- All that is known of a problem is true. -/
structure Problem.Faithful (p : Problem ℝ) : Prop where
  derived : ∃ gradient hessian, p.objective.DerivedBy gradient hessian
  least : p.minimum?.isSome ∨ p.leastValue?.isSome → ∃ x least, p.LeastAt x least

/-- A polynomial that is least at zero has no linear term. -/
theorem coeff_one_of_least {q : Polynomial ℝ} (hq : ∀ t, q.eval 0 ≤ q.eval t) : q.coeff 1 = 0 := by
  have hmin : IsLocalMin (fun t => q.eval t) 0 := Filter.Eventually.of_forall hq
  have hflat := hmin.hasDerivAt_eq_zero (q.hasDerivAt 0)
  rw [← Polynomial.coeff_zero_eq_eval_zero, Polynomial.coeff_derivative] at hflat
  simpa using hflat

/-- Where a value is least the gradient vanishes. -/
theorem Objective.Expands.eq_zero {f : Objective ℝ n} {x g : Vector ℝ n} {m : Square ℝ n} {d : ℕ}
    (hf : f.Expands x d g m) {least : ℝ} (hx : f.value x = .ok least)
    (hleast : ∀ y v, f.value y = .ok v → least ≤ v) : g = 0 := by
  obtain ⟨q, hq, -, hfirst, -⟩ := hf g
  have hzero : q.coeff 1 = 0 := by
    refine coeff_one_of_least fun t => ?_
    have hcentre : q.eval 0 = least := by
      rw [← Polynomial.coeff_zero_eq_eval_zero]
      exact Except.ok.inj (hq.value_eq.symm.trans hx)
    rw [hcentre]
    exact hleast _ _ (hq t)
  rw [hfirst, dotProduct_self_eq_zero] at hzero
  exact get_eq_zero_iff.mp hzero

theorem Problem.leastAt_of_le {p : Problem ℝ} {gradient : Vector ℝ p.n → Vector ℝ p.n}
    {hessian : Vector ℝ p.n → Square ℝ p.n} (hp : p.objective.DerivedBy gradient hessian)
    {x : Vector ℝ p.n} {least : ℝ} (hminimum : p.minimum? = some (Tensor.ofVector x))
    (hleast : p.leastValue? = some least)
    (hle : ∀ y, ∃ v, p.objective.value y = .ok v ∧ least ≤ v ∧ (v = least ↔ y = x)) :
    p.LeastAt x least := by
  refine ⟨hminimum, hleast, hle, ?_⟩
  have hx : p.objective.value x = .ok least := by
    obtain ⟨v, hv, -, heq⟩ := hle x
    rw [hv, heq.mpr rfl]
  obtain ⟨d, hexpands⟩ := hp.expands x
  have hflat : gradient x = 0 := hexpands.eq_zero hx fun y v hv => by
    obtain ⟨w, hw, hlew, -⟩ := hle y
    exact Except.ok.inj (hw.symm.trans hv) ▸ hlew
  rw [hp.answers_gradient, hflat]

/-! ## Functions of two variables -/

namespace Catalogue

open Scalar (square cube power)

theorem get_pair (x y : ℝ) : (#v[x, y] : Vector ℝ 2).get = ![x, y] := by
  funext i
  fin_cases i <;> rfl

theorem gradientAt_pair (x y : ℝ) (p : MvPolynomial (Fin 2) ℝ) :
    gradientAt #v[x, y] p = #v[eval ![x, y] (pderiv 0 p), eval ![x, y] (pderiv 1 p)] := by
  refine ext_get (funext fun i => ?_)
  rw [gradientAt, get_pair, get_ofFn]
  fin_cases i <;> rfl

theorem hessianAt_pair (x y : ℝ) (p : MvPolynomial (Fin 2) ℝ) :
    hessianAt #v[x, y] p =
      #v[#v[eval ![x, y] (pderiv 0 (pderiv 0 p)), eval ![x, y] (pderiv 0 (pderiv 1 p))],
        #v[eval ![x, y] (pderiv 1 (pderiv 0 p)), eval ![x, y] (pderiv 1 (pderiv 1 p))]] := by
  refine Square.ext_toMatrix ?_
  ext i j
  rw [hessianAt, get_pair, Square.toMatrix_ofFn, of_apply]
  fin_cases i <;> fin_cases j <;> rfl

/-- A function of two variables and the formulas for its derivatives are those of a polynomial. -/
structure Formulas (f : ℝ → ℝ → ℝ) (gradient : ℝ → ℝ → Vector ℝ 2) (hessian : ℝ → ℝ → Square ℝ 2)
    (p : MvPolynomial (Fin 2) ℝ) : Prop where
  value : ∀ x y, f x y = eval ![x, y] p
  gradient : ∀ x y, gradient x y = gradientAt #v[x, y] p
  hessian : ∀ x y, hessian x y = hessianAt #v[x, y] p

theorem formulas_f2 :
    Formulas f2 gradF2 (fun _ _ => hessF2)
      ((X 0 - X 1) ^ 2 + C (1 / 9) * (X 0 + X 1 - C 10) ^ 2) where
  value x y := by
    simp [f2, square, power]
    norm_num1
    ring
  gradient x y := by
    rw [gradientAt_pair]
    simp [gradF2, MvPolynomial.pderiv_X]
    norm_num1
    constructor <;> ring
  hessian x y := by
    rw [hessianAt_pair]
    simp [hessF2, MvPolynomial.pderiv_X, pderiv_ofNat]
    norm_num

theorem formulas_valley (shift : ℝ) :
    Formulas (valley shift) (gradValley shift) hessValley
      (C 5 * (X 1 - C 4 * X 0 ^ 3 + C 3 * X 0) ^ 2 + (X 0 + C shift) ^ 2) where
  value x y := by
    norm_num [valley, square, cube, power]
  gradient x y := by
    rw [gradientAt_pair]
    norm_num [gradValley, square, cube, power, MvPolynomial.pderiv_X]
    constructor <;> ring
  hessian x y := by
    rw [hessianAt_pair]
    norm_num [hessValley, square, cube, power, MvPolynomial.pderiv_X, pderiv_ofNat]
    refine ⟨⟨?_, ?_⟩, ?_⟩ <;> ring

theorem formulas_f5 :
    Formulas f5 gradF5 hessF5 (C 100 * (X 1 - X 0 ^ 3 + X 0) ^ 2 + (X 0 - 1) ^ 2) where
  value x y := by
    norm_num [f5, square, cube, power]
  gradient x y := by
    rw [gradientAt_pair]
    norm_num [gradF5, square, cube, power, MvPolynomial.pderiv_X]
    constructor <;> ring
  hessian x y := by
    rw [hessianAt_pair]
    norm_num [hessF5, square, cube, power, MvPolynomial.pderiv_X, pderiv_ofNat]
    refine ⟨⟨?_, ?_⟩, ?_⟩ <;> ring

theorem formulas_f7 :
    Formulas f7 gradF7 hessF7 (C 100 * (X 1 - X 0 ^ 2) ^ 2 + (1 - X 0) ^ 2) where
  value x y := by
    norm_num [f7, square, power]
  gradient x y := by
    rw [gradientAt_pair]
    norm_num [gradF7, square, power, MvPolynomial.pderiv_X]
    constructor <;> ring
  hessian x y := by
    rw [hessianAt_pair]
    norm_num [hessF7, square, power, MvPolynomial.pderiv_X, pderiv_ofNat]
    constructor <;> ring

theorem hessF8_eq : (hessF8 : Square ℝ 2) = #v[#v[2, 0], #v[0, 2]] := by
  refine Square.ext_toMatrix ?_
  ext i j
  rw [hessF8, Square.toMatrix_scale, Square.toMatrix_identity]
  fin_cases i <;> fin_cases j <;> simp [Square.toMatrix_apply, get_eq_getElem] <;> norm_num

theorem formulas_f8 :
    Formulas f8 (fun x y => #v[2.0 * (x - 4.0), 2.0 * (y - 4.0)]) (fun _ _ => hessF8)
      ((X 0 - C 4) ^ 2 + (X 1 - C 4) ^ 2) where
  value x y := by
    norm_num [f8, square, power]
  gradient x y := by
    rw [gradientAt_pair]
    norm_num [MvPolynomial.pderiv_X]
  hessian x y := by
    rw [hessianAt_pair]
    simp [hessF8_eq, MvPolynomial.pderiv_X, pderiv_ofNat]

/-! ## Problems in the plane -/

theorem pair_eta (x : Vector ℝ 2) : #v[x.get 0, x.get 1] = x := by
  refine ext_get (funext fun i => ?_)
  fin_cases i <;> rfl

section

variable {f : ℝ → ℝ → ℝ} {g : ℝ → ℝ → Vector ℝ 2} {h : ℝ → ℝ → Square ℝ 2}
  {p : MvPolynomial (Fin 2) ℝ} {formula : ℝ → ℝ → Array ℝ}

theorem Formulas.derivedBy (hp : Formulas f g h p) (hformula : ∀ x y, formula x y = (g x y).toArray)
    (name : String) (guarded : ℝ → ℝ → Bool) :
    (plane name f (some formula) (some h) guarded).DerivedBy
      (fun x => g (x.get 0) (x.get 1)) (fun x => h (x.get 0) (x.get 1)) where
  given := ⟨rfl, rfl⟩
  answers_gradient x := by
    refine Ledger.plainAnswer_of_gradient? rfl ?_
    exact congrArg Except.ok (hformula (x.get 0) (x.get 1))
  answers_hessian x := Ledger.plainAnswer_of_hessian? rfl rfl
  expands x := by
    have hpolynomial : (plane name f (some formula) (some h) guarded).IsPolynomial p := by
      intro y
      rw [← pair_eta y, get_pair]
      exact congrArg Except.ok (hp.value _ _)
    refine ⟨p.totalDegree, ?_⟩
    rw [hp.gradient, hp.hessian, pair_eta]
    exact hpolynomial.expands x

/-- A problem in the plane whose formulas are right and whose function is zero at its minimum, and
positive elsewhere. -/
theorem Formulas.faithful (hp : Formulas f g h p) (hformula : ∀ x y, formula x y = (g x y).toArray)
    {m : ℝ × ℝ} {a b : ℝ} (hleast : ∀ x y, 0 ≤ f x y ∧ (f x y = 0 ↔ x = a ∧ y = b))
    (hm : m = (a, b)) (key title : String) (start : ℝ × ℝ) :
    (planeProblem key title f (some formula) (some h) start (some m)).Faithful := by
  have hderived := hp.derivedBy hformula key fun _ _ => false
  subst hm
  refine ⟨⟨_, _, hderived⟩, fun _ => ⟨#v[a, b], 0.0, ?_⟩⟩
  refine Problem.leastAt_of_le hderived rfl rfl fun (y : Vector ℝ 2) =>
    ⟨f (y.get 0) (y.get 1), rfl, ?_⟩
  have hpoint : y = #v[a, b] ↔ y.get 0 = a ∧ y.get 1 = b := by
    conv_lhs => rw [← pair_eta y]
    simp
  rw [RealScalar.zero_literal]
  exact ⟨(hleast _ _).1, (hleast _ _).2.trans hpoint.symm⟩

end

/-! ### Where the functions vanish -/

theorem sum_squares {c u w : ℝ} (hc : 0 < c) {vanishes : Prop}
    (h : u = 0 ∧ w = 0 ↔ vanishes) :
    0 ≤ c * u ^ 2 + w ^ 2 ∧ (c * u ^ 2 + w ^ 2 = 0 ↔ vanishes) := by
  have hu : 0 ≤ c * u ^ 2 := mul_nonneg hc.le (sq_nonneg u)
  refine ⟨add_nonneg hu (sq_nonneg w), ?_⟩
  rw [← h, add_eq_zero_iff_of_nonneg hu (sq_nonneg w), mul_eq_zero, pow_eq_zero_iff two_ne_zero,
    pow_eq_zero_iff two_ne_zero]
  simp [hc.ne']

theorem f2_least (x y : ℝ) : 0 ≤ f2 x y ∧ (f2 x y = 0 ↔ x = 5 ∧ y = 5) := by
  have hform : f2 x y = 1 / 9 * (x + y - 10) ^ 2 + (x - y) ^ 2 := by
    simp [f2, square, power]
    norm_num1
    ring
  rw [hform]
  refine sum_squares (by norm_num) ⟨?_, ?_⟩
  · rintro ⟨hu, hw⟩
    constructor <;> linarith
  · rintro ⟨rfl, rfl⟩
    norm_num

theorem valley_least (shift x y : ℝ) :
    0 ≤ valley shift x y ∧
      (valley shift x y = 0 ↔ x = -shift ∧ y = 3 * shift - 4 * shift ^ 3) := by
  have hform : valley shift x y = 5 * (y - 4 * x ^ 3 + 3 * x) ^ 2 + (x + shift) ^ 2 := by
    norm_num [valley, square, cube, power]
  rw [hform]
  refine sum_squares (by norm_num) ⟨?_, ?_⟩
  · rintro ⟨hu, hw⟩
    obtain rfl := eq_neg_of_add_eq_zero_left hw
    exact ⟨rfl, by linear_combination hu⟩
  · rintro ⟨rfl, rfl⟩
    constructor <;> ring

theorem f5_least (x y : ℝ) : 0 ≤ f5 x y ∧ (f5 x y = 0 ↔ x = 1 ∧ y = 0) := by
  have hform : f5 x y = 100 * (y - x ^ 3 + x) ^ 2 + (x - 1) ^ 2 := by
    norm_num [f5, square, cube, power]
  rw [hform]
  refine sum_squares (by norm_num) ⟨?_, ?_⟩
  · rintro ⟨hu, hw⟩
    obtain rfl := sub_eq_zero.mp hw
    exact ⟨rfl, by linear_combination hu⟩
  · rintro ⟨rfl, rfl⟩
    norm_num

theorem f7_least (x y : ℝ) : 0 ≤ f7 x y ∧ (f7 x y = 0 ↔ x = 1 ∧ y = 1) := by
  have hform : f7 x y = 100 * (y - x ^ 2) ^ 2 + (1 - x) ^ 2 := by
    norm_num [f7, square, power]
  rw [hform]
  refine sum_squares (by norm_num) ⟨?_, ?_⟩
  · rintro ⟨hu, hw⟩
    obtain rfl := (sub_eq_zero.mp hw).symm
    exact ⟨rfl, by linear_combination hu⟩
  · rintro ⟨rfl, rfl⟩
    norm_num

theorem f8_least (x y : ℝ) : 0 ≤ f8 x y ∧ (f8 x y = 0 ↔ x = 4 ∧ y = 4) := by
  have hform : f8 x y = 1 * (x - 4) ^ 2 + (y - 4) ^ 2 := by
    norm_num [f8, square, power]
  rw [hform]
  exact sum_squares one_pos (and_congr sub_eq_zero sub_eq_zero)

/-! ## Problems on a line -/

/-- A problem on a line with the function `½ c t²`, whose minimum, if it is known, is at zero. -/
theorem faithful_line {f df : ℝ → ℝ} {c : ℝ} {minimum? : Option ℝ}
    (hf : ∀ t, f t = 1 / 2 * (c * t ^ 2)) (hdf : ∀ t, df t = c * t)
    (hmin : ∀ m ∈ minimum?, m = 0 ∧ 0 < c) (key title : String) (start : ℝ) :
    (lineProblem key title f df c start minimum?).Faithful := by
  have hderived : (lineProblem key title f df c start minimum?).objective.DerivedBy
      (fun x : Vector ℝ 1 => #v[df x[0]]) (fun _ => #v[#v[c]]) := by
    refine ⟨⟨rfl, rfl⟩, fun x => Ledger.plainAnswer_of_gradient? rfl rfl,
      fun x => Ledger.plainAnswer_of_hessian? rfl rfl, fun (x : Vector ℝ 1) => ⟨2, ?_⟩⟩
    have hsymmetric : (Square.toMatrix (#v[#v[c]] : Square ℝ 1)).IsSymm :=
      .ext fun i j => by rw [Subsingleton.elim i j]
    have hvalue (y : Vector ℝ 1) : f y[0] = Quadratic.value #v[#v[c]] 0 y + 0 := by
      rw [hf, Quadratic.value_real]
      simp [get_eq_getElem, mulVec, dotProduct, Square.toMatrix_apply]
      ring
    have hgradient : Quadratic.gradient #v[#v[c]] 0 x = #v[df x[0]] := by
      refine ext_get (funext fun i => ?_)
      rw [Quadratic.get_gradient, hdf]
      simp [get_eq_getElem, mulVec, dotProduct, Square.toMatrix_apply]
    exact hgradient ▸ Quadratic.expands hsymmetric (fun y => congrArg Except.ok (hvalue y)) x
  refine ⟨⟨_, _, hderived⟩, fun hknown => ?_⟩
  obtain ⟨m, rfl⟩ : ∃ m, minimum? = some m := by
    cases minimum? with
    | none => simp [lineProblem] at hknown
    | some m => exact ⟨m, rfl⟩
  obtain ⟨rfl, hc⟩ := hmin m rfl
  refine ⟨(#v[0] : Vector ℝ 1), 0.0, Problem.leastAt_of_le hderived rfl rfl ?_⟩
  intro (y : Vector ℝ 1)
  have hpoint : y = #v[0] ↔ y[0] = 0 := by
    constructor
    · rintro rfl
      rfl
    · intro hy
      refine ext_get (funext fun i => ?_)
      rw [Subsingleton.elim i 0]
      exact hy
  refine ⟨f y[0], rfl, ?_, Iff.trans ?_ hpoint.symm⟩ <;> rw [RealScalar.zero_literal, hf]
  · positivity
  · simp [hc.ne']

/-! ## The catalogue -/

noncomputable def derived : List (Problem ℝ) :=
  problems.filter fun p => p.objective.gradient?.isSome

theorem gradF8_eq (x y : ℝ) :
    gradF8 #[x, y] = (#v[2.0 * (x - 4.0), 2.0 * (y - 4.0)] : Vector ℝ 2).toArray := by
  simp [gradF8]

theorem faithful_of_mem_derived : ∀ p ∈ derived, p.Faithful := by
  intro p hp
  obtain ⟨hmem, hgiven⟩ := List.mem_filter.mp hp
  simp only [problems, List.mem_cons, List.not_mem_nil, or_false] at hmem
  rcases hmem with rfl | rfl | rfl | rfl | rfl | rfl | rfl | rfl | rfl | rfl
  · cases hgiven
  · exact formulas_f2.faithful (fun _ _ => rfl) f2_least (by norm_num) ..
  · exact (formulas_valley 1.0).faithful (fun _ _ => rfl) (valley_least 1.0) (by norm_num) ..
  · exact (formulas_valley (-1.0)).faithful (fun _ _ => rfl) (valley_least (-1.0)) (by norm_num) ..
  · exact formulas_f5.faithful (fun _ _ => rfl) f5_least (by norm_num) ..
  · cases hgiven
  · exact formulas_f7.faithful (fun _ _ => rfl) f7_least (by norm_num) ..
  · exact formulas_f8.faithful gradF8_eq f8_least (by norm_num) ..
  · refine faithful_line (fun t => ?_) (fun _ => rfl) (by simp; norm_num) ..
    norm_num [square, power]
    ring
  · refine faithful_line (fun t => ?_) (fun _ => rfl) (by simp) ..
    norm_num [square, power]
    ring

end Catalogue

/-! ## Quadratics of a matrix -/

namespace Quadratic

variable {a : Square ℝ n} {b : Vector ℝ n}

theorem derivedBy (ha : a.toMatrix.IsSymm) (name : String) (b : Vector ℝ n) :
    (objective name a b).DerivedBy (gradient a b) (fun _ => a) where
  given := ⟨rfl, rfl⟩
  answers_gradient x := plainAnswer_gradient name a b x
  answers_hessian x := plainAnswer_hessian name a b x
  expands x := ⟨2, expands ha (fun y => congrArg Except.ok (add_zero (value a b y)).symm) x⟩

end Quadratic

/-- What the catalogue and the quadratics of definite matrices tell about their problems is true. A
matrix without rows is refused. -/
theorem Problem.known_derivatives_and_minima :
    Catalogue.derived.map (fun p => (p.key, p.minimum?.isSome)) =
      [("f2", true), ("f3", true), ("f4", true), ("f5", true), ("f7", true), ("f8", true),
        ("quadratic_1d", true), ("concave_1d", false)] ∧
    (∀ p ∈ Catalogue.derived, p.Faithful) ∧
    ∀ (n : Nat) (a : Square ℝ n) (b? : Option (Vector ℝ n)) (start? : Option (Tensor ℝ))
      (key : String), a.toMatrix.PosDef →
      (n = 0 → Quadratic.problem? (Tensor.ofRows n (a.toArray.map Vector.toArray))
        (b?.map Tensor.ofVector) start? key = .error .badNumeral) ∧
      (n ≠ 0 → ∃ p, Quadratic.problem? (Tensor.ofRows n (a.toArray.map Vector.toArray))
          (b?.map Tensor.ofVector) start? key = .ok p ∧
        p.subject? =
          .ok { n, objective := Quadratic.objective key a (b?.getD (Vector.replicate n 0.0)) } ∧
        p.minimum?.isSome ∧ p.Faithful) := by
  refine ⟨rfl, Catalogue.faithful_of_mem_derived, fun n a b? start? key ha => ⟨?_, fun hn => ?_⟩⟩
  · rintro rfl
    exact Quadratic.problem?_empty a _ _ _
  obtain ⟨x, hx, hproblem⟩ := Quadratic.problem?_eq_ok hn ha b? start? key
  refine ⟨_, hproblem, if_neg hn, rfl, ?_⟩
  have hderived := Quadratic.derivedBy ha.isHermitian key (b?.getD (Vector.replicate n 0.0))
  refine ⟨⟨_, _, hderived⟩, fun _ => ⟨x, _, Problem.leastAt_of_le hderived rfl rfl fun y => ?_⟩⟩
  exact ⟨_, rfl, Quadratic.value_minimum_le ha.posSemidef hx y,
    Quadratic.value_eq_minimum_iff ha hx⟩

/-- A bowl whose axes are not those of the plane. -/
noncomputable def tilted : Square ℝ 2 := Square.ofFn fun i j => if i = j then 2.0 else 1.0

theorem tilted_posDef : tilted.toMatrix.PosDef := by
  refine .of_dotProduct_mulVec_pos ?_ fun v hv => ?_
  · ext i j
    fin_cases i <;> fin_cases j <;> rfl
  · have hform : v ⬝ᵥ tilted.toMatrix *ᵥ v = v 0 ^ 2 + v 1 ^ 2 + (v 0 + v 1) ^ 2 := by
      simp only [tilted, Square.toMatrix_ofFn, dotProduct, mulVec, of_apply, Fin.sum_univ_two]
      norm_num
      ring
    rw [star_trivial, hform]
    by_contra hnot
    have hfirst : v 0 ^ 2 = 0 := by
      nlinarith [sq_nonneg (v 0), sq_nonneg (v 1), sq_nonneg (v 0 + v 1)]
    have hsecond : v 1 ^ 2 = 0 := by nlinarith [sq_nonneg (v 1), sq_nonneg (v 0 + v 1)]
    refine hv (funext (Fin.forall_fin_two.mpr ⟨?_, ?_⟩))
    · exact (pow_eq_zero_iff two_ne_zero).mp hfirst
    · exact (pow_eq_zero_iff two_ne_zero).mp hsecond

/-- The banana function, and a bowl. -/
theorem banana_and_bowl_faithful :
    (∃ p ∈ Catalogue.derived, p.key = "f7" ∧ p.Faithful) ∧ tilted.toMatrix.PosDef ∧
      ∃ p, Quadratic.problem? (Tensor.ofRows 2 (tilted.toArray.map Vector.toArray))
        (some (Tensor.ofVector #v[1, 0])) none "bowl" = .ok p ∧ p.Faithful := by
  obtain ⟨-, hcatalogue, hquadratics⟩ := Problem.known_derivatives_and_minima
  obtain ⟨p, hp, -, -, hfaithful⟩ :=
    (hquadratics 2 tilted (some #v[1, 0]) none "bowl" tilted_posDef).2 two_ne_zero
  have hkeys : Catalogue.derived.map Problem.key =
    ["f2", "f3", "f4", "f5", "f7", "f8", "quadratic_1d", "concave_1d"] := rfl
  have hlisted : "f7" ∈ Catalogue.derived.map Problem.key := by
    rw [hkeys]
    decide
  obtain ⟨q, hq, hkey⟩ := List.mem_map.mp hlisted
  exact ⟨⟨q, hq, hkey, hcatalogue q hq⟩, tilted_posDef, p, hp, hfaithful⟩

end Minima
