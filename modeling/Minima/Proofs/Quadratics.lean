import Minima.Scalar.Real
import Minima.Problem.Quadratic
import Minima.Proofs.CholeskyFactor
import Mathlib.Tactic.Positivity

/-!
# Convex quadratics over the reals

The problem of every symmetric positive definite matrix is accepted, and its minimum solves the
system: the matrix is read off its tensor again, it has a Cholesky factor, and elimination solves what
it determines. The objective answers every question.
-/

namespace Minima

open Linear

/-! ## Matrices by rows -/

namespace Tensor

variable {R : Type} {n : Nat}

theorem entries_ofRows (a : Square R n) :
    (ofRows n (a.toArray.map Vector.toArray)).entries = a.flatten.toArray := rfl

end Tensor

namespace Quadratic

variable {R : Type} {n : Nat}

theorem get_flatten (a : Square R n) (i j : Fin n) :
    a.flatten.get ⟨i.val * n + j.val, Ledger.flat_lt i j⟩ = (a.get i).get j := by
  have hrow : (i.val * n + j.val) / n = i := by
    rw [Nat.mul_comm, Nat.mul_add_div j.pos, Nat.div_eq_of_lt j.isLt, Nat.add_zero]
  have hcolumn : (i.val * n + j.val) % n = j := by
    rw [Nat.mul_comm, Nat.mul_add_mod, Nat.mod_eq_of_lt j.isLt]
  rw [get_eq_getElem, Vector.getElem_flatten]
  simp [hrow, hcolumn, get_eq_getElem]

theorem extract_flatten (a : Square R n) (i : Fin n) :
    a.flatten.toArray.extract (i.val * n) (i.val * n + n) = (a.get i).toArray := by
  have hrow : i.val * n + n ≤ n * n := by
    rw [← Nat.succ_mul]
    exact Nat.mul_le_mul_right n i.isLt
  refine Array.ext (by simp; omega) fun j hj hj' => ?_
  rw [Array.getElem_extract]
  exact get_flatten a i ⟨j, by simpa using hj'⟩

/-- The rows of a matrix are read off its tensor. -/
theorem square?_ofRows (a : Square R n) :
    square? (Tensor.ofRows n (a.toArray.map Vector.toArray)) = some ⟨n, a⟩ := by
  have hrows : ((List.range n).map fun i =>
      (Tensor.ofRows n (a.toArray.map Vector.toArray)).entries.extract (i * n) (i * n + n)) =
      a.toList.map Vector.toArray := by
    refine List.ext_getElem (by simp) fun i hi hi' => ?_
    have hi : i < n := by simpa using hi
    rw [List.getElem_map, List.getElem_map, List.getElem_range, Tensor.entries_ofRows,
      extract_flatten a ⟨i, hi⟩]
    simp [get_eq_getElem]
  have hsized : (a.toList.map Vector.toArray).filterMap (fun r =>
      if h : r.size = n then some (⟨r, h⟩ : Vector R n) else none) = a.toList := by
    rw [List.filterMap_map]
    have hkept : (fun r : Array R => if h : r.size = n then some (⟨r, h⟩ : Vector R n) else none) ∘
        Vector.toArray = some := by
      funext v
      simp
    rw [hkept, List.filterMap_some]
  have hshape : (Tensor.ofRows n (a.toArray.map Vector.toArray)).shape = [n, n] := by
    simp [Tensor.ofRows]
  unfold square?
  rw [hshape]
  simp only [hrows, hsized]
  simp [Vector.toList]

end Quadratic

/-! ## Answers by formulas -/

namespace Ledger

variable {R : Type} [Scalar R] {n : Nat} {f : Objective R n}
  {formula : Vector R n → Attempt R (Array R)} {x : Vector R n}

/-- A formula for the gradient answers for it. -/
theorem plainAnswer_of_gradient? {g : Vector R n} (hf : f.gradient? = some formula)
    (hg : formula x = .ok g.toArray) : plainAnswer f (.gradient x) = .ok g := by
  have hraw : rawGradient f x = .ok g.toArray := by simp only [rawGradient, hf, hg]
  show rawGradient f x >>= sized = _
  rw [hraw]
  exact dif_pos g.size_toArray

/-- A formula for the entries of the Hessian, by rows, answers for it. -/
theorem plainAnswer_of_hessian? {m : Square R n} (hf : f.hessian? = some formula)
    (hm : formula x = .ok (m.toArray.flatMap Vector.toArray)) :
    plainAnswer f (.hessian x) = .ok m := by
  have hentries : m.toArray.flatMap Vector.toArray = m.flatten.toArray := Array.flatMap_def ..
  have hsize : (m.toArray.flatMap Vector.toArray).size = n * n := by
    rw [hentries, Vector.size_toArray]
  have hraw : rawHessian f x = .ok (Square.ofFn fun i j =>
      m.flatten.get ⟨i.val * n + j.val, flat_lt i j⟩) := by
    simp only [rawHessian, hf, hm]
    show (if h : (m.toArray.flatMap Vector.toArray).size = n * n then _ else _) = _
    rw [dif_pos hsize]
    simp only [hentries]
    rfl
  refine hraw.trans (congrArg Except.ok (Square.ext_toMatrix ?_))
  ext i j
  rw [Square.toMatrix_ofFn, Matrix.of_apply, Quadratic.get_flatten]
  rfl

end Ledger

/-! ## The objective of a matrix -/

namespace Quadratic

variable {n : Nat} {a : Square ℝ n} {b : Vector ℝ n} {name : String}

theorem plainAnswer_gradient (name : String) (a : Square ℝ n) (b x : Vector ℝ n) :
    Ledger.plainAnswer (objective name a b) (.gradient x) = .ok (gradient a b x) :=
  Ledger.plainAnswer_of_gradient? rfl rfl

theorem plainAnswer_hessian (name : String) (a : Square ℝ n) (b x : Vector ℝ n) :
    Ledger.plainAnswer (objective name a b) (.hessian x) = .ok a :=
  Ledger.plainAnswer_of_hessian? rfl rfl

/-- The gradient vanishes where the system is solved. -/
theorem gradient_minimum {x : Vector ℝ n} (hx : a.mulVec x = b) : gradient a b x = 0 := by
  refine ext_get ?_
  rw [gradient, hx, get_sub, sub_self, get_zero]

/-! ## The problem of a matrix -/

theorem close_self (u : ℝ) : close u u = true := by
  have hbound : (0 : ℝ) ≤ 1e-8 + 1e-5 * |u| := by positivity
  have hgap : Scalar.abs (u - u) ≤ (1e-8 : ℝ) + 1e-5 * Scalar.abs u := by
    simpa [Scalar.abs] using hbound
  exact decide_eq_true hgap

theorem isSymmetric_of_isSymm (h : a.toMatrix.IsSymm) : isSymmetric a = true := by
  refine List.all_eq_true.mpr fun i _ => List.all_eq_true.mpr fun j _ => ?_
  have hentry : (a.get i).get j = (a.get j).get i := (h.apply i j).symm
  rw [hentry]
  exact close_self _

/-- A matrix without rows is refused. -/
theorem problem?_empty (a : Square ℝ 0) (vector? start? : Option (Tensor ℝ)) (key : String) :
    problem? (Tensor.ofRows 0 (a.toArray.map Vector.toArray)) vector? start? key =
      .error .badNumeral := by
  have hshape : (Tensor.ofRows 0 (a.toArray.map Vector.toArray)).shape.isEmpty = false := rfl
  have hsymmetric : isSymmetric a = true := rfl
  unfold problem?
  simp only [hshape, square?_ofRows, hsymmetric, Bool.false_eq_true, Bool.not_true, if_false]
  rfl

/-- The problem of a positive definite matrix is accepted, with the solution of the system as its
minimum; without a vector, zero takes its place. -/
theorem problem?_eq_ok (hn : n ≠ 0) (ha : a.toMatrix.PosDef) (b? : Option (Vector ℝ n))
    (start? : Option (Tensor ℝ)) (key : String) :
    ∃ x, a.mulVec x = b?.getD (Vector.replicate n 0.0) ∧
      problem? (Tensor.ofRows n (a.toArray.map Vector.toArray)) (b?.map Tensor.ofVector) start?
          key = .ok
        { key, title := "f(x) = 1/2 xᵀAx - bᵀx, n=" ++ toString n, n,
          objective := objective key a (b?.getD (Vector.replicate n 0.0)),
          start := start?.getD (Tensor.ofVector (Vector.replicate n (1.0 : ℝ))),
          minimum? := some (Tensor.ofVector x),
          leastValue? := some (value a (b?.getD (Vector.replicate n 0.0)) x) } := by
  obtain ⟨x, hx, hsolves⟩ := solve?_isUnit ha.isUnit (b?.getD (Vector.replicate n 0.0))
  obtain ⟨l, hl, -⟩ := cholesky?_posDef ha
  have hdefinite : isPositiveDefinite a = true := by rw [isPositiveDefinite, hl]; rfl
  have hsymmetric : isSymmetric a = true := isSymmetric_of_isSymm ha.isHermitian
  have hvector (b : Vector ℝ n) : (Tensor.ofVector b).toVector? n = some b := by
    simp [Tensor.toVector?, Tensor.ofVector, Tensor.ofArray]
  have hshape : (Tensor.ofRows n (a.toArray.map Vector.toArray)).shape.isEmpty = false := rfl
  refine ⟨x, hsolves, ?_⟩
  unfold problem?
  cases b? <;>
  · simp only [Option.getD_none, Option.getD_some] at hx
    simp only [hshape, square?_ofRows, hsymmetric, hdefinite, hvector, hn, Bool.false_eq_true,
      Bool.not_true, if_false, pure_bind, Option.map_none, Option.map_some, Option.getD_none,
      Option.getD_some, hx]
    rfl

/-- The problem of a positive definite matrix is accepted, and its minimum solves the system. -/
theorem problem?_posDef (hn : n ≠ 0) (ha : a.toMatrix.PosDef) (b : Vector ℝ n)
    (start? : Option (Tensor ℝ)) (key : String) :
    ∃ x p, problem? (Tensor.ofRows n (a.toArray.map Vector.toArray)) (some (Tensor.ofVector b)) start?
        key = .ok p ∧ a.mulVec x = b ∧ p.minimum? = some (Tensor.ofVector x) ∧
      p.subject? = .ok { n, objective := objective key a b } := by
  obtain ⟨x, hsolves, hproblem⟩ := problem?_eq_ok hn ha (some b) start? key
  exact ⟨x, _, hproblem, hsolves, rfl, if_neg hn⟩

end Quadratic

end Minima
