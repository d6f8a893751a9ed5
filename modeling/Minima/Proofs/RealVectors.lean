import Minima.Scalar.Real
import Minima.Linear.Square
import Mathlib.Algebra.BigOperators.Fin
import Mathlib.Data.Matrix.Mul
import Mathlib.Tactic.NormNum

/-!
# Vectors and matrices over the reals

A vector is the function of its components, and a matrix that of its entries. Over the reals the sums
and products of vectors and matrices are then those of linear algebra.
-/

namespace Minima.Linear

open Matrix

variable {α β γ : Type} {n : Nat}

/-! ## Components -/

theorem get_eq_getElem (x : Vector α n) (i : Fin n) : x.get i = x[i.val] := rfl

theorem ext_get {x y : Vector α n} (h : x.get = y.get) : x = y := by
  ext i hi
  exact congrFun h ⟨i, hi⟩

@[simp] theorem get_ofFn (f : Fin n → α) (i : Fin n) : (Vector.ofFn f).get i = f i := by
  simp [get_eq_getElem]

@[simp] theorem get_map (f : α → β) (x : Vector α n) (i : Fin n) :
    (x.map f).get i = f (x.get i) := by
  simp [get_eq_getElem]

@[simp] theorem get_zipWith (f : α → β → γ) (x : Vector α n) (y : Vector β n) (i : Fin n) :
    (x.zipWith f y).get i = f (x.get i) (y.get i) := by
  simp [get_eq_getElem]

theorem get_cons (a : α) (x : Vector α n) : (cons a x).get = Fin.cons a x.get := by
  funext i
  cases i using Fin.cases <;> simp [cons, get_eq_getElem]

@[simp] theorem get_zero : (0 : Vector ℝ n).get = 0 := by
  funext i
  simp [get_eq_getElem]

@[simp] theorem get_add (x y : Vector ℝ n) : (x + y).get = x.get + y.get := by
  funext i
  simp [get_eq_getElem]

@[simp] theorem get_smul (c : ℝ) (x : Vector ℝ n) : (c * x).get = c • x.get := by
  funext i
  simp [get_eq_getElem]

@[simp] theorem get_sub (x y : Vector ℝ n) : (x - y).get = x.get - y.get := by
  funext i
  simp [get_eq_getElem]

@[simp] theorem get_neg (x : Vector ℝ n) : (-x).get = -x.get := by
  funext i
  simp [get_eq_getElem]

theorem toList_eq_ofFn (x : Vector α n) : x.toList = List.ofFn x.get := by
  refine List.ext_getElem (by simp) fun i hi hi' => ?_
  simp [get_eq_getElem]

theorem get_eq_zero_iff {x : Vector ℝ n} : x.get = 0 ↔ x = 0 :=
  ⟨fun h => ext_get (h.trans get_zero.symm), fun h => by rw [h, get_zero]⟩

theorem neg_zero_vector : -(0 : Vector ℝ n) = 0 := by
  refine ext_get ?_
  rw [get_neg, get_zero, neg_zero]

/-! ## Sums and products -/

theorem sum_real (x : Vector ℝ n) : sum x = ∑ i, x.get i := by
  rw [sum, ← Vector.foldl_toList, toList_eq_ofFn, ← List.sum_ofFn, List.sum_eq_foldl,
    RealScalar.zero_literal]

theorem dot_real (x y : Vector ℝ n) : dot x y = x.get ⬝ᵥ y.get := by
  rw [dot, sum_real]
  simp [dotProduct]

theorem norm_zero : norm (0 : Vector ℝ n) = 0 := by
  rw [norm, dot_real, get_zero, dotProduct_zero]
  exact Real.sqrt_zero

theorem dot_cons (x : Vector ℝ (n + 1)) (t : ℝ) (y : Vector ℝ n) :
    dot x (cons t y) = x.get 0 * t + dot (Vector.ofFn fun i => x.get i.succ) y := by
  simp [dot_real, dotProduct, get_cons, Fin.sum_univ_succ]

theorem dot_zero (x : Vector ℝ n) : dot x 0 = 0 := by
  rw [dot_real, get_zero, dotProduct_zero]

theorem zero_dot (x : Vector ℝ n) : dot 0 x = 0 := by
  rw [dot_real, get_zero, zero_dotProduct]

/-! ## Matrices -/

namespace Square

def toMatrix (a : Square α n) : Matrix (Fin n) (Fin n) α := .of fun i j => (a.get i).get j

theorem toMatrix_apply (a : Square α n) (i j : Fin n) : a.toMatrix i j = (a.get i).get j := rfl

theorem ext_toMatrix {a b : Square α n} (h : a.toMatrix = b.toMatrix) : a = b :=
  ext_get (funext fun i => ext_get (congrFun h i))

@[simp] theorem toMatrix_ofFn (f : Fin n → Fin n → α) : (ofFn f).toMatrix = .of f := by
  ext i j
  simp [toMatrix_apply, ofFn]

@[simp] theorem toMatrix_transpose (a : Square ℝ n) : a.transpose.toMatrix = a.toMatrixᵀ := by
  ext i j
  simp [toMatrix_apply, transpose, ofFn]

@[simp] theorem toMatrix_add (a b : Square ℝ n) : (a.add b).toMatrix = a.toMatrix + b.toMatrix := by
  ext i j
  simp [toMatrix_apply, add]

@[simp] theorem toMatrix_scale (c : ℝ) (a : Square ℝ n) :
    (scale c a).toMatrix = c • a.toMatrix := by
  ext i j
  simp [toMatrix_apply, scale]

@[simp] theorem toMatrix_sub (a b : Square ℝ n) : (a.sub b).toMatrix = a.toMatrix - b.toMatrix := by
  ext i j
  simp [toMatrix_apply, sub]

@[simp] theorem toMatrix_negate (a : Square ℝ n) : a.negate.toMatrix = -a.toMatrix := by
  ext i j
  simp [toMatrix_apply, negate]

@[simp] theorem toMatrix_identity : (identity n : Square ℝ n).toMatrix = 1 := by
  ext i j
  simp [identity, one_apply, RealScalar.one_literal, RealScalar.zero_literal]

@[simp] theorem toMatrix_mul (a b : Square ℝ n) : (a.mul b).toMatrix = a.toMatrix * b.toMatrix := by
  ext i j
  simp [toMatrix_apply, mul, transpose, ofFn, dot_real, dotProduct, mul_apply]

@[simp] theorem toMatrix_outer (x y : Vector ℝ n) : (outer x y).toMatrix = vecMulVec x.get y.get := by
  ext i j
  simp [toMatrix_apply, outer, vecMulVec_apply]

theorem get_mulVec (a : Square ℝ n) (x : Vector ℝ n) :
    (a.mulVec x).get = a.toMatrix *ᵥ x.get := by
  funext i
  rw [mulVec, get_map, dot_real]
  rfl

theorem mulVec_zero (a : Square ℝ n) : a.mulVec 0 = 0 := by
  refine ext_get ?_
  rw [get_mulVec, get_zero, Matrix.mulVec_zero]

end Square

end Minima.Linear
