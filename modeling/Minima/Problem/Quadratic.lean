import Minima.Linear.Cholesky
import Minima.Problem.Basic

/-!
# Convex quadratics

The problem `½ xᵀ A x - bᵀ x` for a symmetric positive definite `A`. Its minimum is the solution of
`A x = b`.
-/

namespace Minima

namespace Quadratic

variable {R : Type} [Scalar R] {n : Nat}

open Linear

def value (a : Square R n) (b x : Vector R n) : R :=
  dot (Square.vecMul ((0.5 : R) * x) a) x - dot b x

def gradient (a : Square R n) (b x : Vector R n) : Vector R n := a.mulVec x - b

def objective (name : String) (a : Square R n) (b : Vector R n) : Objective R n where
  name
  value x := pure (value a b x)
  gradient? := some fun x => pure (gradient a b x).toArray
  hessian? := some fun _ => pure (a.toArray.flatMap Vector.toArray)

/-- Do two scalars agree up to rounding? Infinite ones have to be equal. -/
def close (u v : R) : Bool :=
  if Scalar.isFinite u && Scalar.isFinite v then
    decide (Scalar.abs (u - v) ≤ 1e-8 + 1e-5 * Scalar.abs v)
  else u == v

/-- Is the matrix symmetric up to rounding? -/
def isSymmetric (a : Square R n) : Bool :=
  (List.finRange n).all fun i =>
    (List.finRange n).all fun j => close ((a.get i).get j) ((a.get j).get i)

def square? (t : Tensor R) : Option (Σ n, Square R n) :=
  match t.shape with
  | [n, m] =>
    if n = m then
      let rows := (List.range n).map fun i => t.entries.extract (i * n) (i * n + n)
      let sized := rows.filterMap fun r =>
        if h : r.size = n then some (⟨r, h⟩ : Vector R n) else none
      if h : sized.length = n then some ⟨n, ⟨sized.toArray, by simpa using h⟩⟩ else none
    else none
  | _ => none

/-- The quadratic problem of a matrix and a vector. The vector defaults to zero, the start to ones.
The matrix has to be symmetric and positive definite. -/
def problem? (matrix : Tensor R) (vector? start? : Option (Tensor R)) (key : String) :
    Attempt R (Problem R) := do
  if matrix.shape.isEmpty then throw .indexOutOfRange
  match square? matrix with
  | none => throw (.configuration .matrixNotSymmetric)
  | some ⟨n, a⟩ =>
    if !isSymmetric a then throw (.configuration .matrixNotSymmetric)
    if n = 0 then throw .badNumeral
    if !isPositiveDefinite a then throw (.configuration .matrixNotPositiveDefinite)
    let b ← match vector? with
      | none => pure (Vector.replicate n 0.0)
      | some t => match t.toVector? n with
        | some b => pure b
        | none => throw .shapeMismatch
    match solve? a b with
    | none => throw .singularMatrix
    | some minimum =>
      return {
        key
        title := "f(x) = 1/2 xᵀAx - bᵀx, n=" ++ toString n
        n
        objective := objective key a b
        start := start?.getD (Tensor.ofVector (Vector.replicate n (1.0 : R)))
        minimum? := some (Tensor.ofVector minimum)
        leastValue? := some (value a b minimum) }

/-- The sum of the squares of `n` variables, to be started at `(1, 2, …, n)`. -/
def sphere? (n : Int) : Attempt R (Problem R) := do
  if n < 0 then throw .shapeMismatch
  let k := n.toNat
  let matrix := Square.scale (2.0 : R) (Square.identity k)
  problem? (Tensor.ofRows k (matrix.toArray.map Vector.toArray)) none
    (some (Tensor.ofVector (Vector.ofFn fun i : Fin k => Scalar.ofNat (i.val + 1))))
    ("sphere" ++ toString n)

end Quadratic

end Minima
