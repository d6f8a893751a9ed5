import Minima.Linear.Solve

/-!
# The Cholesky factor

A symmetric matrix is positive definite exactly when it is `L · Lᵀ` for a lower triangular `L` with
positive diagonal. Only the lower triangle of the matrix is read. A pivot is refused if it is zero or
negative; an undefined one is not, and what comes after it is undefined as well.
-/

namespace Minima.Linear

variable {R : Type} [Scalar R]

/-- The lower triangular factor; `none` as soon as a pivot is zero or negative. The first column is
divided out, and the factor of what remains is found in the same way. -/
def cholesky? : (n : Nat) → Square R n → Option (Square R n)
  | 0, _ => some #v[]
  | n + 1, a =>
    let first : Fin (n + 1) := ⟨0, Nat.succ_pos n⟩
    let pivot := (a.get first).get first
    if pivot ≤ 0.0 then none
    else
      let root := Scalar.sqrt pivot
      let column : Vector R n := Vector.ofFn fun i => (a.get i.succ).get first / root
      let remainder : Square R n :=
        Square.ofFn fun i j => (a.get i.succ).get j.succ - column.get i * column.get j
      (cholesky? n remainder).map fun l =>
        let top : Vector R (n + 1) :=
          Vector.ofFn fun j => if j.val = 0 then root else 0.0
        let below : Vector (Vector R (n + 1)) n :=
          Vector.ofFn fun i => cons (column.get i) (l.get i)
        cons top below

def isPositiveDefinite {n : Nat} (a : Square R n) : Bool := (cholesky? n a).isSome

end Minima.Linear
