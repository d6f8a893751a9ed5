import Minima.Linear.Square

/-!
# Linear systems

Gaussian elimination with partial pivoting, as a recursion on the number of unknowns: choose the
equation with the largest leading coefficient, use it to remove the first unknown from the others,
solve those, and substitute back.
-/

namespace Minima.Linear

variable {R : Type} [Scalar R]

/-- One equation `coefficients · x = value`. -/
structure Equation (R : Type) (n : Nat) where
  coefficients : Vector R n
  value : R

namespace Equation

def leading {n : Nat} (e : Equation R (n + 1)) : R := e.coefficients.get ⟨0, Nat.succ_pos n⟩

def tail {n : Nat} (e : Equation R (n + 1)) : Vector R n :=
  Vector.ofFn fun i => e.coefficients.get i.succ

/-- The index of the equation with the largest leading coefficient; the first of several. -/
def pivot {n : Nat} (first : Equation R (n + 1)) (rest : List (Equation R (n + 1))) : Nat :=
  (rest.foldl
    (fun (best : R × Nat × Nat) e =>
      let size := Scalar.abs e.leading
      if best.1 < size then (size, best.2.2, best.2.2 + 1) else (best.1, best.2.1, best.2.2 + 1))
    (Scalar.abs first.leading, 0, 1)).2.1

/-- Remove the first unknown from an equation by subtracting a multiple of the pivot equation. -/
def eliminate {n : Nat} (p e : Equation R (n + 1)) : Equation R n :=
  let factor := e.leading / p.leading
  { coefficients := e.tail.zipWith (fun a b => a - factor * b) p.tail
    value := e.value - factor * p.value }

def substitute {n : Nat} (p : Equation R (n + 1)) (y : Vector R n) : R :=
  ((p.tail.zip y).toList.foldr (fun c acc => acc - c.1 * c.2) p.value) / p.leading

/-- Solve as many equations as there are unknowns; `none` when a pivot is exactly zero. -/
def solve? : (n : Nat) → List (Equation R n) → Option (Vector R n)
  | 0, _ => some #v[]
  | _ + 1, [] => none
  | n + 1, first :: rest =>
    -- exchange the pivot with the first equation
    let i := pivot first rest
    let (p, others) :=
      if i = 0 then (first, rest) else (rest[i - 1]?.getD first, rest.set (i - 1) first)
    if p.leading == 0.0 then none
    else
      (solve? n (others.map p.eliminate)).map fun y => cons (p.substitute y) y

end Equation

/-- The solution of `a · x = b`; `none` for a matrix with an exactly zero pivot. -/
def solve? {n : Nat} (a : Square R n) (b : Vector R n) : Option (Vector R n) :=
  Equation.solve? n ((a.zip b).toList.map fun r => ⟨r.1, r.2⟩)

end Minima.Linear
