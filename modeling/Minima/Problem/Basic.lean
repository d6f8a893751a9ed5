import Minima.Formula
import Minima.Objective.Subject

/-!
# Problems

An objective with a start and, where they are known, its minimum and least value.
-/

namespace Minima

structure Problem (R : Type) where
  key : String
  /-- The formula as it is shown. -/
  title : String
  n : Nat
  objective : Objective R n
  /-- The start may have any shape; it is checked when a run is set up. -/
  start : Tensor R
  minimum? : Option (Tensor R)
  leastValue? : Option R

namespace Problem

variable {R : Type} [Scalar R]

def subject? (p : Problem R) : Attempt R (Subject R) := Subject.ofObjective? p.objective

/-- A problem given by formulas for the function and, if they are known, its derivatives. The
objective is named after the problem. -/
def ofFormulas (key : String) (n : Nat) (f : Formula R) (gradient? : Option (List (Formula R)))
    (hessian? : Option (List (List (Formula R)))) (start : Tensor R)
    (minimum? : Option (Tensor R)) (leastValue? : Option R) : Problem R where
  key
  title := key
  n
  objective := {
    name := key
    value := fun x => f.eval x.toArray
    gradient? := gradient?.map fun g x => do
      return (← g.mapM fun t => t.eval x.toArray).toArray
    hessian? := hessian?.map fun h x => do
      let rows ← h.mapM fun row => row.mapM fun t => t.eval x.toArray
      let width := (rows.head?.map List.length).getD 0
      if rows.all (·.length == width) then return rows.flatten.toArray else throw .shapeMismatch }
  start
  minimum?
  leastValue?

end Problem

end Minima
