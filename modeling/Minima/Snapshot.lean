import Minima.Linear.Vector
import Minima.Tensor

/-!
# Snapshots

What can be seen of a method after a step: the value, the representative point, all points that the
method holds, and what is particular to the kind of method. The first column of the points is the
representative point itself, so only the others are stored.
-/

namespace Minima

/-- What every gradient method shows: the gradient, the step length along the last direction and
the distance moved. -/
structure Descent (R : Type) where
  gradient : Option (Tensor R)
  alpha : R
  step : R

inductive Detail (R : Type) where
  | plain
  | descent (d : Descent R)
  /-- With the damping of the Hessian, and whether the steepest direction was taken instead. -/
  | newton (d : Descent R) (damping : R) (steepest : Bool)
  /-- With the approximate inverse Hessian, and whether the last step updated it. -/
  | quasiNewton (d : Descent R) (inverse : Option (Tensor R)) (updated : Bool)
  /-- With the direction of the next step, the factor of the last one in it, and whether it was
  restarted from the gradient. -/
  | conjugate (d : Descent R) (direction : Option (Tensor R)) (beta : R) (restarted : Bool)
  /-- The values at the vertices, the kind of the last step and the diameter. -/
  | simplex (values : Option (Tensor R)) (stepType : String) (diameter : R)
  /-- The step of the exploration and the kind of the last step. -/
  | pattern (stepSize : R) (stepType : String)

namespace Detail

variable {R : Type}

def label : Detail R → String
  | .plain => "State"
  | .descent _ => "DescentState"
  | .newton .. => "NewtonState"
  | .quasiNewton .. => "BFGSState"
  | .conjugate .. => "ConjugateGradientState"
  | .simplex .. => "SimplexState"
  | .pattern .. => "PatternState"

def descent? : Detail R → Option (Descent R)
  | .descent d | .newton d _ _ | .quasiNewton d _ _ | .conjugate d _ _ _ => some d
  | _ => none

/-- How far a method reaches in a step: along its direction, in its exploration, or across its
simplex. -/
def reach? : Detail R → Option R
  | .plain => none
  | .descent d | .newton d _ _ | .quasiNewton d _ _ | .conjugate d _ _ _ => some d.alpha
  | .simplex _ _ diameter => some diameter
  | .pattern stepSize _ => some stepSize

end Detail

structure Snapshot (R : Type) where
  value : R
  point : Array R
  /-- The columns of the points after the first. -/
  others : Array (Array R) := #[]
  detail : Detail R := .plain

namespace Snapshot

variable {R : Type}

def dimension (s : Snapshot R) : Nat := s.point.size

def pointCount (s : Snapshot R) : Nat := s.others.size + 1

/-- All points, the representative one first. -/
def points (s : Snapshot R) : List (Array R) := s.point :: s.others.toList

variable [Scalar R]

def isFinite (s : Snapshot R) : Bool :=
  Scalar.isFinite s.value && s.points.all fun p => p.all Scalar.isFinite

def pointNorm (s : Snapshot R) : R := Linear.norm s.point.toVector

/-- The length of the gradient of a gradient method, undefined while it has none. -/
def gradientNorm? (s : Snapshot R) : Option R :=
  s.detail.descent?.map fun d =>
    match d.gradient with
    | some g => Linear.norm g.entries.toVector
    | none => Scalar.undefined

/-- Equal as the scalars compare, an undefined one being equal to itself. -/
def sameScalar (a b : R) : Bool := a == b || (Scalar.isNaN a && Scalar.isNaN b)

/-- The snapshot with the given value, point and points. The point is flattened; points in one
dimension are a single column. The points have to be columns of the length of the point, and the
first of them has to be the point. -/
def make? (value : R) (point : Tensor R) (points : Option (Tensor R)) (detail : Detail R) :
    Attempt R (Snapshot R) := do
  let x := point.entries
  match points with
  | none => return { value, point := x, detail }
  | some t =>
    let shape := match t.shape with
      | [k] => [k, 1]
      | s => s
    match shape with
    | [rows, columns] =>
      if rows ≠ x.size ∨ columns = 0 then throw (.columnsShape detail.label x.size shape)
      let column (j : Nat) : Array R :=
        (List.range rows).filterMap (fun i => t.entries[i * columns + j]?) |>.toArray
      let first := column 0
      if !(first.size == x.size && (first.zip x).all fun p => sameScalar p.1 p.2) then
        throw (.firstColumn detail.label)
      return { value, point := x, detail
               others := ((List.range (columns - 1)).map fun j => column (j + 1)).toArray }
    | _ => throw (.columnsShape detail.label x.size shape)

def rows (s : Snapshot R) : List (List R) :=
  (List.range s.dimension).map fun i => s.points.filterMap (·[i]?)

end Snapshot

end Minima
