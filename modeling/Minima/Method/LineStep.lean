import Minima.LineSearch.Search
import Minima.Method

/-!
# Steps along a line

What the gradient methods share: they search along a direction for a point of smaller value. A step
whose value is not finite or not smaller is rejected, and then the method stays where it is.
-/

namespace Minima

/-- Where a gradient method stands, and how it came there. -/
structure Iterate (R : Type) (n : Nat) where
  value : R
  point : Vector R n
  gradient : Vector R n
  /-- The step length along the last direction. -/
  alpha : R
  /-- The distance from the point before. -/
  step : R

namespace Iterate

variable {R : Type} [Scalar R] {n : Nat}

def start (x : Vector R n) : Consult R n (Iterate R n) := do
  let value ← Consult.value x
  let gradient ← Consult.gradient x
  return { value, point := x, gradient, alpha := 0.0, step := 0.0 }

def descent (it : Iterate R n) : Descent R where
  gradient := some (Tensor.ofVector it.gradient)
  alpha := it.alpha
  step := it.step

def snapshot (it : Iterate R n) (detail : Detail R) : Snapshot R :=
  { value := it.value, point := it.point.toArray, detail }

end Iterate

namespace LineStep

variable {R : Type} [Scalar R] {n : Nat}

/-- The options of the search and of the test for stagnation. -/
def defaults : Options R := [
  ("line_search", .text LineSearch.Kind.armijo.key),
  ("alpha0", .real 1.0),
  ("tau", .real 0.5),
  ("c1", .real 1e-4),
  ("max_backtracking", .whole 30),
  ("min_alpha", .real 1e-12),
  ("line_search_tol", .real 1e-6),
  ("line_search_max_iter", .whole 100),
  ("line_search_max_step", .real 1.0),
  ("fallback_alpha", .real 1e-3),
  ("step_tol", .real 1e-12),
  ("f_tol", .real 1e-14)]

def isSearchName (name : String) : Bool :=
  name == LineSearch.defaultKey || (LineSearch.Kind.ofKey? name).isSome

def validate (owner : String) (options : Options R) : Attempt R Unit := do
  match ← options.get "line_search" with
  | .text name =>
    if !isSearchName name then throw (.configuration (.optionLineSearch owner (.text name)))
  | other => throw (.configuration (.optionLineSearch owner other))
  for key in ["alpha0", "line_search_max_step", "fallback_alpha", "line_search_tol"] do
    options.require owner key .positive
  options.require owner "tau" .betweenZeroAndOne

def isBacktracking (name : String) : Bool :=
  name == LineSearch.Kind.armijo.key || name == LineSearch.defaultKey

def backtrackingOptions (options : Options R) (it : Iterate R n) (p : Vector R n) :
    Attempt R (Options R) := do
  return [
    ("f0", .real it.value),
    ("directional_derivative", .real (Linear.dot it.gradient p)),
    ("alpha0", ← options.get "alpha0"),
    ("tau", ← options.get "tau"),
    ("c1", ← options.get "c1"),
    ("max_backtracking", ← options.get "max_backtracking"),
    ("min_alpha", ← options.get "min_alpha")]

/-- The point at the step `alpha` along `p`. -/
def along (region : Region R n) (x p : Vector R n) (alpha : R) : Vector R n :=
  region.project (x + alpha * p)

def searchName (options : Options R) : Attempt R String := do
  match ← options.get "line_search" with
  | .text name => pure name
  | _ => throw .notANumber

def searchAlong (s : Situation R n) (it : Iterate R n) (p : Vector R n) :
    Consult R n (LineSearch.Outcome R) := do
  let method ← searchName s.options
  let (searchOptions, limit) ←
    if isBacktracking method then do
      let given ← backtrackingOptions s.options it p
      pure (given, ← s.options.whole "max_backtracking")
    else do
      let limit ← s.options.whole "line_search_max_iter"
      pure ([("alpha0", .real 0.0)], limit)
  let right ← s.options.real "line_search_max_step"
  let tol ← s.options.real "line_search_tol"
  let request : LineSearch.Request R := { method, left := 0.0, right, tol, limit }
  (LineSearch.search request searchOptions).inline fun alpha =>
    Consult.value (along s.region it.point p alpha)

/-- Is the step from `it` to a smaller value `value` at `x` too small to go on? -/
def stagnates (options : Options R) (it : Iterate R n) (x : Vector R n) (value : R) :
    Attempt R Bool := do
  let step := Linear.norm (x - it.point)
  let stepTol ← options.real "step_tol"
  let smallStep := decide (step ≤ stepTol * Scalar.greater 1.0 (Linear.norm it.point))
  let valueTol ← options.real "f_tol"
  let smallChange := decide
    (Scalar.abs (it.value - value) ≤ valueTol * Scalar.greater 1.0 (Scalar.abs it.value))
  return smallStep && smallChange

/-- Search along `p` and go there. There is no next iterate if the step is rejected. -/
def descend (s : Situation R n) (it : Iterate R n) (p : Vector R n) :
    Consult R n (Option (Iterate R n) × Status) := do
  let outcome ← searchAlong s it p
  let alpha ←
    if Scalar.isFinite outcome.alpha && Scalar.isFinite outcome.value then pure outcome.alpha
    else s.options.real "fallback_alpha"
  let x := along s.region it.point p alpha
  let value ← Consult.value x
  if !Scalar.isFinite value then return (none, .outOfControl)
  if ¬ value < it.value then return (none, .noProgress)
  let stalled ← stagnates s.options it x value
  let gradient ← Consult.gradient x
  return (some { value, point := x, gradient, alpha, step := Linear.norm (x - it.point) },
    if stalled then .noProgress else .running)

end LineStep

end Minima
