import Minima.Method

/-!
# Pattern search

Each step tries to go by `h` along every axis in both directions, and keeps what improves. If
anything did, it goes the same way once more; if nothing did, `h` is reduced. The method succeeds
when `h` has become small.
-/

namespace Minima.HookeJeeves

variable {R : Type} [Scalar R] {n : Nat}

def defaults : Options R := [
  ("initial_step", .real 1.0),
  ("reduction_factor", .real 0.5),
  ("min_step", .real 1e-6),
  ("max_iter", .whole 100000)]

def validate (owner : String) (options : Options R) : Attempt R Unit := do
  options.require owner "initial_step" .positive
  options.require owner "reduction_factor" .betweenZeroAndOne
  options.require owner "min_step" .positive
  options.requireCount owner "max_iter"

structure Base (R : Type) (n : Nat) where
  point : Vector R n
  value : R

/-- The base point, the step of the exploration and how the last step was made. -/
structure State (R : Type) (n : Nat) where
  base : Base R n
  stepSize : R
  stepType : String

def State.view (st : State R n) : Snapshot R where
  value := st.base.value
  point := st.base.point.toArray
  detail := .pattern st.stepSize st.stepType

/-- The base at a point, which is brought into the region first. -/
def baseAt (s : Situation R n) (x : Vector R n) : Consult R n (Base R n) := do
  let point := s.region.project x
  return { point, value := ← Consult.value point }

/-- Try the two directions along one axis, and go in the first that improves. -/
def exploreAxis (s : Situation R n) (h : R) (b : Base R n) (i : Fin n) :
    Consult R n (Base R n) := do
  let ahead ← baseAt s (b.point.set i.val (b.point.get i + h) i.isLt)
  if ahead.value < b.value then return ahead
  let behind ← baseAt s (b.point.set i.val (b.point.get i - h) i.isLt)
  return if behind.value < b.value then behind else b

def explore (s : Situation R n) (h : R) (b : Base R n) : Consult R n (Base R n) :=
  (List.finRange n).foldlM (exploreAxis s h) b

def move (s : Situation R n) (st : State R n) : Consult R n (State R n) := do
  let explored ← explore s st.stepSize st.base
  if explored.value < st.base.value then
    let further ← baseAt s (explored.point + (explored.point - st.base.point))
    if further.value < explored.value then
      return { st with base := further, stepType := "pattern" }
    return { st with base := explored, stepType := "exploratory" }
  let reduction ← s.options.real "reduction_factor"
  return { st with stepSize := st.stepSize * reduction, stepType := "reduce_step" }

def step (s : Situation R n) (count : Nat) (st : State R n) :
    Consult R n (State R n × Status) := do
  let next ← move s st
  if next.stepSize < (← s.options.real "min_step") then return (next, .success)
  if (← s.options.whole "max_iter") ≤ (count + 1 : Nat) then return (next, .noProgress)
  return (next, .running)

/-- Pattern search. -/
def method : Method R where
  className := "HookeJeevesMethod"
  defaultName := "Hooke–Jeeves (pattern search)"
  State := State R
  view st := st.view
  defaults := Method.commonDefaults.update defaults
  hasCriterion := true
  validate
  start s x := do
    let base : Base R _ := { point := x, value := ← Consult.value x }
    return .state { base, stepSize := ← s.options.real "initial_step", stepType := "initial" }
  step s count st := do
    let (next, status) ← step s count st
    return (.state next, status)

end Minima.HookeJeeves
