import Minima.Method.LineStep

/-!
# Gradient descent with a fixed step

Each step goes from `x` to `x - h g` with the same `h`. The method succeeds where the gradient is
short enough, and gives up where the value did not fall or after `max_iter` steps.
-/

namespace Minima.GradientDescent

variable {R : Type} [Scalar R] {n : Nat}

def defaults : Options R :=
  [("step_size", .real 0.1), ("grad_tol", .real 1e-6), ("max_iter", .whole 100000)]

def validate (owner : String) (options : Options R) : Attempt R Unit := do
  options.require owner "step_size" .positive
  options.require owner "grad_tol" .positive
  options.requireCount owner "max_iter"

/-- How the run stands after the step from `old` to `new`, with `count` steps made before. -/
def judge (options : Options R) (count : Nat) (old new : Iterate R n) : Attempt R Status := do
  if Linear.norm new.gradient < (← options.real "grad_tol") then return .success
  if ¬ new.value < old.value ∧ Scalar.isFinite new.value then return .noProgress
  if (← options.whole "max_iter") ≤ (count + 1 : Nat) then return .noProgress
  return .running

def step (s : Situation R n) (count : Nat) (it : Iterate R n) :
    Consult R n (Iterate R n × Status) := do
  let h ← s.options.real "step_size"
  let x := s.region.project (it.point - h * it.gradient)
  let value ← Consult.value x
  let gradient ← Consult.gradient x
  let next : Iterate R n :=
    { value, point := x, gradient, alpha := h, step := Linear.norm (x - it.point) }
  let status ← judge s.options count it next
  return (next, status)

/-- Gradient descent with a fixed step. -/
def method : Method R where
  className := "GradientDescent"
  defaultName := "Gradient descent (fixed step)"
  State := Iterate R
  view it := it.snapshot (.descent it.descent)
  defaults := Method.commonDefaults.update defaults
  hasCriterion := true
  usesGradient := true
  validate
  start _ x := do return .state (← Iterate.start x)
  step s count it := do
    let (next, status) ← step s count it
    return (.state next, status)

end Minima.GradientDescent
