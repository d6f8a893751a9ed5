import Minima.Method.LineStep

/-!
# Steepest descent

Each step searches along the negative gradient.
-/

namespace Minima.SteepestDescent

variable {R : Type} [Scalar R] {n : Nat}

/-- One step; the iterate stays if the step is rejected. -/
def step (s : Situation R n) (it : Iterate R n) : Consult R n (Iterate R n × Status) := do
  let (next?, status) ← LineStep.descend s it (-it.gradient)
  return (next?.getD it, status)

def method : Method R where
  className := "SteepestDescent"
  defaultName := "Cauchy (steepest descent)"
  State := Iterate R
  view it := it.snapshot (.descent it.descent)
  defaults := Method.commonDefaults.update LineStep.defaults
  hasCriterion := false
  usesGradient := true
  usesLineSearch := true
  validate := LineStep.validate
  start _ x := do return .state (← Iterate.start x)
  step s _ it := do
    let (next, status) ← step s it
    return (.state next, status)

end Minima.SteepestDescent
