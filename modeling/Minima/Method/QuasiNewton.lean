import Minima.Method.LineStep

/-!
# The quasi-Newton method

An approximation `B` of the inverse Hessian is kept and corrected after each step, so that it maps
the change of the gradient to the change of the point. The correction is skipped where the
curvature along the step is not positive enough; then `B` stays as it is.
-/

namespace Minima.QuasiNewton

variable {R : Type} [Scalar R] {n : Nat}

open Linear

def defaults : Options R := [("curvature_eps", .real 1e-10)]

def validate (owner : String) (options : Options R) : Attempt R Unit := do
  LineStep.validate owner options
  options.require owner "curvature_eps" .notNegative

/-- An iterate with the approximate inverse of the Hessian. -/
structure State (R : Type) (n : Nat) where
  iterate : Iterate R n
  inverse : Square R n
  /-- Did the last step correct the approximation? -/
  updated : Bool

def State.view (st : State R n) : Snapshot R :=
  st.iterate.snapshot
    (.quasiNewton st.iterate.descent
      (some (Tensor.ofRows n (st.inverse.toArray.map Vector.toArray))) st.updated)

/-- The direction of a step together with the approximation that it comes from, which is given up
for the identity if it does not lead downhill. -/
def direction (st : State R n) : Vector R n × Square R n :=
  let g := st.iterate.gradient
  let p := st.inverse.negate.mulVec g
  if (0.0 : R) ≤ dot g p then (-g, Square.identity n) else (p, st.inverse)

/-- `(I - ρ s yᵀ) B (I - ρ y sᵀ) + ρ s sᵀ` with `ρ = 1 / s·y`. -/
def corrected (b : Square R n) (s y : Vector R n) : Attempt R (Square R n) := do
  let rho ← divide 1.0 (dot s y)
  let left := (Square.identity n).sub (Square.scale rho (Square.outer s y))
  let right := (Square.identity n).sub (Square.scale rho (Square.outer y s))
  return ((left.mul b).mul right).add (Square.scale rho (Square.outer s s))

/-- The approximation before the first correction, scaled to the curvature along the first step. -/
def scaled (b : Square R n) (s y : Vector R n) : Attempt R (Square R n) := do
  return Square.scale (← divide (dot s y) (dot y y)) b

/-- The approximation after a step, with `count` steps made before. -/
def correction (count : Nat) (b : Square R n) (s y : Vector R n) : Attempt R (Square R n) := do
  let b ← if count = 0 then scaled b s y else pure b
  corrected b s y

def step (s : Situation R n) (count : Nat) (st : State R n) :
    Consult R n (State R n × Status) := do
  let (p, b) := direction st
  match ← LineStep.descend s st.iterate p with
  | (none, status) => return (st, status)
  | (some next, status) =>
    let moved := next.point - st.iterate.point
    let turned := next.gradient - st.iterate.gradient
    let eps ← s.options.real "curvature_eps"
    let updated := decide (eps * norm moved * norm turned < dot moved turned)
    let inverse ← if updated then correction count b moved turned else pure b
    return ({ iterate := next, inverse, updated }, status)

def method : Method R where
  className := "BFGSMethod"
  defaultName := "BFGS"
  State := State R
  view st := st.view
  defaults := (Method.commonDefaults.update LineStep.defaults).update defaults
  hasCriterion := false
  usesGradient := true
  usesLineSearch := true
  validate
  start _ x := do
    return .state { iterate := ← Iterate.start x, inverse := Square.identity _, updated := false }
  step s count st := do
    let (next, status) ← step s count st
    return (.state next, status)

end Minima.QuasiNewton
