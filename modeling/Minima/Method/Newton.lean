import Minima.Linear.Cholesky
import Minima.Method.LineStep

/-!
# Newton's method

The direction solves `(H + λ I) p = -g`, where `λ` is zero if the Hessian is positive definite, and
otherwise the first of `λ₀`, `10 λ₀`, `100 λ₀`, … that makes it so. If there is none up to a limit,
or if the direction does not point downhill, the step goes along the negative gradient.
-/

namespace Minima.Newton

variable {R : Type} [Scalar R] {n : Nat}

open Linear

def defaults : Options R := [("reg_lambda", .real 1e-6), ("max_reg_scale", .real 1e10)]

def validate (owner : String) (options : Options R) : Attempt R Unit := do
  LineStep.validate owner options
  options.require owner "reg_lambda" .positive
  options.require owner "max_reg_scale" .atLeastOne

/-- An iterate, and how its direction was found if a step led to it. -/
structure State (R : Type) (n : Nat) where
  iterate : Iterate R n
  /-- The damping `λ`, and whether the negative gradient was taken instead. -/
  found? : Option (R × Bool)

def State.view (st : State R n) : Snapshot R :=
  st.iterate.snapshot <|
    match st.found? with
    | none => .descent st.iterate.descent
    | some (damping, steepest) => .newton st.iterate.descent damping steepest

/-- The solution of `L Lᵀ p = b`. -/
def solveFactored (l : Square R n) (b : Vector R n) : Attempt R (Vector R n) :=
  match solve? l b with
  | none => throw .singularMatrix
  | some y =>
    match solve? l.transpose y with
    | none => throw .singularMatrix
    | some p => pure p

/-- Raise the damping from `damping` on until the damped matrix is positive definite. There is no
direction if that takes a damping beyond `limit`. The last damping that was looked at is returned
too. -/
def ladder (h : Square R n) (g : Vector R n) (first limit : R) :
    (fuel : Nat) → (damping : R) → Attempt R (Option (Vector R n) × R)
  | fuel, damping =>
    if ¬ damping ≤ limit then pure (none, damping)
    else
      match cholesky? n (h.add (Square.scale damping (Square.identity n))) with
      | some l => do return (some (← solveFactored l (-g)), damping)
      | none =>
        match fuel with
        | 0 => throw .cutOff
        | fuel + 1 => ladder h g first limit fuel (if damping == 0.0 then first else damping * 10.0)

/-- The Newton direction and its damping. -/
def direction (options : Options R) (g : Vector R n) (h : Square R n) :
    Attempt R (Option (Vector R n) × R) := do
  let symmetric := Square.scale (0.5 : R) (h.add h.transpose)
  let first ← options.real "reg_lambda"
  let scale ← options.real "max_reg_scale"
  ladder symmetric g first (first * scale) (Scalar.decades scale + 2) 0.0

def pointsDownhill (g p : Vector R n) : Bool :=
  Linear.isFinite p && !decide ((0.0 : R) ≤ dot g p)

/-- One step; the state stays if the step is rejected. -/
def step (s : Situation R n) (st : State R n) : Consult R n (State R n × Status) := do
  let g := st.iterate.gradient
  let h ← Consult.hessian st.iterate.point
  let (p?, damping) ← direction s.options g h
  let good? := p?.filter (pointsDownhill g)
  match ← LineStep.descend s st.iterate (good?.getD (-g)) with
  | (none, status) => return (st, status)
  | (some next, status) =>
    return ({ iterate := next, found? := some (damping, good?.isNone) }, status)

def method : Method R where
  className := "NewtonMethod"
  defaultName := "Newton method"
  State := State R
  view st := st.view
  defaults := (Method.commonDefaults.update LineStep.defaults).update defaults
  hasCriterion := false
  usesGradient := true
  usesHessian := true
  usesLineSearch := true
  validate
  start _ x := do return .state { iterate := ← Iterate.start x, found? := none }
  step s _ st := do
    let (next, status) ← step s st
    return (.state next, status)

end Minima.Newton
