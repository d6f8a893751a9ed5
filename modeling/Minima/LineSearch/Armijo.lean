import Minima.LineSearch.Basic

/-!
# Backtracking

The step is shrunk until the value lies below a line of a fraction of the slope at zero.
-/

namespace Minima.LineSearch

variable {R : Type} [Scalar R]

structure Backtracking (R : Type) where
  f0 : R
  slope : R
  alpha0 : R
  tau : R
  c1 : R
  minAlpha : R
  /-- How many steps are tried at most; at least one. -/
  limit : Nat

namespace Backtracking

/-- Is the value at `alpha` small enough? -/
def accepts (b : Backtracking R) (alpha value : R) : Bool :=
  decide (value ≤ b.f0 + b.c1 * alpha * b.slope)

/-- Read the options; the value and the slope at zero have to be given. -/
def ofOptions (maxIter : Int) (options : Options R) : Attempt R (Backtracking R) := do
  let needed (key : String) : Attempt R R :=
    match options.get? key with
    | some s => s.toReal
    | none => throw (.configuration (.armijoMissing key))
  let f0 ← needed "f0"
  let slope ← needed "directional_derivative"
  let alpha0 ← options.realD "alpha0" 1.0
  let tau ← options.realD "tau" 0.5
  let c1 ← options.realD "c1" 1e-4
  let minAlpha ← options.realD "min_alpha" 1e-12
  let given ← options.wholeD "max_backtracking" maxIter
  if ¬ ((0.0 : R) < tau ∧ tau < 1.0) then throw (.configuration (.armijoShrink tau))
  let limit := max 1 (if maxIter > 0 then min maxIter given else given)
  return { f0, slope, alpha0, tau, c1, minAlpha, limit := limit.toNat }

/-- Try `alpha`, and shrink it as long as it is refused, is not too small and `fuel` is left. The
result is the last step with its value, the number of steps tried and the reason to stop. -/
def loop (b : Backtracking R) : (fuel : Nat) → (count : Nat) → (alpha : R) →
    Probe R (R × R × Nat × StopReason)
  | fuel, count, alpha => do
    let value ← Probe.valueAt alpha
    if b.accepts alpha value then return (alpha, value, count + 1, .sufficientDecrease)
    if alpha * b.tau < b.minAlpha then return (alpha, value, count + 1, .leastStep)
    match fuel with
    | 0 => return (alpha * b.tau, value, count + 1, .backtrackingLimit)
    | fuel + 1 => loop b fuel (count + 1) (alpha * b.tau)

end Backtracking

/-- Armijo backtracking. The interval has no influence and is only reported. -/
def armijo (s : Span R) (maxIter : Int) (options : Options R) : Probe R (Outcome R) := do
  let b ← Backtracking.ofOptions maxIter options
  let (alpha, value, iterations, stop) ← b.loop (b.limit - 1) 0 b.alpha0
  return {
    alpha
    value
    iterations
    evaluations := 0
    method := .armijo
    left := s.left
    right := s.right
    stop
    extra := .backtracking (stop == .sufficientDecrease) b.f0 b.slope }

end Minima.LineSearch
