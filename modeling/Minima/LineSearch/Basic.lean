import Minima.Dialogue
import Minima.Setting.Conversion

/-!
# One-dimensional search

A search looks for a step at which a function of one variable is small. It is a dialogue that asks
for the value at one step after the other; `Outcome` says what it found and how it went.
-/

namespace Minima

/-- A computation that asks for values of a function of one variable. -/
abbrev Probe (R : Type) := Dialogue R (fun _ => R) (Failure R)

namespace Probe

variable {R : Type}

def valueAt (alpha : R) : Probe R R := Dialogue.question (A := fun _ => R) alpha

end Probe

namespace LineSearch

inductive Kind where
  | armijo
  | dichotomy
  | intervalHalving
  | goldenSection
  | stepAdaptation
  | cubic
deriving DecidableEq, Repr

def Kind.key : Kind → String
  | .armijo => "armijo_backtracking"
  | .dichotomy => "dichotomy"
  | .intervalHalving => "interval_halving"
  | .goldenSection => "golden_section"
  | .stepAdaptation => "step_adaptation"
  | .cubic => "cubic_4point"

/-- All search methods, in the order in which they are listed. -/
def Kind.all : List Kind :=
  [.armijo, .dichotomy, .intervalHalving, .goldenSection, .stepAdaptation, .cubic]

/-- The name that stands for backtracking when nothing else is asked for. -/
def defaultKey : String := "default"

def Kind.ofKey? (key : String) : Option Kind := Kind.all.find? (·.key == key)

inductive StopReason where
  | tolerance
  | iterationLimit
  | sufficientDecrease
  | leastStep
  | backtrackingLimit
deriving DecidableEq, Repr

def StopReason.key : StopReason → String
  | .tolerance => "tol"
  | .iterationLimit => "max_iter"
  | .sufficientDecrease => "armijo"
  | .leastStep => "min_alpha"
  | .backtrackingLimit => "max_backtracking"

/-- What is particular to one search method. -/
inductive Extra (R : Type) where
  | nothing
  /-- Dichotomy: the distance of its two points from the middle. -/
  | offset (delta : R)
  /-- Backtracking: whether the last step was accepted, and the value and slope at zero. -/
  | backtracking (accepted : Bool) (f0 slope : R)
  /-- Step adaptation: the bracket that was refined, the whole interval if none was found. -/
  | bracket (fallback : Bool) (left right : R)
  /-- Cubic interpolation that was given up for the golden section. -/
  | fallback

structure Outcome (R : Type) where
  alpha : R
  value : R
  iterations : Nat
  /-- How often a value was asked for. -/
  evaluations : Nat
  method : Kind
  left : R
  right : R
  stop : StopReason
  extra : Extra R

structure Span (R : Type) where
  left : R
  right : R

namespace Span

variable {R : Type} [Scalar R]

def width (s : Span R) : R := s.right - s.left

def middle (s : Span R) : R := 0.5 * (s.left + s.right)

/-- The nearest point of the interval, by two comparisons. -/
def confine (s : Span R) (a : R) : R := Scalar.lesser (Scalar.greater a s.left) s.right

/-- The interval between two points, in either order. -/
def between (a b : R) : Span R := if b < a then ⟨b, a⟩ else ⟨a, b⟩

end Span

variable {R : Type} [Scalar R]

/-- Report the middle of the last interval and the value there. -/
def finish (method : Kind) (tol : R) (extra : Extra R) (s : Span R) (iterations : Nat) :
    Probe R (Outcome R) := do
  let value ← Probe.valueAt s.middle
  return {
    alpha := s.middle
    value
    iterations
    evaluations := 0
    method
    left := s.left
    right := s.right
    stop := if s.width ≤ tol then .tolerance else .iterationLimit
    extra }

/-- Put the number of questions into the outcome. -/
def withEvaluations (d : Probe R (Outcome R)) : Probe R (Outcome R) := do
  let (outcome, count) ← d.counted
  return { outcome with evaluations := count }

end LineSearch

end Minima
