import Minima.Objective
import Minima.Region
import Minima.Setting.Range
import Minima.Snapshot
import Minima.Status

/-!
# Methods

A method of local minimisation is a pair of computations that consult the objective: one makes the
first state at a given point, the other makes the next state and says how the run stands. Everything
else, from the checks before a run to its history, is the same for all methods.
-/

namespace Minima

/-- What a method works with besides the objective. -/
structure Situation (R : Type) [Scalar R] (n : Nat) where
  /-- The name of the objective. -/
  label : String
  options : Options R
  region : Region R n

/-- What a computation of a method comes to: a state, or by mistake a value of some other type. -/
inductive Produced (S : Type) where
  | state (s : S)
  | foreign (typeName : String)

structure Method (R : Type) [Scalar R] where
  className : String
  /-- The name of a solver that is given none. -/
  defaultName : String
  /-- The name of a solver that is given an empty one. -/
  blankName : String := defaultName
  /-- What the method remembers from step to step, in `n` dimensions. -/
  State : Nat → Type
  /-- What can be seen of a state. -/
  view : {n : Nat} → State n → Snapshot R
  /-- The options that the method knows, with their defaults. -/
  defaults : Options R
  /-- Are other options refused? Otherwise they are ignored. -/
  refusesUnknown : Bool := true
  /-- Does the method decide for itself when it has succeeded? -/
  hasCriterion : Bool
  usesGradient : Bool := false
  usesHessian : Bool := false
  usesLineSearch : Bool := false
  /-- Check the options; the text names the solver. -/
  validate : String → Options R → Attempt R Unit
  /-- The state at a point. -/
  start : {n : Nat} → Situation R n → Vector R n → Consult R n (Produced (State n))
  /-- One step, given the number of steps made before. -/
  step : {n : Nat} → Situation R n → Nat → State n → Consult R n (Produced (State n) × Status)

namespace Method

variable {R : Type} [Scalar R]

/-- The options of every method: the bounds beyond which a run counts as diverging. -/
def commonDefaults : Options R :=
  [("max_x_norm", .real 1e12), ("max_abs_f", .real 1e100)]

def nameFor (m : Method R) : Option String → String
  | none => m.defaultName
  | some name => if name.isEmpty then m.blankName else name

end Method

end Minima
