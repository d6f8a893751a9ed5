import Minima.Event
import Minima.Method
import Minima.Objective.Subject
import Minima.Setting.Resolution

/-!
# Solvers

A solver runs one method on one objective at a time. It checks the configuration before the run,
makes steps one at a time, classifies what comes out of them and refuses steps when there is nothing
to step from or the run has ended. What it knows outlives a failure.
-/

namespace Minima

variable {R : Type} [Scalar R]

/-- What a run works on: an objective in use, the options with all defaults, and the region. -/
structure Task (R : Type) [Scalar R] extends Subject R where
  options : Options R
  region : Region R n

def Task.situation (t : Task R) : Situation R t.n :=
  { label := t.objective.name, options := t.options, region := t.region }

structure Configuration (R : Type) [Scalar R] where
  /-- The point to start at, of any shape. -/
  start : Tensor R
  options : Options R := []
  constraints : Constraints R := .free

structure Solver (m : Method R) where
  name : String
  /-- What the last accepted run works on. -/
  task? : Option (Task R) := none
  /-- The last state that was reached, in its dimension. -/
  state? : Option (Σ n, m.State n) := none
  status : Status := .running
  iterations : Nat := 0
  events : Array (Event R) := #[]

/-- A computation of a solver. What it has done to the solver outlives a failure. -/
abbrev Engine (m : Method R) := ExceptT (Failure R) (StateM (Solver m))

namespace Solver

variable {m : Method R}

def new (m : Method R) (name : Option String) : Solver m := { name := m.nameFor name }

/-! ## Setting up -/

/-- A checked configuration for runs of dimension `n`. -/
structure Accepted (R : Type) [Scalar R] (n : Nat) where
  options : Options R
  region : Region R n
  start : Vector R n

/-- The start as a finite point of dimension `n`. -/
def acceptStart (owner : String) (n : Nat) (start : Tensor R) : Attempt R (Vector R n) := do
  if start.shape.length ≠ 1 then throw (.configuration (.startNotVector owner start.shape))
  match start.toVector? n with
  | none => throw (.configuration (.startSize owner start.entries.size n))
  | some x =>
    if !Linear.isFinite x then throw (.configuration (.startNotFinite owner))
    return x

def acceptRegion (owner : String) (n : Nat) (constraints : Constraints R) :
    Attempt R (Region R n) :=
  match constraints.region? n with
  | some region => pure region
  | none => throw (.configuration (.regionSize owner (constraints.size?.getD 0) n))

def acceptOptions (s : Solver m) (given : Options R) : Attempt R (Options R) := do
  let options ← given.resolve m.defaults s.name m.refusesUnknown
  for key in ["max_x_norm", "max_abs_f"] do
    options.require s.name key .positive
  m.validate s.name options
  return options

/-- Check a configuration. Nothing is evaluated. -/
def accept (s : Solver m) (n : Nat) (c : Configuration R) : Attempt R (Accepted R n) := do
  let start ← acceptStart s.name n c.start
  let region ← acceptRegion s.name n c.constraints
  let options ← s.acceptOptions c.options
  return { options, region, start }

def Accepted.situation {n : Nat} (a : Accepted R n) (label : String) : Situation R n :=
  { label, options := a.options, region := a.region }

/-- Take over an objective with a checked configuration and the ledger that it has come to. The last
state stays until there is another one. -/
def adopt (s : Solver m) (f : Subject R) (a : Accepted R f.n) (ledger : Ledger R f.n) : Solver m :=
  { s with
    task? := some { f with ledger, options := a.options, region := a.region }
    status := .running
    iterations := 0 }

end Solver

end Minima
