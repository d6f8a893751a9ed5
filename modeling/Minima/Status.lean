/-!
# The status of a run

After each step a run either goes on or has ended in one of three ways.
-/

namespace Minima

inductive Status where
  /-- There is progress. -/
  | running
  | success
  /-- The run stagnates. -/
  | noProgress
  /-- The run diverges, or a number is not finite. -/
  | outOfControl
deriving DecidableEq, Repr

namespace Status

/-- All but a running one have ended. -/
def isTerminal : Status → Bool
  | .running => false
  | _ => true

def code : Status → String
  | .running => "continue"
  | .success => "success"
  | .noProgress => "no_progress"
  | .outOfControl => "out_of_control"

def name : Status → String
  | .running => "CONTINUE"
  | .success => "SUCCESS"
  | .noProgress => "NO_PROGRESS"
  | .outOfControl => "OUT_OF_CONTROL"

def all : List Status := [.running, .success, .noProgress, .outOfControl]

end Status

end Minima
