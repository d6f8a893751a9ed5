import Minima.Criterion
import Minima.Status

/-!
# Results

What a finished run leaves: where it ended and why, what it cost, and the snapshot after each step.
-/

namespace Minima

inductive StopCause (R : Type) where
  /-- The method came to an end by itself. -/
  | method (status : Status)
  | criterion (c : Criterion R)

structure Evaluations where
  values : Nat
  gradients : Nat
  hessians : Nat
deriving DecidableEq, Repr

structure Results (R : Type) where
  solver : String
  status : Status
  iterations : Nat
  evaluations : Evaluations
  cause : StopCause R
  /-- What the stopping criterion measured in the end. -/
  measured? : Option R
  /-- How long the run took, if that was asked for. -/
  elapsed? : Option R
  final : Snapshot R
  /-- The snapshot after each step. -/
  history : Array (Snapshot R)

namespace Results

variable {R : Type}

def point (r : Results R) : Array R := r.final.point

def value (r : Results R) : R := r.final.value

def converged (r : Results R) : Bool := r.status == .success

def values (r : Results R) : List R := r.history.toList.map Snapshot.value

/-- The points of a run, from its start if that is known; they have to be of one dimension. -/
def trail? (r : Results R) (start? : Option (Array R)) : Attempt R (List (Array R)) :=
  let trail := start?.toList ++ r.history.toList.map Snapshot.point
  if trail.all fun x => x.size == (trail.headD #[]).size then pure trail
  else throw .shapeMismatch

/-- The points after each step, by rows; they have to be of one dimension. -/
def points? (r : Results R) : Attempt R (Tensor R) :=
  if r.history.isEmpty then pure ⟨[0, r.point.size], #[]⟩
  else Tensor.stack? (r.history.toList.map fun s => Tensor.ofArray s.point)

end Results

end Minima
