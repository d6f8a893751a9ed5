import Minima.Criterion.Wording

/-!
# Summaries

A table of several runs on one problem, with the best of them.
-/

namespace Minima

structure Entry (R : Type) where
  method : String
  status : Status
  point : Array R
  value : R
  iterations : Nat
  evaluations : Evaluations
  stoppedBy : String
  elapsed? : Option R

def Results.entry (r : Results Float) : Entry Float where
  method := r.solver
  status := r.status
  point := r.point
  value := r.value
  iterations := r.iterations
  evaluations := r.evaluations
  stoppedBy := r.cause.text
  elapsed? := r.elapsed?

abbrev Summary (R : Type) := List (Entry R)

namespace Summary

variable {R : Type} [Scalar R]

section Best

variable {α : Type} (value : α → R) (status : α → Status)

def leastBy? : List α → Option α
  | [] => none
  | a :: rest => some (rest.foldl (fun best b => if value b < value best then b else best) a)

/-- The best of several: the one of least finite value among the successful ones, or among all if
none was successful. -/
def bestBy? (l : List α) : Option α :=
  let finite := l.filter fun a => Scalar.isFinite (value a)
  let successful := finite.filter fun a => status a == .success
  leastBy? value (if successful.isEmpty then finite else successful)

end Best

def best? (s : Summary R) : Option (Entry R) := bestBy? Entry.value Entry.status s

/-- A summary as a data frame, which needs a package that is not there. -/
def dataFrame (_ : Summary R) : Attempt R Unit := throw .packageMissing

end Summary

end Minima
