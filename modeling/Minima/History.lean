import Minima.Results

/-!
# The history of a run as a table

One row for each step. The distance in a row is measured from the point of the row before, in the
first row from the start if that is known. The status of the run stands in the last row alone.

The table is filled while a run is going on (`begin`, then `add` for each step, then `mark`) or all
at once from its results (`ofResults`).
-/

namespace Minima

structure History.Row (R : Type) where
  k : Nat
  status? : Option Status := none
  point : Array R
  value : R
  /-- The distance from the point before. -/
  moved? : Option R
  /-- How far the method reached. -/
  reach? : Option R

structure History (R : Type) where
  rows : Array (History.Row R) := #[]
  /-- The point from which the next distance is measured. -/
  last? : Option (Array R) := none

namespace History

variable {R : Type} [Scalar R]

/-- The distance between two points of one dimension. -/
def distance? (a b : Array R) : Option R :=
  if h : b.size = a.size then
    some (Linear.norm (a.toVector - Vector.mk b h))
  else none

def begin (start? : Option (Array R)) : History R := { last? := start? }

/-- The row for a snapshot after the step with number `k`. -/
def row (last? : Option (Array R)) (s : Snapshot R) (k : Nat) : Row R where
  k
  point := s.point
  value := s.value
  moved? := last?.bind (distance? s.point)
  reach? := s.detail.reach?

def add (h : History R) (s : Snapshot R) (k : Nat) : History R where
  rows := h.rows.push (row h.last? s k)
  last? := some s.point

/-- Put a status into the last row, if there is one. -/
def mark (h : History R) (status : Status) : History R :=
  { h with rows := h.rows.modify (h.rows.size - 1) fun r => { r with status? := some status } }

/-- Add snapshots, of which the first has the number `k`. -/
def addAll (h : History R) (k : Nat) : List (Snapshot R) → History R
  | [] => h
  | s :: rest => addAll (h.add s k) (k + 1) rest

def ofResults (r : Results R) (start? : Option (Array R)) : History R :=
  ((begin start?).addAll 1 r.history.toList).mark r.status

end History

end Minima
