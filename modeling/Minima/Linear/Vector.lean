import Minima.Scalar

/-!
# Vectors

Points, gradients and directions are vectors of scalars. Sums run from the first component to the
last. Addition, subtraction, negation and scaling are those of `Vector`.
-/

namespace Minima.Linear

variable {R : Type} [Scalar R] {n : Nat}

def sum (x : Vector R n) : R := x.foldl (· + ·) 0.0

def dot (x y : Vector R n) : R := sum (x.zipWith (· * ·) y)

/-- The Euclidean length. -/
def norm (x : Vector R n) : R := Scalar.sqrt (dot x x)

def isFinite (x : Vector R n) : Bool := x.all Scalar.isFinite

/-- Equal component by component, as the scalars compare. -/
def same (x y : Vector R n) : Bool := x.isEqv y (· == ·)

def cons {α : Type} (a : α) (x : Vector α n) : Vector α (n + 1) :=
  (#v[a] ++ x).cast (Nat.add_comm 1 n)

/-- The `i`-th unit vector times `h`. -/
def axis (i : Nat) (h : R) : Vector R n := Vector.ofFn fun j => if j.val = i then h else 0.0

/-- The index of the least value: the first one that no later value undercuts, or the first
undefined one. -/
def argmin (values : List R) : Nat :=
  match values with
  | [] => 0
  | v :: rest => go v 0 1 rest
where
  go (best : R) (at_ i : Nat) : List R → Nat
    | [] => at_
    | v :: rest =>
      if Scalar.isNaN best then at_
      else if Scalar.isNaN v || decide (v < best) then go v i (i + 1) rest
      else go best at_ (i + 1) rest

end Minima.Linear
