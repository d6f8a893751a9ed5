import Minima.Linear.Vector

/-!
# Square matrices

A matrix is the vector of its rows.
-/

namespace Minima.Linear

/-- A square matrix, by rows. -/
abbrev Square (R : Type) (n : Nat) := Vector (Vector R n) n

namespace Square

variable {R : Type} [Scalar R] {n : Nat}

def ofFn (f : Fin n → Fin n → R) : Square R n := Vector.ofFn fun i => Vector.ofFn fun j => f i j

def identity (n : Nat) : Square R n := ofFn fun i j => if i = j then 1.0 else 0.0

def transpose (a : Square R n) : Square R n := ofFn fun i j => (a.get j).get i

def scale (c : R) (a : Square R n) : Square R n := a.map (·.map (c * ·))

def negate (a : Square R n) : Square R n := a.map (·.map (- ·))

def add (a b : Square R n) : Square R n := a.zipWith (·.zipWith (· + ·) ·) b

def sub (a b : Square R n) : Square R n := a.zipWith (·.zipWith (· - ·) ·) b

def mulVec (a : Square R n) (x : Vector R n) : Vector R n := a.map (dot · x)

def vecMul (x : Vector R n) (a : Square R n) : Vector R n := a.transpose.map (dot x ·)

def mul (a b : Square R n) : Square R n :=
  let columns := b.transpose
  a.map fun row => columns.map (dot row ·)

/-- The matrix with the entries `x i * y j`. -/
def outer (x y : Vector R n) : Square R n := x.map fun c => y.map (c * ·)

end Square

end Minima.Linear
