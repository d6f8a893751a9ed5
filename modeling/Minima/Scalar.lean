/-!
# Scalars

Every algorithm of the library is written once, over a type of scalars with the operations below,
and in the order in which it computes. It runs on doubles; the same definitions can be read over
any other arithmetic, in particular over the reals.

Comparisons are not assumed to be total: a scalar may be *undefined*, and then `a < b`, `a ≤ b` and
`a == b` are all false whenever it takes part.
-/

namespace Minima

class Scalar (R : Type) extends Add R, Sub R, Neg R, Mul R, Div R, LT R, LE R, BEq R,
    OfScientific R where
  decidableLT : (a b : R) → Decidable (a < b)
  decidableLE : (a b : R) → Decidable (a ≤ b)
  /-- The power with a natural exponent. -/
  power : R → Nat → R
  abs : R → R
  sqrt : R → R
  exp : R → R
  sin : R → R
  cos : R → R
  isNaN : R → Bool
  isFinite : R → Bool
  /-- The whole part of a finite scalar, cut toward zero. -/
  truncate : R → Int
  /-- A number of steps in which repeated multiplication by ten carries any positive scalar past
  its product with the given factor, or to where it no longer changes. -/
  decades : R → Nat
  /-- Read a numeral. -/
  ofText? : String → Option R

namespace Scalar

variable {R : Type} [Scalar R]

instance (a b : R) : Decidable (a < b) := decidableLT a b

instance (a b : R) : Decidable (a ≤ b) := decidableLE a b

def square (x : R) : R := power x 2

def cube (x : R) : R := power x 3

def ofNat (n : Nat) : R := OfScientific.ofScientific n false 0

def ofInt (i : Int) : R := if i < 0 then -ofNat i.natAbs else ofNat i.natAbs

/-- An integer as a scalar, unless it is too large for one. -/
def ofInt? (i : Int) : Option R :=
  let x : R := ofInt i
  if isFinite x then some x else none

/-- Beyond all finite scalars, where there is such a value. -/
def infinity : R := 1.0 / 0.0

/-- The undefined scalar, where there is one. -/
def undefined : R := 0.0 / 0.0

/-- The smaller of two; the first, unless the second is strictly smaller. -/
def lesser (a b : R) : R := if b < a then b else a

/-- The greater of two; the first, unless the second is strictly greater. -/
def greater (a b : R) : R := if a < b then b else a

/-- The nearest point of `[lo, hi]`; an undefined scalar stays as it is. -/
def clamp (lo hi x : R) : R :=
  let raised := if isNaN x || decide (lo < x) then x else lo
  if isNaN raised || decide (raised < hi) then raised else hi

/-- The smaller of two, undefined as soon as one of them is. -/
def lesserOrUndefined (a b : R) : R :=
  if isNaN a then a else if isNaN b then b else lesser a b

def greaterOrUndefined (a b : R) : R :=
  if isNaN a then a else if isNaN b then b else greater a b

end Scalar

end Minima
