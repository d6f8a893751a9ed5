/-!
# Binary fractions

A finite double is a whole number times a power of two. Everything that prints or truncates a
double starts from that exact value, never from a rounded intermediate.
-/

namespace Minima

def twoTo (k : Nat) : Nat := Nat.pow 2 k

def tenTo (k : Nat) : Nat := Nat.pow 10 k

/-- The number `± mantissa · 2 ^ exponent`. -/
structure Dyadic where
  negative : Bool
  mantissa : Nat
  exponent : Int
deriving DecidableEq, Repr

namespace Dyadic

/-- The exact value of a finite double; `none` for the infinities and for NaN. The leading bit of
a normal number is implicit, and the subnormal numbers share the least exponent. -/
def ofFloat? (x : Float) : Option Dyadic :=
  let bits := x.toBits.toNat
  let fraction : Nat := bits % twoTo 52
  let field : Nat := bits / twoTo 52 % twoTo 11
  let negative := bits / twoTo 63 == 1
  if field = 2047 then none
  else if field = 0 then some ⟨negative, fraction, -1074⟩
  else some ⟨negative, fraction + twoTo 52, (field : Int) - 1075⟩

/-- Numerator of the absolute value over `denominator`. -/
def numerator (d : Dyadic) : Nat := d.mantissa * twoTo d.exponent.toNat

def denominator (d : Dyadic) : Nat := twoTo (-d.exponent).toNat

/-- The whole part, cut toward zero. -/
def truncate (d : Dyadic) : Int :=
  let whole := d.numerator / d.denominator
  if d.negative then -(whole : Int) else whole

end Dyadic

end Minima
