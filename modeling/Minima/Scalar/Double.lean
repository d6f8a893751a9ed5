import Minima.Digits.Dyadic
import Minima.Scalar
import Minima.Text.Numeral

/-!
# Doubles

The scalars that programs run on: binary floating point with 64 bits.
-/

namespace Minima

namespace Double

/-- The double nearest to `± mantissa · 10 ^ exponent`. The two tests keep the powers of ten small:
beyond them the result is an infinity or zero whatever the digits are. -/
def ofDecimal (negative : Bool) (mantissa : Nat) (exponent : Int) : Float :=
  let size : Int := mantissa.repr.length + exponent
  let magnitude : Float :=
    if mantissa = 0 ∨ size < -400 then 0.0
    else if 400 < size then 1.0 / 0.0
    else if exponent < 0 then Float.ofScientific mantissa true exponent.natAbs
    else Float.ofScientific mantissa false exponent.natAbs
  if negative then -magnitude else magnitude

def ofNumeral : Text.Numeral → Float
  | .decimal negative mantissa exponent => ofDecimal negative mantissa exponent
  | .infinite negative => if negative then -(1.0 / 0.0) else 1.0 / 0.0
  | .undefined => 0.0 / 0.0

def ofText? (s : String) : Option Float := (Text.Numeral.ofText? s).map ofNumeral

end Double

instance : Scalar Float where
  power x n := Float.pow x n.toFloat
  decidableLT := inferInstance
  decidableLE := inferInstance
  abs := Float.abs
  sqrt := Float.sqrt
  exp := Float.exp
  sin := Float.sin
  cos := Float.cos
  isNaN := Float.isNaN
  isFinite := Float.isFinite
  truncate x := ((Dyadic.ofFloat? x).map Dyadic.truncate).getD 0
  -- a positive double that is multiplied by ten grows, unless it is infinite, and there are no more
  -- doubles than that
  decades _ := UInt64.size
  ofText? := Double.ofText?

end Minima
