import Minima.Digits.Dyadic

/-!
# Rounding to decimal digits

A positive rational is rounded once, from its exact value, to a given number of places or of
significant digits; a tie goes to the even neighbour. `Decimal.shortest` finds the fewest digits
from which reading gives the same double back.
-/

namespace Minima

/-- `num / den` to the nearest whole number, a half going to the even neighbour. -/
def roundDiv (num den : Nat) : Nat :=
  let q := num / den
  let r := num % den
  if den < 2 * r || (2 * r == den && q % 2 == 1) then q + 1 else q

/-- How many decimal digits a number has; zero has one. -/
def digitCount (n : Nat) : Nat := n.repr.length

/-- The number `digits · 10 ^ (exponent + 1 - digitCount digits)`: a run of digits of which the
first one stands for `10 ^ exponent`. -/
structure Decimal where
  digits : Nat
  exponent : Int
deriving DecidableEq, Repr

namespace Decimal

/-- The exponent of the leading digit of `num / den`, both positive: the greatest `k` with
`10 ^ k ≤ num / den`. -/
def leadingExponent (num den : Nat) : Int :=
  if den ≤ num then (digitCount (num / den) : Int) - 1
  else -(digitCount ((den + num - 1) / num - 1) : Int)

/-- Numerator and denominator of `num / den · 10 ^ shift`. -/
def scale (num den : Nat) (shift : Int) : Nat × Nat :=
  (num * tenTo shift.toNat, den * tenTo (-shift).toNat)

/-- `num / den` rounded to `count ≥ 1` significant digits. -/
def ofRatio (num den count : Nat) : Decimal :=
  let k := leadingExponent num den
  let (n, d) := scale num den ((count : Int) - 1 - k)
  let digits := roundDiv n d
  if digits = tenTo count then ⟨tenTo (count - 1), k + 1⟩ else ⟨digits, k⟩

/-- Drop zeros at the end of the digits; the value stays. -/
def strip (d : Decimal) : Decimal :=
  ⟨go d.digits (digitCount d.digits), d.exponent⟩
where
  go (n : Nat) : Nat → Nat
    | 0 => n
    | fuel + 1 => if n ≠ 0 ∧ n % 10 = 0 then go (n / 10) fuel else n

/-- Does `digits · 10 ^ place` lie among the reals that round to the double `m · 2 ^ e`? The two
ends belong to them exactly when `m` is even. Below a power of two the gap is half as wide. -/
def readsBack (m : Nat) (e : Int) (digits : Nat) (place : Int) : Bool :=
  let below := if m = twoTo 52 ∧ -1074 < e then 1 else 2
  let lower := 4 * m - below
  let upper := 4 * m + 2
  -- compare `digits · 10 ^ place` with `end · 2 ^ (e - 2)`
  let two := e - 2
  let value := digits * tenTo place.toNat * twoTo (-two).toNat
  let unit := tenTo (-place).toNat * twoTo two.toNat
  let lo := lower * unit
  let hi := upper * unit
  if m % 2 = 0 then lo ≤ value && value ≤ hi else lo < value && value < hi

/-- The nearest of the decimals with `count` digits that read back as the double, if there is
one: only the two neighbours of the exact value on that grid can be. -/
def readingBack? (d : Dyadic) (count : Nat) : Option Decimal :=
  let k := leadingExponent d.numerator d.denominator
  let place := k + 1 - (count : Int)
  let (num, den) := scale d.numerator d.denominator (-place)
  let nearest := roundDiv num den
  let floor := num / den
  let other := if nearest = floor then floor + 1 else floor
  let made (digits : Nat) : Option Decimal :=
    if readsBack d.mantissa d.exponent digits place then
      some (strip ⟨digits, place + digitCount digits - 1⟩)
    else none
  made nearest <|> made other

/-- The fewest digits that read back as the given nonzero double, and among those the nearest
to it. Seventeen digits always suffice. -/
def shortest (d : Dyadic) : Decimal :=
  ((List.range 17).findSome? fun i => readingBack? d (i + 1)).getD
    (strip (ofRatio d.numerator d.denominator 17))

end Decimal

end Minima
