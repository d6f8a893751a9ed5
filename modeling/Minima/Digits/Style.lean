import Minima.Digits.Rounding

/-!
# Printed forms of a double

Each form is a choice of digits (`Decimal`) and a way of laying them out: positional or with an
exponent. `Float.shortText` reads back as the number itself; `Float.general`, `Float.scientific`
and `Float.fixed` round to a stated precision.
-/

namespace Minima

def padZeros (width : Nat) (s : String) : String :=
  "".pushn '0' (width - s.length) ++ s

namespace Decimal

/-- The digits as text, with zeros appended up to `count` digits. -/
def text (d : Decimal) (count : Nat) : String :=
  let s := d.digits.repr
  s.pushn '0' (count - s.length)

/-- Positional layout: `places` digits after the point, none and no point if zero. -/
def positional (d : Decimal) (places : Nat) : String :=
  let s := d.digits.repr
  let whole : Int := d.exponent + 1
  let (before, after) :=
    if whole ≤ 0 then ("0", "".pushn '0' (-whole).toNat ++ s)
    else
      let padded := s.pushn '0' (whole.toNat - s.length)
      ((padded.take whole.toNat).toString, (padded.drop whole.toNat).toString)
  if places = 0 then before
  else before ++ "." ++ after.pushn '0' (places - after.length)

def placesNeeded (d : Decimal) : Nat :=
  ((digitCount d.digits : Int) - 1 - d.exponent).toNat

/-- Layout with an exponent of a sign and at least `width` digits; `count` digits in all. -/
def withExponent (d : Decimal) (count : Nat) (width : Nat) : String :=
  let s := d.text count
  let rest := (s.drop 1).toString
  let mark := if rest.isEmpty then "" else "."
  let sign := if d.exponent < 0 then "-" else "+"
  (s.take 1).toString ++ mark ++ rest ++ "e" ++ sign ++ padZeros width d.exponent.natAbs.repr

end Decimal

/-- The common frame of all forms: names for what is not finite, a sign, and the text of the
absolute value. -/
def layoutWith (x : Float) (zero : String) (finite : Dyadic → String) : String :=
  match Dyadic.ofFloat? x with
  | none => if x.isNaN then "nan" else if x < 0 then "-inf" else "inf"
  | some d =>
    let body := if d.mantissa = 0 then zero else finite d
    if d.negative then "-" ++ body else body

/-- The shortest text that reads back as `x`: positional for exponents from -4 to 15, always with
a point, otherwise with an exponent of at least two digits. -/
def shortText (x : Float) : String :=
  layoutWith x "0.0" fun d =>
    let s := Decimal.shortest d
    if -4 ≤ s.exponent ∧ s.exponent < 16 then s.positional (max 1 s.placesNeeded)
    else s.withExponent 1 2

/-- At most `precision` significant digits, zeros at the end dropped; positional when the exponent
is at least -4 and below the precision. -/
def generalText (precision : Nat) (x : Float) : String :=
  layoutWith x "0" fun d =>
    let r := Decimal.ofRatio d.numerator d.denominator precision
    let s := r.strip
    if -4 ≤ r.exponent ∧ r.exponent < precision then s.positional s.placesNeeded
    else s.withExponent 1 2

/-- One digit before the point and `places` after it, with an exponent. -/
def scientificText (places : Nat) (x : Float) : String :=
  layoutWith x (Decimal.withExponent ⟨0, 0⟩ (places + 1) 2) fun d =>
    (Decimal.ofRatio d.numerator d.denominator (places + 1)).withExponent (places + 1) 2

/-- Exactly `places` digits after the point. -/
def fixedText (places : Nat) (x : Float) : String :=
  let lay (digits : Nat) : String :=
    let s := padZeros (places + 1) digits.repr
    let whole := (s.take (s.length - places)).toString
    if places = 0 then whole else whole ++ "." ++ (s.drop (s.length - places)).toString
  layoutWith x (lay 0) fun d => lay (roundDiv (d.numerator * tenTo places) d.denominator)

/-- `count` significant digits with zeros at the end dropped, always with an exponent. -/
def strippedScientificText (count : Nat) (x : Float) : String :=
  layoutWith x "0" fun d =>
    (Decimal.ofRatio d.numerator d.denominator count).strip.withExponent 1 2

end Minima
