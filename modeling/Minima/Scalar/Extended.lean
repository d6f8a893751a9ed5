import Mathlib.Data.EReal.Basic
import Minima.Scalar.Real

/-!
# Reals with infinities

The exact scalars together with two infinities and an undefined scalar, which arise and compare as
they do among doubles. Numbers are the reals: nothing is rounded, nothing overflows, and there is one
zero, by which a quotient is infinite with the sign of what is divided.
-/

namespace Minima

/-- A real, one of two infinities, or undefined. -/
inductive Extended where
  | undefined
  | infinite (negative : Bool)
  | number (x : ℝ)

namespace Extended

instance : Coe ℝ Extended := ⟨number⟩

def isNaN : Extended → Bool
  | undefined => true
  | _ => false

def isFinite : Extended → Bool
  | number _ => true
  | _ => false

noncomputable def rank : Extended → EReal
  | infinite true => ⊥
  | infinite false => ⊤
  | number x => x
  | undefined => 0

/-! ## Arithmetic -/

noncomputable def neg : Extended → Extended
  | number x => number (-x)
  | infinite s => infinite !s
  | undefined => undefined

noncomputable def add : Extended → Extended → Extended
  | number x, number y => number (x + y)
  | number _, infinite s | infinite s, number _ => infinite s
  | infinite s, infinite t => if s = t then infinite s else undefined
  | undefined, _ | _, undefined => undefined

noncomputable def mul : Extended → Extended → Extended
  | number x, number y => number (x * y)
  | number x, infinite s | infinite s, number x =>
    if x = 0 then undefined else infinite (s != decide (x < 0))
  | infinite s, infinite t => infinite (s != t)
  | undefined, _ | _, undefined => undefined

noncomputable def div : Extended → Extended → Extended
  | number x, number y =>
    if y ≠ 0 then number (x / y) else if x = 0 then undefined else infinite (decide (x < 0))
  | number _, infinite _ => number 0
  | infinite s, number y => infinite (s != decide (y < 0))
  | infinite _, infinite _ => undefined
  | undefined, _ | _, undefined => undefined

/-! ## Functions -/

noncomputable def power : Extended → Nat → Extended
  | _, 0 => number 1
  | number x, n => number (x ^ n)
  | infinite s, n => infinite (s && n % 2 == 1)
  | undefined, _ => undefined

noncomputable def abs : Extended → Extended
  | number x => number |x|
  | infinite _ => infinite false
  | undefined => undefined

noncomputable def sqrt : Extended → Extended
  | number x => if x < 0 then undefined else number √x
  | infinite false => infinite false
  | infinite true | undefined => undefined

noncomputable def exp : Extended → Extended
  | number x => number (Real.exp x)
  | infinite true => number 0
  | infinite false => infinite false
  | undefined => undefined

/-- A function of the numbers that has no value at the infinities. -/
noncomputable def onNumbers (f : ℝ → ℝ) : Extended → Extended
  | number x => number (f x)
  | infinite _ | undefined => undefined

noncomputable def ofNumeral : Text.Numeral → Extended
  | .infinite negative => infinite negative
  | n => ((RealScalar.ofNumeral? n).map number).getD undefined

end Extended

open Extended in
noncomputable instance : Scalar Extended where
  add := add
  sub a b := add a (neg b)
  neg := neg
  mul := mul
  div := div
  lt a b := isNaN a = false ∧ isNaN b = false ∧ rank a < rank b
  le a b := isNaN a = false ∧ isNaN b = false ∧ rank a ≤ rank b
  beq a b := !isNaN a && !isNaN b && decide (rank a = rank b)
  ofScientific m negative e := number (OfScientific.ofScientific m negative e)
  decidableLT _ _ := inferInstanceAs (Decidable (_ ∧ _ ∧ _))
  decidableLE _ _ := inferInstanceAs (Decidable (_ ∧ _ ∧ _))
  power := power
  abs := abs
  sqrt := sqrt
  exp := exp
  sin := onNumbers Real.sin
  cos := onNumbers Real.cos
  isNaN := isNaN
  isFinite := isFinite
  truncate
    | number x => RealScalar.truncate x
    | infinite _ | undefined => 0
  decades
    | number x => ⌈x⌉₊
    | infinite _ | undefined => 0
  ofText? s := (Text.Numeral.ofText? s).map ofNumeral

end Minima
