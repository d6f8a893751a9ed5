import Minima.Failure

/-!
# Formulas

Functions of several variables written as terms. Division by zero, an exponential that is too large
and the sine of an infinity fail; a comparison evaluates only the branch that it chooses.
-/

namespace Minima

/-- A term in the variables `x 0`, `x 1`, … -/
inductive Formula (R : Type) where
  | const (c : R)
  | var (i : Nat)
  | add (first : Formula R) (rest : List (Formula R))
  | mul (first : Formula R) (rest : List (Formula R))
  | sub (a b : Formula R)
  | div (a b : Formula R)
  | neg (a : Formula R)
  | abs (a : Formula R)
  | exp (a : Formula R)
  | sin (a : Formula R)
  | cos (a : Formula R)
  /-- If `a < b` then `t` else `e`. -/
  | less (a b t e : Formula R)
  | fail (kind : FailureKind) (text : String)

namespace Formula

variable {R : Type} [Scalar R]

/-- The exponential, unless a finite argument has none. -/
def checkedExp (a : R) : Attempt R R :=
  let v := Scalar.exp a
  if Scalar.isFinite a && !Scalar.isFinite v then throw .exponentialOverflow else pure v

/-- A circular function, which an infinity is no argument of. -/
def checkedCircular (f : R → R) (a : R) : Attempt R R :=
  if !Scalar.isFinite a && !Scalar.isNaN a then throw .outsideDomain else pure (f a)

mutual

def eval (x : Array R) : Formula R → Attempt R R
  | .const c => pure c
  | .var i =>
    match x[i]? with
    | some v => pure v
    | none => throw .indexOutOfRange
  | .add first rest => do evalFold x (· + ·) (← eval x first) rest
  | .mul first rest => do evalFold x (· * ·) (← eval x first) rest
  | .sub a b => do
    let u ← eval x a
    let v ← eval x b
    return u - v
  | .div a b => do
    let u ← eval x a
    let v ← eval x b
    divide u v
  | .neg a => do return -(← eval x a)
  | .abs a => do return Scalar.abs (← eval x a)
  | .exp a => do checkedExp (← eval x a)
  | .sin a => do checkedCircular Scalar.sin (← eval x a)
  | .cos a => do checkedCircular Scalar.cos (← eval x a)
  | .less a b t e => do
    let u ← eval x a
    let v ← eval x b
    if u < v then eval x t else eval x e
  | .fail kind text => throw (.thrown kind text)

def evalFold (x : Array R) (op : R → R → R) (acc : R) : List (Formula R) → Attempt R R
  | [] => pure acc
  | t :: ts => do
    let v ← eval x t
    evalFold x op (op acc v) ts

end

end Formula

end Minima
