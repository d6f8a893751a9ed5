import Minima.Problem.Basic

/-!
# Values on grids

To be drawn, a function is evaluated at points that are equally far apart. Where it is not defined
or not finite, its value counts as undefined.
-/

namespace Minima

variable {R : Type} [Scalar R]

namespace Problem

/-- The value at a point; none outside the domain of the function. Failures of any other kind are
passed on. -/
def valueInDomain? (p : Problem R) (x : Array R) : Attempt R (Option R) :=
  if h : x.size = p.n then
    match p.objective.value ⟨x, h⟩ with
    | .ok v => pure (some v)
    | .error e => if e.isOfDomain then pure none else throw e
  else pure none

/-- The value at a point if it is finite, otherwise undefined. -/
def finiteValue (p : Problem R) (x : Array R) : Attempt R R := do
  match ← p.valueInDomain? x with
  | some v => return if Scalar.isFinite v then v else Scalar.undefined
  | none => return Scalar.undefined

end Problem

/-- `count` points from `a` to `b`, equally far apart. The last of them is `b` itself. -/
def spaced (a b : R) (count : Nat) : Array R :=
  let width := b - a
  let parts : R := Scalar.ofNat (count - 1)
  let step := width / parts
  let offset (i : Nat) : R :=
    if step == 0.0 then Scalar.ofNat i / parts * width else Scalar.ofNat i * step
  ((Array.range (count - 1)).map fun i => offset i + a).push b

/-- The least of several numbers, undefined as soon as one of them is. -/
def leastOf (l : List R) : R :=
  match l with
  | [] => Scalar.undefined
  | x :: rest => rest.foldl Scalar.lesserOrUndefined x

/-- The greatest of several numbers, undefined as soon as one of them is. -/
def greatestOf (l : List R) : R :=
  match l with
  | [] => Scalar.undefined
  | x :: rest => rest.foldl Scalar.greaterOrUndefined x

/-- Points of a plane in rows and columns, with a value at each. -/
structure Grid (R : Type) where
  xs : Array R
  ys : Array R
  /-- The values, row by row; a row is of one `y`. -/
  values : Array R

namespace Grid

def sample (p : Problem R) (xs ys : Array R) : Attempt R (Grid R) := do
  let values ← (ys.flatMap fun y => xs.map fun x => #[x, y]).mapM p.finiteValue
  return { xs, ys, values }

def shape (g : Grid R) : List Nat := [g.ys.size, g.xs.size]

def firsts (g : Grid R) : Tensor R := ⟨g.shape, g.ys.flatMap fun _ => g.xs⟩

def seconds (g : Grid R) : Tensor R := ⟨g.shape, g.ys.flatMap fun y => g.xs.map fun _ => y⟩

def heights (g : Grid R) : Tensor R := ⟨g.shape, g.values⟩

end Grid

end Minima
