import Minima.Objective

/-!
# Central differences

Derivatives from values alone. The gradient takes two values for each variable, the Hessian one in
the centre, two for each variable and four for each pair of variables.
-/

namespace Minima

namespace Objective

variable {R : Type} [Scalar R] {n : Nat}

/-- `num / den`, refused for a zero divisor where the values that make up `num` are guarded. -/
def quotient (guarded : Bool) (num den : R) : Attempt R R :=
  if guarded then divide num den else pure (num / den)

/-- The square of a step, unless it is too large. -/
def squared (h : R) : Attempt R R :=
  let s := Scalar.square h
  if Scalar.isFinite h && !Scalar.isFinite s then throw .powerOverflow else pure s

def stride (h : R) (i : Fin n) : Vector R n :=
  Vector.ofFn fun j => (if j = i then 1.0 else 0.0) * h

/-- `(f (x + h eᵢ) - f (x - h eᵢ)) / (2 h)`. -/
def slope (f : Objective R n) (x : Vector R n) (h : R) (i : Fin n) : Attempt R R := do
  let ahead := x + Linear.axis i.val h
  let behind := x - Linear.axis i.val h
  let a ← f.value ahead
  let b ← f.value behind
  quotient (f.guarded ahead && f.guarded behind) (a - b) (2.0 * h)

def differenceGradient (f : Objective R n) (x : Vector R n) (h : R) : Attempt R (Vector R n) :=
  Vector.ofFnM fun i => f.slope x h i

/-- `(f (x + h eᵢ) - 2 f x + f (x - h eᵢ)) / h²`, where `centre` is `f x`. -/
def curvature (f : Objective R n) (x : Vector R n) (h centre : R) (i : Fin n) : Attempt R R := do
  let ahead := x + stride h i
  let behind := x - stride h i
  let a ← f.value ahead
  let b ← f.value behind
  let den ← squared h
  quotient (f.guarded ahead && f.guarded behind && f.guarded x) (a - 2.0 * centre + b) den

/-- `(f(++) - f(+-) - f(-+) + f(--)) / (4 h²)`, the signs being those of `h eᵢ` and `h eⱼ`. -/
def mixed (f : Objective R n) (x : Vector R n) (h : R) (i j : Fin n) : Attempt R R := do
  let pp := x + stride h i + stride h j
  let pm := x + stride h i - stride h j
  let mp := x - stride h i + stride h j
  let mm := x - stride h i - stride h j
  let a ← f.value pp
  let b ← f.value pm
  let c ← f.value mp
  let d ← f.value mm
  let den ← squared h
  quotient (f.guarded pp && f.guarded pm && f.guarded mp && f.guarded mm) (a - b - c + d)
    (4.0 * den)

/-- The Hessian by central differences; its two triangles are equal. -/
def differenceHessian (f : Objective R n) (x : Vector R n) (h : R) :
    Attempt R (Linear.Square R n) := do
  let centre ← f.value x
  let diagonal ← Vector.ofFnM fun i => f.curvature x h centre i
  let upper ← Vector.ofFnM fun (i : Fin n) => Vector.ofFnM fun (j : Fin n) =>
    if i < j then f.mixed x h i j else pure 0.0
  return Linear.Square.ofFn fun i j =>
    if i = j then diagonal.get i else if i < j then (upper.get i).get j else (upper.get j).get i

end Objective

end Minima
