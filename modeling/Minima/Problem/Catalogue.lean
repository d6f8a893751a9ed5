import Minima.Problem.Basic

/-!
# The catalogue of problems

Eight functions of two variables and two of one. Formulas for the derivatives are given where they
are short.
-/

namespace Minima

namespace Catalogue

open Scalar (square cube)

variable {R : Type} [Scalar R]

/-! ## Functions of two variables -/

/-- `(12 + x₁² + (1 + x₂²) / x₁² + ((x₁ x₂)² + 100) / (x₁ x₂)⁴) / 10`, infinite at its poles. -/
def f1 (x₁ x₂ : R) : R :=
  let p := x₁ * x₂
  if x₁ == 0.0 || p == 0.0 then Scalar.infinity
  else
    (12.0 + square x₁ + (1.0 + square x₂) / square x₁ +
      (square p + 100.0) / Scalar.power p 4) / 10.0

def isPole (x₁ x₂ : R) : Bool := x₁ == 0.0 || x₁ * x₂ == 0.0

/-- `(x₁ - x₂)² + (x₁ + x₂ - 10)² / 9`. -/
def f2 (x₁ x₂ : R) : R := square (x₁ - x₂) + square (x₁ + x₂ - 10.0) / 9.0

def gradF2 (x₁ x₂ : R) : Vector R 2 :=
  let d := 2.0 * (x₁ - x₂)
  let s := 2.0 * (x₁ + x₂ - 10.0) / 9.0
  #v[d + s, -d + s]

def hessF2 : Linear.Square R 2 :=
  let a : R := 2.0 + 2.0 / 9.0
  let b : R := -2.0 + 2.0 / 9.0
  #v[#v[a, b], #v[b, a]]

/-- The family `5 (x₂ - 4 x₁³ + 3 x₁)² + (x₁ + shift)²`. -/
def valley (shift x₁ x₂ : R) : R :=
  let u := x₂ - 4.0 * cube x₁ + 3.0 * x₁
  5.0 * square u + square (x₁ + shift)

def gradValley (shift x₁ x₂ : R) : Vector R 2 :=
  let u := x₂ - 4.0 * cube x₁ + 3.0 * x₁
  let du := -12.0 * square x₁ + 3.0
  #v[10.0 * u * du + 2.0 * (x₁ + shift), 10.0 * u]

def hessValley (x₁ x₂ : R) : Linear.Square R 2 :=
  let u := x₂ - 4.0 * cube x₁ + 3.0 * x₁
  let du := -12.0 * square x₁ + 3.0
  let h11 := 10.0 * (square du - 24.0 * x₁ * u) + 2.0
  let h12 := 10.0 * du
  #v[#v[h11, h12], #v[h12, 10.0]]

/-- `100 (x₂ - x₁³ + x₁)² + (x₁ - 1)²`. -/
def f5 (x₁ x₂ : R) : R :=
  let v := x₂ - cube x₁ + x₁
  100.0 * square v + square (x₁ - 1.0)

def gradF5 (x₁ x₂ : R) : Vector R 2 :=
  let v := x₂ - cube x₁ + x₁
  let dv := -3.0 * square x₁ + 1.0
  #v[200.0 * v * dv + 2.0 * (x₁ - 1.0), 200.0 * v]

def hessF5 (x₁ x₂ : R) : Linear.Square R 2 :=
  let v := x₂ - cube x₁ + x₁
  let dv := -3.0 * square x₁ + 1.0
  let h11 := 200.0 * (square dv - 6.0 * x₁ * v) + 2.0
  let h12 := 200.0 * dv
  #v[#v[h11, h12], #v[h12, 200.0]]

/-- `(0.01 (x₁ - 3))² - (x₂ - x₁) + exp (20 (x₂ - x₁))`. -/
def f6 (x₁ x₂ : R) : R := square (0.01 * (x₁ - 3.0)) - (x₂ - x₁) + Scalar.exp (20.0 * (x₂ - x₁))

/-- The banana function `100 (x₂ - x₁²)² + (1 - x₁)²`. -/
def f7 (x₁ x₂ : R) : R := 100.0 * square (x₂ - square x₁) + square (1.0 - x₁)

def gradF7 (x₁ x₂ : R) : Vector R 2 :=
  #v[-400.0 * x₁ * (x₂ - square x₁) - 2.0 * (1.0 - x₁), 200.0 * (x₂ - square x₁)]

def hessF7 (x₁ x₂ : R) : Linear.Square R 2 :=
  #v[#v[1200.0 * square x₁ - 400.0 * x₂ + 2.0, -400.0 * x₁], #v[-400.0 * x₁, 200.0]]

/-- `(x₁ - 4)² + (x₂ - 4)²`. -/
def f8 (x₁ x₂ : R) : R := square (x₁ - 4.0) + square (x₂ - 4.0)

/-- The gradient of `f8`, which is written for any number of variables. -/
def gradF8 (x : Array R) : Array R := x.map fun v => 2.0 * (v - 4.0)

def hessF8 : Linear.Square R 2 := Linear.Square.scale 2.0 (Linear.Square.identity 2)

/-! ## Objectives and problems -/

/-- The rows of a matrix as one list of entries. -/
def flat {n : Nat} (m : Linear.Square R n) : Array R := m.toArray.flatMap Vector.toArray

def plane (name : String) (f : R → R → R) (gradient? : Option (R → R → Array R))
    (hessian? : Option (R → R → Linear.Square R 2)) (guarded : R → R → Bool) : Objective R 2 where
  name
  value x := pure (f x[0] x[1])
  gradient? := gradient?.map fun g x => pure (g x[0] x[1])
  hessian? := hessian?.map fun h x => pure (flat (h x[0] x[1]))
  guarded x := guarded x[0] x[1]

/-- A problem in the plane. Away from poles a value is not guarded against division by zero. -/
def planeProblem (key title : String) (f : R → R → R) (gradient? : Option (R → R → Array R))
    (hessian? : Option (R → R → Linear.Square R 2)) (start : R × R)
    (minimum? : Option (R × R)) : Problem R where
  key
  title
  n := 2
  objective := plane key f gradient? hessian? fun _ _ => false
  start := Tensor.ofArray #[start.1, start.2]
  minimum? := minimum?.map fun m => Tensor.ofArray #[m.1, m.2]
  leastValue? := minimum?.map fun _ => 0.0

def lineProblem (key title : String) (f df : R → R) (d2f start : R) (minimum? : Option R) :
    Problem R where
  key
  title
  n := 1
  objective := {
    name := key
    value := fun x => pure (f x[0])
    gradient? := some fun x => pure #[df x[0]]
    hessian? := some fun _ => pure #[d2f] }
  start := Tensor.ofArray #[start]
  minimum? := minimum?.map fun m => Tensor.ofArray #[m]
  leastValue? := minimum?.map fun _ => 0.0

def problems : List (Problem R) := [
  { key := "f1"
    title := "f1(x1, x2) = (12 + x1^2 + (1 + x2^2)/x1^2 + ((x1*x2)^2 + 100)/(x1*x2)^4) / 10"
    n := 2
    objective := plane "f1" f1 none none isPole
    start := Tensor.ofArray #[1.0, 1.0]
    minimum? := none
    leastValue? := none },
  planeProblem "f2" "f2(x1, x2) = (x1 - x2)^2 + (x1 + x2 - 10)^2 / 9" f2
    (some fun a b => (gradF2 a b).toArray) (some fun _ _ => hessF2) (0.0, 0.0) (some (5.0, 5.0)),
  planeProblem "f3" "f3(x1, x2) = 5 * (x2 - 4*x1^3 + 3*x1)^2 + (x1 + 1)^2" (valley 1.0)
    (some fun a b => (gradValley 1.0 a b).toArray) (some hessValley) (0.0, 0.0)
    (some (-1.0, -1.0)),
  planeProblem "f4" "f4(x1, x2) = 5 * (x2 - 4*x1^3 + 3*x1)^2 + (x1 - 1)^2" (valley (-1.0))
    (some fun a b => (gradValley (-1.0) a b).toArray) (some hessValley) (0.0, 0.0)
    (some (1.0, 1.0)),
  planeProblem "f5" "f5(x1, x2) = 100 * (x2 - x1^3 + x1)^2 + (x1 - 1)^2" f5
    (some fun a b => (gradF5 a b).toArray) (some hessF5) (0.0, 0.0) (some (1.0, 0.0)),
  planeProblem "f6" "f6(x1, x2) = (0.01*(x1-3))^2 - (x2 - x1) + exp(20*(x2 - x1))" f6
    none none (0.0, 0.0) none,
  planeProblem "f7" "f7(x1, x2) = 100 * (x2 - x1^2)^2 + (1 - x1)^2" f7
    (some fun a b => (gradF7 a b).toArray) (some hessF7) (-1.2, 1.0) (some (1.0, 1.0)),
  planeProblem "f8" "f8(x1, x2) = (x1 - 4)^2 + (x2 - 4)^2" f8
    (some fun a b => gradF8 #[a, b]) (some fun _ _ => hessF8) (0.0, 0.0) (some (4.0, 4.0)),
  lineProblem "quadratic_1d" "f(x) = x^2" square (fun x => 2.0 * x) 2.0 10.0 (some 0.0),
  lineProblem "concave_1d" "f(x) = -x^2 (необмежена знизу)" (fun x => -square x)
    (fun x => -2.0 * x) (-2.0) 1.0 none]

/-- The problem with a key, among the given ones; of several with one key the last. -/
def find? (problems : List (Problem R)) (key : String) : Option (Problem R) :=
  problems.reverse.find? (·.key == key)

end Catalogue

end Minima
