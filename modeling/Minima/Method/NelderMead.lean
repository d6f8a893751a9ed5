import Minima.Method

/-!
# The simplex method

The method keeps one vertex more than there are variables, sorted by value, and moves the worst one:
through the centre of the others, further if that was good, less far if it was not. If nothing
helps, all vertices are drawn toward the best one.
-/

namespace Minima.NelderMead

variable {R : Type} [Scalar R] {n : Nat}

def defaults : Options R := [
  ("alpha", .real 1.0),
  ("gamma", .real 2.0),
  ("rho", .real 0.5),
  ("sigma", .real 0.5),
  ("initial_simplex_scale", .real 0.05),
  ("min_simplex_diameter", .real 1e-10)]

def validate (owner : String) (options : Options R) : Attempt R Unit := do
  options.require owner "alpha" .positive
  options.require owner "gamma" .aboveOne
  options.require owner "rho" .betweenZeroAndOne
  options.require owner "sigma" .betweenZeroAndOne
  options.require owner "initial_simplex_scale" .positive

/-- A factor is taken as it is given: a text is none, even if it is a numeral. -/
def factor (options : Options R) (key : String) : Attempt R R := do
  match ← options.get key with
  | .text _ => throw .notANumber
  | given => given.toReal

structure Vertex (R : Type) (n : Nat) where
  point : Vector R n
  value : R

/-- Does the first value come before the second or beside it? Undefined values come last. -/
def precedes (a b : R) : Bool := Scalar.isNaN b || decide (a ≤ b)

abbrev Simplex (R : Type) (n : Nat) := Vector (Vertex R n) (n + 1)

namespace Simplex

/-- The vertices by value, those of one value in their order. -/
def sort (s : Simplex R n) : Simplex R n :=
  ⟨(s.toList.mergeSort fun a b => precedes a.value b.value).toArray, by simp⟩

def best (s : Simplex R n) : Vertex R n := s.get ⟨0, Nat.succ_pos n⟩

def worst (s : Simplex R n) : Vertex R n := s.get (Fin.last n)

/-- The value of the vertex before the worst. -/
def secondWorst (s : Simplex R n) : R := s[n - 1].value

def replaceWorst (s : Simplex R n) (v : Vertex R n) : Simplex R n := s.set n v

/-- The centre of all vertices but the worst. -/
def centroid (s : Simplex R n) : Vector R n :=
  let others := s.take n
  Vector.ofFn fun j => (others.foldl (fun acc v => acc + v.point.get j) (0.0 : R)) / Scalar.ofNat n

/-- The greatest distance from the best vertex. -/
def diameter (s : Simplex R n) : R :=
  s.foldl (fun acc v => Scalar.greaterOrUndefined acc (Linear.norm (v.point - s.best.point))) 0.0

end Simplex

/-- A sorted simplex, and how the last step made it. -/
structure State (R : Type) (n : Nat) where
  simplex : Simplex R n
  stepType : String

def State.view (st : State R n) : Snapshot R where
  value := st.simplex.best.value
  point := st.simplex.best.point.toArray
  others := (st.simplex.toArray.extract 1 (n + 1)).map fun v => v.point.toArray
  detail := .simplex (some (Tensor.ofArray (st.simplex.toArray.map Vertex.value))) st.stepType
    st.simplex.diameter

def State.ofVertices (s : Simplex R n) (stepType : String) : State R n := ⟨s.sort, stepType⟩

/-- The vertex at a point, which is brought into the region first. -/
def vertexAt (s : Situation R n) (x : Vector R n) : Consult R n (Vertex R n) := do
  let point := s.region.project x
  return { point, value := ← Consult.value point }

/-- A corner of the first simplex: the start with one variable changed by a fraction, or set to that
fraction if it is zero. -/
def corner (scale : R) (x : Vector R n) (i : Fin n) : Vector R n :=
  x.set i.val (if x.get i == 0.0 then scale else (1.0 + scale) * x.get i) i.isLt

/-- A simplex of a vertex and as many others as there are variables. -/
def assemble (first : Vertex R n) (rest : Vector (Vertex R n) n) : Simplex R n :=
  Linear.cons first rest

/-- The first simplex, from a feasible point. -/
def start (s : Situation R n) (x : Vector R n) : Consult R n (State R n) := do
  let scale ← s.options.real "initial_simplex_scale"
  let first : Vertex R n := { point := x, value := ← Consult.value x }
  let rest ← Vector.ofFnM fun i => vertexAt s (corner scale x i)
  return State.ofVertices (assemble first rest) "initial"

/-- Draw all vertices toward the best one. -/
def shrink (s : Situation R n) (simplex : Simplex R n) : Consult R n (Simplex R n) := do
  let best := simplex.best
  let rest ← Vector.ofFnM fun (i : Fin n) => do
    let sigma ← factor s.options "sigma"
    vertexAt s (best.point + sigma * ((simplex.get i.succ).point - best.point))
  return assemble best rest

/-- Move the worst vertex, or shrink the simplex. -/
def move (s : Situation R n) (simplex : Simplex R n) : Consult R n (Simplex R n × String) := do
  let best := simplex.best
  let worst := simplex.worst
  let centre := simplex.centroid
  let alpha ← factor s.options "alpha"
  let reflected ← vertexAt s (centre + alpha * (centre - worst.point))
  if best.value ≤ reflected.value ∧ reflected.value < simplex.secondWorst then
    return (simplex.replaceWorst reflected, "reflection")
  if reflected.value < best.value then
    let gamma ← factor s.options "gamma"
    let expanded ← vertexAt s (centre + gamma * (reflected.point - centre))
    if expanded.value < reflected.value then
      return (simplex.replaceWorst expanded, "expansion")
    return (simplex.replaceWorst reflected, "reflection")
  let rho ← factor s.options "rho"
  let contracted ← vertexAt s <|
    if reflected.value < worst.value then centre + rho * (reflected.point - centre)
    else centre - rho * (centre - worst.point)
  if contracted.value < Scalar.lesser reflected.value worst.value then
    return (simplex.replaceWorst contracted, "contraction")
  return (← shrink s simplex, "shrink")

/-- One step. The method gives up when the simplex has become too small. -/
def step (s : Situation R n) (st : State R n) : Consult R n (State R n × Status) := do
  let (simplex, stepType) ← move s st.simplex
  let next := State.ofVertices simplex stepType
  let least ← s.options.real "min_simplex_diameter"
  return (next, if next.simplex.diameter < least then .noProgress else .running)

def method : Method R where
  className := "NelderMeadMethod"
  defaultName := "Nelder–Mead simplex"
  State := State R
  view st := st.view
  defaults := Method.commonDefaults.update defaults
  hasCriterion := false
  validate
  start s x := do return .state (← start s x)
  step s _ st := do
    let (next, status) ← step s st
    return (.state next, status)

end Minima.NelderMead
