import Minima.Method.LineStep

/-!
# Conjugate gradients

The direction of a step is the negative gradient plus `β` times the direction before. It starts
anew from the negative gradient at fixed intervals, and whenever it does not point downhill.
-/

namespace Minima.ConjugateGradient

variable {R : Type} [Scalar R] {n : Nat}

/-- The name of the formula `β = g'·g' / g·g`. -/
def fletcherReeves : String := "fletcher_reeves"

/-- The name of the formula `β = max (0, g'·(g' - g) / g·g)`. -/
def polakRibiere : String := "polak_ribiere"

def defaults (formula : Setting R) : Options R :=
  [("beta_formula", formula), ("restart_every", .whole 0)]

def validate (owner : String) (options : Options R) : Attempt R Unit := do
  LineStep.validate owner options
  let formula ← options.get "beta_formula"
  if !(formula.isText fletcherReeves || formula.isText polakRibiere) then
    throw (.configuration (.optionBeta owner))
  if (← options.whole "restart_every") < 0 then
    throw (.configuration (.optionOutOfRange owner "restart_every" .notNegative))

/-- An iterate with the direction of the next step. -/
structure State (R : Type) (n : Nat) where
  iterate : Iterate R n
  direction : Vector R n
  /-- The factor with which the direction was made. -/
  beta : R
  /-- Is the direction the negative gradient? -/
  restarted : Bool

def State.view (st : State R n) : Snapshot R :=
  st.iterate.snapshot
    (.conjugate st.iterate.descent (some (Tensor.ofVector st.direction)) st.beta st.restarted)

/-- The factor for the new gradient and the old one; zero if the old one vanishes. -/
def factor (options : Options R) (new old : Vector R n) : Attempt R R := do
  let den := Linear.dot old old
  if den ≤ 1e-300 then return 0.0
  if (← options.get "beta_formula").isText fletcherReeves then
    return Linear.dot new new / den
  return Scalar.greater 0.0 (Linear.dot new (new - old) / den)

/-- The direction of a step: the prepared one, unless it does not point downhill. -/
def downhill (st : State R n) : Vector R n :=
  if (0.0 : R) ≤ Linear.dot st.direction st.iterate.gradient then -st.iterate.gradient
  else st.direction

/-- After how many steps the direction starts anew: as many as there are variables, if the option
is zero. -/
def period (options : Options R) (n : Nat) : Attempt R Int := do
  let given ← options.whole "restart_every"
  return if given = 0 then n else given

/-- One step; the state stays if the step is rejected. -/
def step (s : Situation R n) (count : Nat) (st : State R n) :
    Consult R n (State R n × Status) := do
  let d := downhill st
  match ← LineStep.descend s st.iterate d with
  | (none, status) => return (st, status)
  | (some next, status) =>
    let restarted := decide ((count + 1 : Nat) % (← period s.options n) = 0)
    let beta ← if restarted then pure 0.0 else factor s.options next.gradient st.iterate.gradient
    return ({ iterate := next, direction := -next.gradient + beta * d, beta, restarted }, status)

/-- Conjugate gradients; the formula is an option whose default can be chosen. -/
def method (formula? : Option (Setting R)) : Method R where
  className := "ConjugateGradient"
  defaultName :=
    if (formula?.getD .absent).isText fletcherReeves then "Fletcher–Reeves" else "Polak–Ribière"
  blankName := "ConjugateGradient"
  State := State R
  view st := st.view
  defaults := (Method.commonDefaults.update LineStep.defaults).update
    (defaults (formula?.getD (.text polakRibiere)))
  hasCriterion := false
  usesGradient := true
  usesLineSearch := true
  validate
  start _ x := do
    let it ← Iterate.start x
    return .state { iterate := it, direction := -it.gradient, beta := 0.0, restarted := true }
  step s count st := do
    let (next, status) ← step s count st
    return (.state next, status)

end Minima.ConjugateGradient
