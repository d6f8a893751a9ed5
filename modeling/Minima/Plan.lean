import Minima.Offer
import Minima.Problem.Basic
import Minima.Solver.Run
import Minima.Text.Blank
import Minima.Text.Lowercase

/-!
# Plans

A plan says in a few words what to run on a problem: a method by its key, one precision, a limit of
steps and a kind of stopping criterion. What the method needs is derived from that.
-/

namespace Minima

variable {R : Type} [Scalar R] {σ : Type}

structure Plan (R : Type) [Scalar R] where
  /-- The key of the method. -/
  method : String
  /-- Where to start, instead of the start of the problem. -/
  start? : Option (Tensor R) := none
  eps : R := 1e-6
  limit : Int := 500
  stopKind : String := "grad_norm"
  lineSearch? : Option String := none
  /-- What the clock shows for the run, if that is to be reported. -/
  elapsed? : Option R := none
  name? : Option String := none

namespace Plan

/-! ## Choices -/

def searchChoices : List (String × String) := [
  ("default", "за замовчуванням (Armijo)"),
  ("dichotomy", "дихотомія"),
  ("interval_halving", "розподіл інтервалу навпіл"),
  ("golden_section", "золотий переріз"),
  ("step_adaptation", "адаптація кроку"),
  ("cubic4", "кубічна інтерполяція (4 точки)")]

def stopChoices : List (String × String) := [
  ("grad_norm", "‖∇f(x)‖ < eps"),
  ("f_dist", "|f(x) - f*| < eps"),
  ("x_dist", "‖x - x*‖ < eps")]

/-- The name of the search that a choice stands for; none for the choice to leave it to the method.
Case and blanks around it do not matter. -/
def searchName? (choice? : Option String) : Attempt R (Option String) :=
  match choice? with
  | none => pure none
  | some choice =>
    if choice.isEmpty then pure none
    else
      let key := Text.strip (Text.lowercase choice)
      if key == LineSearch.defaultKey then pure none
      else if key == "cubic4" then pure (some LineSearch.Kind.cubic.key)
      else if (LineSearch.Kind.ofKey? key).isSome then pure (some key)
      else throw (.configuration (.lineSearchUnknown key))

/-! ## What a plan comes to -/

def options (method : String) (eps : R) (lineSearch? : Option String) : Attempt R (Options R) := do
  if ¬ (0.0 : R) < eps then throw (.configuration .precisionNotPositive)
  if (Offer.ofKey? method).isNone then
    throw (.configuration (.methodUnknown method))
  if method == "gradient_descent" then return [("grad_tol", .real eps)]
  if method == "hooke_jeeves" then return [("initial_step", .real 1.0), ("min_step", .real eps)]
  if method == "nelder_mead" then return [("initial_simplex_scale", .real 0.1)]
  match ← searchName? lineSearch? with
  | some name => return [("line_search", .text name)]
  | none => return []

/-- The stopping criterion of a kind, or a number of steps. Distances need a known minimum. -/
def criterion (kind : String) (eps : R) (limit : Int) (problem? : Option (Problem R)) :
    Attempt R (Criterion R) := do
  let primary ← match kind with
    | "grad_norm" => Criterion.gradientNorm? eps
    | "f_dist" =>
      match problem?.bind Problem.leastValue? with
      | some least => Criterion.valueDistance? least eps false
      | none => throw (.configuration .leastValueNeeded)
    | "x_dist" =>
      match problem?.bind Problem.minimum? with
      | some minimum => Criterion.pointDistance? minimum eps false
      | none => throw (.configuration .minimumNeeded)
    | _ => throw (.configuration (.stopKindUnknown kind))
  let steps ← Criterion.iterations? (.whole limit)
  return Criterion.join .any primary steps

def usesLineSearch (method : String) : Attempt R Bool := do
  return ((← Offer.find? method).method : Method R).usesLineSearch

/-- What a plan orders from a method. A method with a criterion of its own gets the limit of steps
as an option. No run takes more steps than the limit. -/
def order (p : Plan R) (m : Method R) (problem : Problem R) : Attempt R (Solver.Order R) := do
  let given ← options p.method p.eps p.lineSearch?
  let start := p.start?.getD problem.start
  if m.hasCriterion then
    return {
      start
      options := Options.update [("max_iter", .whole p.limit)] given
      elapsed? := p.elapsed?
      horizon := p.limit.toNat }
  let c ← criterion p.stopKind p.eps p.limit (some problem)
  return {
    start
    options := given
    criterion? := some c
    elapsed? := p.elapsed?
    horizon := p.limit.toNat }

/-- What came of a plan. Events and what was watched are there even if it failed. -/
structure Outcome (R σ : Type) where
  results : Attempt R (Results R)
  events : Array (Event R) := #[]
  seen : σ

def run (p : Plan R) (problem : Problem R) (visit : Snapshot R → Nat → σ → σ) (seen : σ) :
    Outcome R σ :=
  let ordered : Attempt R (Offer × Solver.Order R × Subject R) := do
    let offer ← Offer.find? p.method
    let order ← p.order offer.method problem
    return (offer, order, ← problem.subject?)
  match ordered with
  | .error e => { results := .error e, seen }
  | .ok (offer, order, f) =>
    let solver : Solver (offer.method : Method R) := { name := offer.solverName p.name? }
    let (results, (solver, seen)) := (Solver.solve f order visit).run.run (solver, seen)
    { results, events := solver.events, seen }

end Plan

end Minima
