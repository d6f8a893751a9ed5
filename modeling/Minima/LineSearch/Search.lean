import Minima.LineSearch.Adaptation
import Minima.LineSearch.Armijo
import Minima.LineSearch.Cubic

/-!
# Searching with a chosen method

`LineSearch.search` chooses the search by name and checks the interval.
-/

namespace Minima.LineSearch

variable {R : Type} [Scalar R]

structure Request (R : Type) where
  /-- The name of the search method. -/
  method : String := defaultKey
  left : R
  right : R
  tol : R
  limit : Int

def searchWith (kind : Kind) (s : Span R) (tol : R) (limit : Int) (options : Options R) :
    Probe R (Outcome R) :=
  match kind with
  | .armijo => armijo s limit options
  | .dichotomy => dichotomy s tol limit.toNat options
  | .intervalHalving => intervalHalving s tol limit.toNat
  | .goldenSection => goldenSection s tol limit.toNat
  | .stepAdaptation => stepAdaptation s tol limit.toNat options
  | .cubic => cubic s tol limit.toNat

/-- Search with the method of the given name. All but backtracking need an interval that is not
empty. -/
def search (request : Request R) (options : Options R) : Probe R (Outcome R) :=
  let name := if request.method == defaultKey then Kind.armijo.key else request.method
  match Kind.ofKey? name with
  | none => .fail (.configuration (.searchUnknown name))
  | some kind =>
    if kind ≠ .armijo ∧ ¬ request.left < request.right then
      .fail (.configuration (.emptyInterval request.left request.right))
    else
      withEvaluations
        (searchWith kind ⟨request.left, request.right⟩ request.tol request.limit options)

end Minima.LineSearch
