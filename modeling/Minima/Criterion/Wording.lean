import Minima.Digits.Style
import Minima.Results

/-!
# The wording of stopping criteria

A criterion is described by what it compares, and a run that ended by the description of what ended
it.
-/

namespace Minima

namespace Criterion

def relationText (relative : Bool) : String := if relative then " (відн.)" else " (абс.)"

/-- The word between combined criteria. -/
def Mode.joiner : Mode → String
  | .any => " або "
  | .all => " і "

mutual

def describe : Criterion Float → String
  | .gradientNorm t => "‖∇f‖ < " ++ generalText 6 t
  | .valueDistance _ t relative => "|f - f*| < " ++ generalText 6 t ++ relationText relative
  | .pointDistance _ t relative => "‖x - x*‖ < " ++ generalText 6 t ++ relationText relative
  | .iterations limit => "k ≥ " ++ toString limit
  | .custom name .. => name
  | .compound mode criteria => mode.joiner.intercalate (descriptions criteria)

def descriptions : List (Criterion Float) → List String
  | [] => []
  | c :: cs => c.describe :: descriptions cs

end

end Criterion

def StopCause.text : StopCause Float → String
  | .method status => "method:" ++ status.code
  | .criterion c => c.describe

end Minima
