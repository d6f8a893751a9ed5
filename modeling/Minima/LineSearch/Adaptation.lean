import Minima.LineSearch.Interval

/-!
# Step adaptation

From a starting point, walk in the direction in which the value falls, with growing steps, until it
rises or the interval ends; then refine the bracket so found by the golden section.
-/

namespace Minima.LineSearch

variable {R : Type} [Scalar R]

/-- The direction, `1` or `-1`, in which the first trial step finds a smaller value. -/
def fallingDirection? (s : Span R) (alpha0 h phi0 : R) : List R → Probe R (Option R)
  | [] => pure none
  | sign :: signs => do
    let trial := s.confine (alpha0 + sign * h)
    if trial == alpha0 then fallingDirection? s alpha0 h phi0 signs
    else
      let value ← Probe.valueAt trial
      if value < phi0 then return some sign else fallingDirection? s alpha0 h phi0 signs

/-- Walk on from `curr`, the value there being `fCurr`, with steps that grow by `expand`. The
bracket ends at the border of the interval or where the value no longer falls; when the iterations
are used up it is the one given. -/
def expandLoop (s : Span R) (direction expand : R) : (fuel : Nat) → (count : Nat) →
    (bracket : Span R) → (h prev curr fCurr : R) → Probe R (Span R × Nat)
  | 0, count, bracket, _, _, _, _ => pure (bracket, count)
  | fuel + 1, count, bracket, h, prev, curr, fCurr => do
    let h' := h * expand
    let next := curr + direction * h'
    if next < s.left ∨ s.right < next then
      return (if (0.0 : R) < direction then ⟨Scalar.lesser prev curr, s.right⟩
        else ⟨s.left, Scalar.greater prev curr⟩, count + 1)
    let fNext ← Probe.valueAt next
    if fCurr ≤ fNext then return (Span.between prev next, count + 1)
    expandLoop s direction expand fuel (count + 1) bracket h' curr next fNext

/-- The bracket in which the golden section is to search; `none` if no first step falls. -/
def bracket? (s : Span R) (limit : Nat) (alpha0 h expand : R) :
    Probe R (Option (Span R) × Nat) := do
  let phi0 ← Probe.valueAt alpha0
  match ← fallingDirection? s alpha0 h phi0 [1.0, -1.0] with
  | none => return (none, 0)
  | some direction =>
    let curr := s.confine (alpha0 + direction * h)
    let fCurr ← Probe.valueAt curr
    let (found, count) ←
      expandLoop s direction expand limit 0 (Span.between alpha0 curr) h alpha0 curr fCurr
    return (some found, count)

/-- Step adaptation. The options are the starting point, the first step and its growth. -/
def stepAdaptation (s : Span R) (tol : R) (limit : Nat) (options : Options R) :
    Probe R (Outcome R) := do
  let start ← options.realD "alpha0" s.left
  let alpha0 := s.confine start
  let half := 0.5 * s.width
  let given ← options.realD "initial_step" half
  let h := if given ≤ 0.0 then half else given
  let growth ← options.realD "expand_factor" 2.0
  let expand := if growth ≤ 1.0 then 2.0 else growth
  let (found, count) ← bracket? s limit alpha0 h expand
  let bracket := found.getD s
  let inner ← goldenSection bracket tol limit
  return { inner with
    iterations := count + inner.iterations
    method := .stepAdaptation
    extra := .bracket found.isNone bracket.left bracket.right }

end Minima.LineSearch
