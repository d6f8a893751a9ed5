import Minima.LineSearch.Basic

/-!
# Searches that shrink an interval

Dichotomy, halving and the golden section keep an interval and drop a part of it by comparing values
inside, until it is no wider than the tolerance or the iterations are used up.
-/

namespace Minima.LineSearch

variable {R : Type} [Scalar R]

/-- Shrink an interval by a step while it is wider than `tol`, at most `fuel` times; `count` is the
number of steps so far. -/
def shrinkLoop (step : Span R → Probe R (Span R)) (tol : R) :
    (fuel : Nat) → (count : Nat) → Span R → Probe R (Span R × Nat)
  | 0, count, s => pure (s, count)
  | fuel + 1, count, s =>
    if tol < s.width then do
      let s' ← step s
      shrinkLoop step tol fuel (count + 1) s'
    else pure (s, count)

/-! ## Dichotomy -/

/-- Compare two points at the distance `delta` from the middle, or a quarter of the width if that
is less, and drop what lies beyond the greater value. -/
def dichotomyStep (delta : R) (s : Span R) : Probe R (Span R) := do
  let mid := s.middle
  let d := Scalar.lesser delta (0.25 * s.width)
  let before ← Probe.valueAt (mid - d)
  let after ← Probe.valueAt (mid + d)
  if before < after then return ⟨s.left, mid + d⟩ else return ⟨mid - d, s.right⟩

/-- Dichotomy. The option `delta` defaults to a quarter of the tolerance. -/
def dichotomy (s : Span R) (tol : R) (limit : Nat) (options : Options R) :
    Probe R (Outcome R) := do
  let given ← options.realD "delta" (0.25 * tol)
  let delta := if given ≤ 0.0 then 1e-8 else given
  let (s', count) ← shrinkLoop (dichotomyStep delta) tol limit 0 s
  finish .dichotomy tol (.offset delta) s' count

/-! ## Halving -/

/-- Compare the values at one, two and three quarters; half of the interval remains. -/
def halvingStep (s : Span R) : Probe R (Span R) := do
  let quarter := 0.25 * s.width
  let x1 := s.left + quarter
  let mid := s.left + 2.0 * quarter
  let x2 := s.left + 3.0 * quarter
  let f1 ← Probe.valueAt x1
  let fm ← Probe.valueAt mid
  let f2 ← Probe.valueAt x2
  if f1 < fm then return ⟨s.left, mid⟩
  else if f2 < fm then return ⟨mid, s.right⟩
  else return ⟨x1, x2⟩

def intervalHalving (s : Span R) (tol : R) (limit : Nat) : Probe R (Outcome R) := do
  let (s', count) ← shrinkLoop halvingStep tol limit 0 s
  finish .intervalHalving tol .nothing s' count

/-! ## Golden section -/

/-- The golden section `(√5 - 1) / 2`. -/
def golden : R := (Scalar.sqrt 5.0 - 1.0) / 2.0

/-- Its square, `(3 - √5) / 2`. -/
def goldenSquare : R := (3.0 - Scalar.sqrt 5.0) / 2.0

/-- The interval with its two inner points and the values there. -/
structure GoldenState (R : Type) where
  span : Span R
  c : R
  d : R
  fc : R
  fd : R

/-- The inner points at the shares `goldenSquare` and `golden` of the width. -/
def innerLeft (s : Span R) : R := s.left + goldenSquare * s.width

@[inherit_doc innerLeft] def innerRight (s : Span R) : R := s.left + golden * s.width

def goldenStart (s : Span R) : Probe R (GoldenState R) := do
  let c := innerLeft s
  let d := innerRight s
  let fc ← Probe.valueAt c
  let fd ← Probe.valueAt d
  return ⟨s, c, d, fc, fd⟩

/-- Drop a part of the interval. One inner point stays with its value, so one new value is
needed. -/
def goldenStep (g : GoldenState R) : Probe R (GoldenState R) := do
  if g.fc < g.fd then
    let s : Span R := ⟨g.span.left, g.d⟩
    let c := innerLeft s
    let fc ← Probe.valueAt c
    return ⟨s, c, g.c, fc, g.fc⟩
  else
    let s : Span R := ⟨g.c, g.span.right⟩
    let d := innerRight s
    let fd ← Probe.valueAt d
    return ⟨s, g.d, d, g.fd, fd⟩

/-- Take steps while the interval is wider than `tol`, at most `fuel` of them. -/
def goldenLoop (tol : R) : (fuel : Nat) → (count : Nat) → GoldenState R → Probe R (Span R × Nat)
  | 0, count, g => pure (g.span, count)
  | fuel + 1, count, g =>
    if tol < g.span.width then do
      let g' ← goldenStep g
      goldenLoop tol fuel (count + 1) g'
    else pure (g.span, count)

def goldenSection (s : Span R) (tol : R) (limit : Nat) : Probe R (Outcome R) := do
  let g ← goldenStart s
  let (s', count) ← goldenLoop tol limit 0 g
  finish .goldenSection tol .nothing s' count

end Minima.LineSearch
