import Minima.Linear.Solve
import Minima.LineSearch.Interval

/-!
# Cubic interpolation

Four points with their values determine a cubic. Its minimum is added to them, and of the five the
four around the least value are kept.
-/

namespace Minima.LineSearch

variable {R : Type} [Scalar R]

/-- A step with the value there. -/
structure Sample (R : Type) where
  x : R
  y : R

namespace Sample

/-- Samples are ordered by step, and by value at equal steps. -/
def before (a b : Sample R) : Bool :=
  if a.x == b.x then if a.y == b.y then false else decide (a.y < b.y) else decide (a.x < b.x)

end Sample

/-- Four samples in ascending order. -/
abbrev Window (R : Type) := Vector (Sample R) 4

namespace Window

def span (w : Window R) : Span R := ⟨w[0].x, w[3].x⟩

/-- Does a sample lie within 1e-14 of `x`? -/
def near (w : Window R) (x : R) : Bool := w.any fun p => decide (Scalar.abs (x - p.x) < 1e-14)

def best (w : Window R) : Fin 4 :=
  let i := Linear.argmin (w.toList.map (·.y))
  if h : i < 4 then ⟨i, h⟩ else 0

/-- The coefficients of the cubic through the samples, the highest power first. -/
def coefficients? (w : Window R) : Option (Vector R 4) :=
  Linear.solve? (w.map fun p => #v[p.x * p.x * p.x, p.x * p.x, p.x, 1.0]) (w.map (·.y))

end Window

/-- The roots of `p x² + q x + r` as real and imaginary parts; leading zeros lower the degree, and
zeros at the end are roots zero. `none` if a ratio of coefficients is not finite. -/
def roots? (p q r : R) : Option (List (R × R)) :=
  let zero (x : R) : Bool := x == 0.0
  let linear (a b : R) : Option (List (R × R)) :=
    let x := -b / a
    if Scalar.isFinite x then some [(x, 0.0)] else none
  if zero p then
    if zero q then some []
    else if zero r then some [(0.0, 0.0)]
    else linear q r
  else if zero r then
    if zero q then some [(0.0, 0.0), (0.0, 0.0)]
    else (linear p q).map (· ++ [(0.0, 0.0)])
  else
    let b := -q / p
    let c := -r / p
    if Scalar.isFinite b && Scalar.isFinite c then
      let half := 0.5 * b
      let disc := half * half + c
      if disc < 0.0 then
        let im := Scalar.sqrt (-disc)
        some [(half, im), (half, -im)]
      else
        let z := if half < 0.0 then half - Scalar.sqrt disc else half + Scalar.sqrt disc
        some [(z, 0.0), (-c / z, 0.0)]
    else none

/-- The item with the least key, the first of several. -/
def leastBy {α : Type} (key : α → R) : List α → Option α
  | [] => none
  | a :: rest => some (rest.foldl (fun best b => if key b < key best then b else best) a)

/-- The minimum of the cubic inside the window that is nearest to the best sample; the outer `none`
means that there is no such cubic or that its roots cannot be found. -/
def stationaryPoint? (w : Window R) : Option (Option R) := do
  let coefficients ← w.coefficients?
  let a3 : R := coefficients[0]
  let a2 : R := coefficients[1]
  let roots ← roots? (3.0 * a3) (2.0 * a2) coefficients[2]
  let candidates := (roots.filter fun z =>
    decide (Scalar.abs z.2 < 1e-12) && decide (w[0].x < z.1) && decide (z.1 < w[3].x) &&
      decide (0.0 < 6.0 * a3 * z.1 + 2.0 * a2)).map (·.1)
  let target := w[w.best].x
  return leastBy (fun x => Scalar.abs (x - target)) candidates

/-- Five samples in ascending order, of which four are kept. -/
def merge (w : Window R) (p : Sample R) : Vector (Sample R) 5 :=
  ⟨((w.toList ++ [p]).mergeSort fun a b => !b.before a).toArray, by simp⟩

/-- Keep the four neighbours that contain the least value; of two choices the one that drops the
greater end. -/
def keepFour (v : Vector (Sample R) 5) : Window R :=
  let least := (leastBy (fun i : Fin 5 => v[i].y) (List.finRange 5)).getD 0
  let dropFirst := if least.val < 2 then false else if 2 < least.val then true
    else !decide (v[0].y < v[4].y)
  if dropFirst then #v[v[1], v[2], v[3], v[4]] else #v[v[0], v[1], v[2], v[3]]

/-- Where the refinement of a window ended. -/
inductive CubicEnd (R : Type) where
  | settled (w : Window R) (count : Nat)
  /-- There was no cubic to interpolate; `left` iterations remain. -/
  | degenerate (w : Window R) (count left : Nat)

/-- Refine a window while it is wider than `tol`, at most `fuel` times. A point that is already
there is replaced by the middle, and if that is there too the refinement ends. -/
def cubicLoop (tol : R) : (fuel : Nat) → (count : Nat) → Window R → Probe R (CubicEnd R)
  | 0, count, w => pure (.settled w count)
  | fuel + 1, count, w =>
    if tol < w.span.width then
      match stationaryPoint? w with
      | none => pure (.degenerate w (count + 1) fuel)
      | some found =>
        let usable := found.filter fun x => !w.near x
        let point := usable.getD w.span.middle
        if usable.isNone && w.near point then pure (.settled w (count + 1))
        else do
          let value ← Probe.valueAt point
          cubicLoop tol fuel (count + 1) (keepFour (merge w ⟨point, value⟩))
    else pure (.settled w count)

/-- Four equally spaced points of an interval, with their values. -/
def cubicStart (s : Span R) : Probe R (Window R) := do
  let third := s.width / 3.0
  let x0 := 0.0 * third + s.left
  let x1 := 1.0 * third + s.left
  let x2 := 2.0 * third + s.left
  let x3 := s.right
  let y0 ← Probe.valueAt x0
  let y1 ← Probe.valueAt x1
  let y2 ← Probe.valueAt x2
  let y3 ← Probe.valueAt x3
  return #v[⟨x0, y0⟩, ⟨x1, y1⟩, ⟨x2, y2⟩, ⟨x3, y3⟩]

def cubic (s : Span R) (tol : R) (limit : Nat) : Probe R (Outcome R) := do
  let w ← cubicStart s
  match ← cubicLoop tol limit 0 w with
  | .settled w count =>
    let best := w[w.best]
    return {
      alpha := best.x
      value := best.y
      iterations := count
      evaluations := 0
      method := .cubic
      left := w.span.left
      right := w.span.right
      stop := if w.span.width ≤ tol then .tolerance else .iterationLimit
      extra := .nothing }
  | .degenerate w count left =>
    let inner ← goldenSection w.span tol left
    return { inner with
      iterations := count + inner.iterations
      method := .cubic
      extra := .fallback }

end Minima.LineSearch
