import Minima.Chart
import Minima.Chart.Grid
import Minima.Results
import Minima.Scalar.Double

/-!
# The gallery of charts

Three pages show a run: the surface of the function with the path of the run on it, the values after
each step, and the level lines with the path. In one variable the graph of the function takes the
place of the level lines; in more than two only the values are shown.
-/

namespace Minima

inductive Page where
  | surface
  | values
  | levels
deriving DecidableEq, Repr

namespace Page

def all : List Page := [.surface, .values, .levels]

def key : Page → String
  | .surface => "surface"
  | .values => "fk"
  | .levels => "contour"

def title : Page → String
  | .surface => "Поверхня f(x₁, x₂)"
  | .values => "Графік f(k)"
  | .levels => "Рівні та траєкторія"

def index : Page → Nat
  | .surface => 0
  | .values => 1
  | .levels => 2

/-- The page after a page, the first one after the last. -/
def next : Page → Page
  | .surface => .values
  | .values => .levels
  | .levels => .surface

def previous : Page → Page
  | .surface => .levels
  | .values => .surface
  | .levels => .values

/-- What a page says before there is a run. -/
def placeholder : Page → String
  | .surface => "Поверхня з'явиться після запуску"
  | .values => "Графік f(k) з'явиться після запуску"
  | .levels => "Рівні функції з'являться після запуску"

end Page

/-- The charts, and the page that is shown. -/
structure Gallery where
  surface : Chart := { spatial := true }
  values : Chart := { spatial := false }
  levels : Chart := { spatial := false }
  page : Page := .surface

namespace Gallery

def chart (g : Gallery) : Page → Chart
  | .surface => g.surface
  | .values => g.values
  | .levels => g.levels

def modifyChart (g : Gallery) (page : Page) (f : Chart → Chart) : Gallery :=
  match page with
  | .surface => { g with surface := f g.surface }
  | .values => { g with values := f g.values }
  | .levels => { g with levels := f g.levels }

def say (g : Gallery) (page : Page) (text : String) : Gallery :=
  g.modifyChart page fun c => c.say text

/-- Show nothing but the placeholders. -/
def clear (g : Gallery) : Gallery := Page.all.foldl (fun g page => g.say page page.placeholder) g

def initial : Gallery := clear {}

/-- Clear the chart of a page, draw on it and put it on the screen. -/
def redraw (g : Gallery) (page : Page) (strokes : List Stroke) : Gallery :=
  g.modifyChart page fun c => (c.clear.add strokes).finish

/-! ## The values -/

/-- The strokes for values that are numbered from `first`; the scale is logarithmic if they are all
positive. -/
def valueStrokes (first : Nat) (values : List Float) (title : String) : List Stroke :=
  let numbers := (List.range values.length).map fun i => first + i
  let positive := values.all fun v => v.isFinite && decide (0.0 < v)
  [Chart.line
      [.setting (.items (numbers.map fun (k : Nat) => .whole k)), .row values]
      (Chart.dotted Theme.palette.accent (.real 1.4) 3)] ++
    (if positive then [Chart.written "set_yscale" "log"] else []) ++
    Chart.captions [("x", "k"), ("y", "f(xₖ)")] title

/-- Show the values of a run, with the one at the start if that is known. -/
def showValues (g : Gallery) (r : Results Float) (initial? : Option Float) : Gallery :=
  if r.history.isEmpty then g.say .values "Немає жодної ітерації"
  else
    let strokes := valueStrokes (if initial?.isSome then 0 else 1) (initial?.toList ++ r.values)
      (r.solver ++ ": " ++ r.status.name)
    { g.redraw .values strokes with page := .values }

/-! ## Paths in the plane -/

/-- How far charts reach beyond a path. -/
def padding : Float := 0.5

/-- The range of coordinates that a chart of a path shows. -/
def range (coordinates : List Float) : Float × Float :=
  let lo := leastOf coordinates
  let hi := greatestOf coordinates
  if hi - lo < 1e-9 then (lo - 1.0 - padding, hi + 1.0 + padding)
  else (lo - padding, hi + padding)

def along (trail : List (Array Float)) (axis : Nat) : List Float :=
  trail.map fun x => x[axis]?.getD Scalar.undefined

def gridAround (p : Problem Float) (trail : List (Array Float)) : Attempt Float (Grid Float) :=
  let side (axis : Nat) : Array Float :=
    let (a, b) := range (along trail axis)
    spaced a b 100
  Grid.sample p (side 0) (side 1)

/-- The values of a grid as arguments; those that are undefined are masked. -/
def gridArguments (g : Grid Float) : List Argument :=
  [.numbers g.firsts false, .numbers g.seconds false, .numbers g.heights true]

def levelStrokes (g : Grid Float) : List Stroke := [
  { verb := "contour"
    arguments := gridArguments g
    details := [Chart.wholeIs "levels" 18, Chart.textIs "colors" Theme.palette.textMuted,
      Chart.realIs "linewidths" 0.7] },
  { verb := "contourf"
    arguments := gridArguments g
    details := [Chart.wholeIs "levels" 18, Chart.textIs "cmap" "magma",
      Chart.realIs "alpha" 0.45] }]

def outline (s : Snapshot Float) (details : Options Float) : Stroke :=
  let closed := (s.rows.take 2).map fun l => Argument.row (l ++ l.take 1)
  Chart.line closed (Chart.coloured Theme.palette.warn :: details)

/-- The simplices of a run, the last one in a stronger line. -/
def simplexStrokes (r : Results Float) : List Stroke :=
  match (r.history.toList.filter fun s => 1 < s.pointCount).reverse with
  | [] => []
  | last :: before =>
    before.reverse.map
        (outline · [Chart.realIs "linewidth" 0.6, Chart.realIs "alpha" 0.25]) ++
      [outline last [Chart.realIs "linewidth" 1.6]]

/-- The path of a run with its two ends. -/
def pathStrokes (trail : List (Array Float)) : List Stroke :=
  let xs := along trail 0
  let ys := along trail 1
  let final (l : List Float) : Float := l.getLastD Scalar.undefined
  [Chart.line [.row xs, .row ys] (Chart.dotted Theme.palette.accent (.real 1.2) 3),
    Chart.point (xs.headD Scalar.undefined) (ys.headD Scalar.undefined) Theme.palette.accentAlt
      "s" 45 5,
    Chart.point (final xs) (final ys) Theme.palette.ok "*" 120 6]

def planeAxes : List (String × String) := [("x", "x₁"), ("y", "x₂")]

def surfaceStroke (g : Grid Float) : Stroke where
  verb := "plot_surface"
  arguments := gridArguments g
  details := [Chart.wholeIs "rstride" 2, Chart.wholeIs "cstride" 2, Chart.textIs "cmap" "magma",
    Chart.realIs "linewidth" 0.2, Chart.realIs "alpha" 0.85]

def raisedPathStrokes (trail : List (Array Float)) (heights : List Float) : List Stroke :=
  Chart.line [.row (along trail 0), .row (along trail 1), .row heights]
      (Chart.dotted Theme.palette.accent (.whole 2) 4) ::
    Chart.captions (planeAxes ++ [("z", "f")]) "Поверхня f(x₁, x₂) + траєкторія"

def heightsAt (p : Problem Float) (points : List (Array Float)) : Attempt Float (List Float) :=
  points.mapM p.finiteValue

/-- What is drawn, even if drawing fails in the end. -/
abbrev Drawing := ExceptT (Failure Float) (StateM Gallery) Unit

def showPlane (p : Problem Float) (r : Results Float) (trail : List (Array Float)) : Drawing := do
  let grid ← gridAround p trail
  modify fun g => g.redraw .levels
    (levelStrokes grid ++ simplexStrokes r ++ pathStrokes trail ++
      Chart.captions planeAxes "Рівні функції та траєкторія")
  modify fun g => g.modifyChart .surface fun c => c.clear.add [surfaceStroke grid]
  let heights ← heightsAt p trail
  modify fun g =>
    { g.modifyChart .surface fun c => (c.add (raisedPathStrokes trail heights)).finish with
      page := .levels }

/-! ## Paths on a line -/

def noSurface : String := "Поверхню можна показати лише для R²"

def noLevels : String := "Рівні доступні лише для задач в R¹ та R²"

def showLine (p : Problem Float) (trail : List (Array Float)) : Drawing := do
  let xs := along trail 0
  let lo := leastOf xs
  let hi := greatestOf xs
  let span := Scalar.greater (hi - lo) 1.0
  let grid := spaced (lo - padding * span) (hi + padding * span) 400
  let values ← heightsAt p (grid.toList.map fun x => #[x])
  let heights ← heightsAt p trail
  modify fun g => g.redraw .levels (
    [Chart.line [.numbers (.ofArray grid) false, .row values]
        [Chart.coloured Theme.palette.textMuted, Chart.realIs "linewidth" 1.0],
      Chart.line [.row xs, .row heights] (Chart.dotted Theme.palette.accent (.real 1.0) 3),
      Chart.point (xs.getLastD Scalar.undefined) (heights.getLastD Scalar.undefined)
        Theme.palette.ok "*" 120 6] ++
      Chart.captions [("x", "x"), ("y", "f(x)")] "f(x) та траєкторія")
  modify fun g => { g.say .surface noSurface with page := .levels }

/-- Show the path of a run, from its start if that is known. -/
def showPath (p : Problem Float) (r : Results Float) (start? : Option (Array Float)) : Drawing := do
  match ← r.trail? start? with
  | [] => modify clear
  | x :: rest =>
    match x.size with
    | 1 => showLine p (x :: rest)
    | 2 => showPlane p r (x :: rest)
    | _ =>
      modify fun g => (g.say .levels noLevels).say .surface noSurface

end Gallery

end Minima
