import Minima.Setting
import Minima.Tensor
import Minima.Theme

/-!
# Charts

A chart is the record of the strokes that were drawn since it was last cleared. A stroke has a name,
arguments and named details, as the library that draws it takes them. Every clearing is followed by
the strokes that give a chart its look.
-/

namespace Minima

inductive Argument where
  | setting (s : Setting Float)
  /-- Numbers, of which those that are not finite may be masked. -/
  | numbers (t : Tensor Float) (masked : Bool)

structure Stroke where
  verb : String
  arguments : List Argument := []
  details : Options Float := []

structure Chart where
  /-- Does the chart show space, or a plane? -/
  spatial : Bool
  strokes : Array Stroke := #[]
  /-- How often the chart was put on the screen. -/
  draws : Nat := 0
  /-- How often its parts were arranged. -/
  layouts : Nat := 0

namespace Argument

def text (s : String) : Argument := .setting (.text s)

def real (x : Float) : Argument := .setting (.real x)

def row (l : List Float) : Argument := .numbers (.ofArray l.toArray) false

end Argument

namespace Chart

/-- A stroke that takes a text. -/
def written (verb text : String) : Stroke := { verb, arguments := [.text text] }

def textIs (key text : String) : String × Setting Float := (key, .text text)

def realIs (key : String) (x : Float) : String × Setting Float := (key, .real x)

def wholeIs (key : String) (n : Nat) : String × Setting Float := (key, .whole n)

/-- The detail that gives a stroke its colour. -/
def coloured (colour : String) : String × Setting Float := textIs "color" colour

def background : String := Theme.palette.surfaceAlt

/-- The parts of a chart whose texts are in the main colour. -/
def texts : List String := ["title", "xaxis.label", "yaxis.label"]

def sides : List String := ["left", "right", "bottom", "top"]

def look (spatial : Bool) : List Stroke :=
  let colour (part text : String) : Stroke := written (part ++ ".set_color") text
  let common := [
    written "set_facecolor" background,
    { verb := "tick_params"
      details := [textIs "colors" Theme.palette.textMuted, wholeIs "labelsize" 8] }] ++
    texts.map fun part => colour part Theme.palette.textMain
  if spatial then common ++ [colour "zaxis.label" Theme.palette.textMain]
  else
    common ++ (sides.map fun side => colour ("spines." ++ side) Theme.palette.border) ++ [
      { verb := "grid"
        arguments := [.setting (.flag true)]
        details := [coloured Theme.palette.border, textIs "linestyle" "--",
          realIs "linewidth" 0.5, realIs "alpha" 0.6] }]

def clear (c : Chart) : Chart := { c with strokes := (look c.spatial).toArray }

def add (c : Chart) (strokes : List Stroke) : Chart :=
  { c with strokes := c.strokes ++ strokes.toArray }

def refresh (c : Chart) : Chart := { c with draws := c.draws + 1 }

/-- Arrange the parts of a chart and put it on the screen. -/
def finish (c : Chart) : Chart := { c.refresh with layouts := c.layouts + 1 }

def note (spatial : Bool) (text : String) : Stroke :=
  let centred := [textIs "ha" "center", textIs "va" "center"]
  let muted := coloured Theme.palette.textMuted
  if spatial then
    { verb := "text"
      arguments := [.real 0.5, .real 0.5, .real 0.5, .text text]
      details := centred ++ [muted] }
  else
    { verb := "text"
      arguments := [.real 0.5, .real 0.5, .text text]
      details := centred ++ [textIs "transform" "transAxes", muted] }

def say (c : Chart) (text : String) : Chart := (c.clear.add [note c.spatial text]).refresh

/-- A line through points that are given by the rows of their coordinates. -/
def line (coordinates : List Argument) (details : Options Float) : Stroke :=
  { verb := "plot", arguments := coordinates, details }

/-- The details of a line in a colour that marks its points. -/
def dotted (colour : String) (width : Setting Float) (size : Nat) : Options Float :=
  [textIs "marker" "o", ("linewidth", width), wholeIs "markersize" size, coloured colour]

def point (x y : Float) (colour marker : String) (size layer : Nat) : Stroke :=
  { verb := "scatter"
    arguments := [.real x, .real y]
    details := [coloured colour, textIs "marker" marker, wholeIs "s" size, wholeIs "zorder" layer] }

def captions (axes : List (String × String)) (title : String) : List Stroke :=
  (axes.map fun (axis, text) => written ("set_" ++ axis ++ "label") text) ++
    [written "set_title" title]

end Chart

end Minima
