import Minima.Digits.Style
import Minima.History
import Minima.Widget

/-!
# The history on the screen

The texts of a row: points with six places, values and lengths with an exponent. Only the first two
components of a point have columns; if there are more, a hint shows them all.
-/

namespace Minima.History

def titles : List String := ["k", "статус", "x₁", "x₂", "f(x)", "‖Δx‖", "крок"]

/-- Shown in place of a number that is missing. -/
def missing : String := "—"

def lengthText (x? : Option Float) : String := (x?.map (scientificText 3)).getD missing

def statusCell : Option Status → Cell
  | none => { text := "" }
  | some s => { text := s.name, colour? := some (Theme.statusColour s) }

/-- The hint that shows a point whole, if the columns do not. -/
def pointHint? (point : Array Float) : Option String :=
  if point.size ≤ 2 then none
  else some ("x = [" ++ ", ".intercalate (point.toList.map (generalText 6)) ++ "]")

def componentCell (point : Array Float) (i : Nat) : Cell where
  text := (point[i]?.map (fixedText 6)).getD missing
  hint? := pointHint? point

def Row.cells (r : Row Float) : List Cell := [
  { text := toString r.k },
  statusCell r.status?,
  componentCell r.point 0,
  componentCell r.point 1,
  { text := scientificText 6 r.value },
  { text := lengthText r.moved? },
  { text := lengthText r.reach? }]

def cells (h : History Float) : List (List Cell) := h.rows.toList.map Row.cells

def widget (h : History Float) : Widget :=
  .plain .history [] [
    .plain .column [Widget.usualMargins, Widget.usualGaps] [
      .plain .row [Widget.noMargins] [
        .label "Історія станів" [],
        .stretch 1,
        .mutedLabel "k, статус, x, f(x), ‖Δx‖ та крок методу"
          [Widget.textIs "alignment" Widget.rightAligned]],
      .table titles
        [Widget.textIs "selectionBehavior" "SelectRows",
          Widget.textIs "selectionMode" "SingleSelection",
          Widget.textIs "editTriggers" "NoEditTriggers"]
        [("sectionResizeMode", .items [.whole 6, .text "ResizeToContents"])]
        h.cells]]

end Minima.History
