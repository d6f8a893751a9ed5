import Minima.Gallery
import Minima.Widget

/-!
# The gallery on the screen

A choice of the page and two buttons that turn pages, above the charts.
-/

namespace Minima.Gallery

def turnWidth : String × Setting Float := Widget.wholeIs "fixedWidth" 34

def canvas : Widget := .plain .canvas [Widget.styled "background-color: transparent;"] []

def widget (g : Gallery) : Widget :=
  .plain .gallery [Widget.textIs "objectName" "plotView", Widget.styled (Theme.card "plotView")] [
    .plain .column [Widget.usualMargins, Widget.usualGaps] [
      .plain .row [Widget.usualGaps] [
        .label "Графік:" [],
        .choice (Page.all.map fun page => (page.title, none)) g.page.index [],
        .button "◀" [turnWidth],
        .button "▶" [turnWidth]],
      .plain .stack [] (Page.all.map fun _ => canvas)]]

end Minima.Gallery
