import Minima.Gallery.View
import Minima.History.Cells
import Minima.Window

/-!
# The window on the screen

The controls are on the left, the gallery above the history on the right, and the counters below.
-/

namespace Minima.Window

def title : String := "optimkit — мінімізація функцій"

def counterRow (w : Window) : Widget :=
  let texts := w.counters
  let style := w.statusStyle?.toList.map Widget.styled
  .plain .row [Widget.gaps (Theme.spacing * 2)] (
    ((texts.take 5).map fun text => .mutedLabel text []) ++
      [.stretch 1, .label (texts.getLastD "") style])

/-- The gallery above the history and the counters. -/
def resultsColumn (w : Window) : Widget :=
  .plain .plain [Widget.wholeIs "minimumWidth" 760] [
    .plain .column [Widget.noMargins] [
      .plain .splitter [
        Widget.textIs "arg" "Vertical",
        Widget.wholeIs "handleWidth" 6,
        Widget.wholesAre "stretchFactor" [1, 2]] [
        w.gallery.widget,
        .plain .plain [] [
          .plain .column [Widget.noMargins, Widget.usualGaps] [w.history.widget, w.counterRow]]]]]

def sideWidget (w : Window) : Widget := w.controls.widget [Widget.wholeIs "minimumWidth" 380]

def widget (w : Window) : Widget :=
  .plain .window [
    Widget.textIs "windowTitle" title,
    Widget.wholesAre "size" [1400, 880],
    Widget.textIs "statusBar" "QStatusBar",
    Widget.textIs "centralWidget" WidgetKind.plain.className] [
    .plain .plain [] [
      .plain .row [Widget.usualMargins, Widget.usualGaps] [w.sideWidget, w.resultsColumn]]]

def menus : Widget :=
  let action (text : String) (more : Options Float) : Widget :=
    .plain .action (Widget.textIs "text" text :: more) []
  let menu (text : String) (actions : List Widget) : Widget :=
    .plain .menu [Widget.textIs "text" text] actions
  .plain .menuBar [] [
    menu "Файл" [action "Вихід" [Widget.textIs "shortcut" "Ctrl+Q"]],
    menu "Довідка" [action "Про програму" []]]

end Minima.Window
