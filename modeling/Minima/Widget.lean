import Minima.Setting
import Minima.Theme.Sheet

/-!
# Widgets

A window is described as a tree of widgets. Every widget has named properties; layouts are widgets
too, and may hold empty space between the others.
-/

namespace Minima

/-- The kinds of widgets, and of the layouts, bars and menus that hold them. -/
inductive WidgetKind where
  | window
  | controls
  | history
  | gallery
  | about
  | plain
  | group
  | row
  | column
  | splitter
  | stack
  | frame
  | label
  | choice
  | entry
  | decimals
  | wholes
  | check
  | button
  | buttons
  | grid
  | canvas
  | menuBar
  | menu
  | action
deriving DecidableEq, Repr

def WidgetKind.className : WidgetKind → String
  | .window => "MainWindow"
  | .controls => "ControlPanelWidget"
  | .history => "IterationsTableWidget"
  | .gallery => "PlotView"
  | .about => "AboutDialog"
  | .plain => "QWidget"
  | .group => "QGroupBox"
  | .row => "QHBoxLayout"
  | .column => "QVBoxLayout"
  | .splitter => "QSplitter"
  | .stack => "QStackedWidget"
  | .frame => "QFrame"
  | .label => "QLabel"
  | .choice => "QComboBox"
  | .entry => "QLineEdit"
  | .decimals => "QDoubleSpinBox"
  | .wholes => "QSpinBox"
  | .check => "QCheckBox"
  | .button => "QPushButton"
  | .buttons => "QDialogButtonBox"
  | .grid => "QTableWidget"
  | .canvas => "FigureCanvasQTAgg"
  | .menuBar => "QMenuBar"
  | .menu => "QMenu"
  | .action => "QAction"

structure Cell where
  text : String
  colour? : Option String := none
  hint? : Option String := none
deriving DecidableEq, Repr

inductive WidgetContent where
  | nothing
  /-- Choices with the keys that they stand for, and the index of the current one. -/
  | choices (items : List (String × Option String)) (index : Nat)
  /-- A table with the properties of its headers. -/
  | table (columns rows : Options Float) (cells : List (List Cell))

/-- A widget, or empty space in a layout. -/
inductive Widget where
  | node (kind : WidgetKind) (properties : Options Float) (content : WidgetContent)
      (parts : List Widget)
  /-- Space that grows. -/
  | stretch (n : Nat)
  /-- Space of a fixed size. -/
  | spacing (n : Nat)

namespace Widget

def textIs (key text : String) : String × Setting Float := (key, .text text)

def wholeIs (key : String) (n : Nat) : String × Setting Float := (key, .whole n)

def wholesAre (key : String) (l : List Nat) : String × Setting Float :=
  (key, .items (l.map fun (n : Nat) => .whole n))

def flagIs (key : String) (b : Bool) : String × Setting Float := (key, .flag b)

def styled (style : String) : String × Setting Float := textIs "styleSheet" style

def margins (left top right bottom : Nat) : String × Setting Float :=
  wholesAre "contentsMargins" [left, top, right, bottom]

def usualMargins : String × Setting Float :=
  margins Theme.margin Theme.margin Theme.margin Theme.margin

def noMargins : String × Setting Float := margins 0 0 0 0

def gaps (n : Nat) : String × Setting Float := wholeIs "spacing" n

def usualGaps : String × Setting Float := gaps Theme.spacing

/-- A widget that shows nothing but its properties and parts. -/
def plain (kind : WidgetKind) (properties : Options Float) (parts : List Widget) : Widget :=
  node kind properties .nothing parts

def label (text : String) (more : Options Float) : Widget :=
  plain .label (textIs "text" text :: more) []

def mutedLabel (text : String) (more : Options Float) : Widget :=
  label text (styled Theme.muted :: more)

def button (text : String) (more : Options Float) : Widget :=
  plain .button (textIs "text" text :: more) []

def secondaryButton (text : String) : Widget := button text [styled Theme.secondaryButton]

def choice (items : List (String × Option String)) (index : Nat) (properties : Options Float) :
    Widget :=
  node .choice properties (.choices items index) []

/-- A check box; whether it is checked is a property once it has been. -/
def check (text : String) (checked : Bool) : Widget :=
  plain .check (textIs "text" text :: if checked then [flagIs "checked" true] else []) []

def group (title : String) (parts : List Widget) : Widget :=
  plain .group [textIs "text" title, usualMargins, flagIs "flat" false]
    [plain .column [usualMargins, usualGaps] parts]

def rightAligned : String := "AlignRight|AlignVCenter"

def table (titles : List String) (more columns : Options Float) (cells : List (List Cell)) :
    Widget :=
  node .grid
    ([wholeIs "columnCount" titles.length,
      ("horizontalHeaderLabels", .items (titles.map .text)), flagIs "alternatingRowColors" true] ++
        more)
    (.table
      ([flagIs "highlightSections" false, textIs "defaultAlignment" "AlignLeft|AlignVCenter"] ++
        columns)
      [flagIs "visible" false, wholeIs "defaultSectionSize" 22] cells)
    []

end Widget

end Minima
