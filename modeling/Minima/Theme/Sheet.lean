import Minima.Theme

/-!
# Style sheets

A style sheet is a list of groups of rules. Its text begins on a new line, has its rules at one
indentation and an empty line between groups.
-/

namespace Minima

/-- A rule of a style sheet: what it applies to, and what it says about it. -/
structure Rule where
  selector : String
  declarations : List (String × String)

def Rule.declarationText (d : String × String) : String := d.1 ++ ": " ++ d.2 ++ ";"

/-- The text of a rule behind a margin. -/
def Rule.text (margin : String) (r : Rule) : String :=
  margin ++ r.selector ++ " \x7b\n" ++
    String.join (r.declarations.map fun d => margin ++ "    " ++ declarationText d ++ "\n") ++
    margin ++ "\x7d\n"

abbrev Sheet := List (List Rule)

/-- The text of a style sheet whose rules are indented by a number of blanks. -/
def Sheet.text (indent : Nat) (s : Sheet) : String :=
  let margin := "".pushn ' ' indent
  "\n" ++ "\n".intercalate (s.map fun group => String.join (group.map (Rule.text margin))) ++ "    "

namespace Theme

def outline (colour : String) : String × String := ("border", "1px solid " ++ colour)

def rounded : String × String := ("border-radius", toString radius ++ "px")

/-! ## The whole window -/

def baseRule : Rule where
  selector := "QWidget"
  declarations := [("background-color", palette.background), ("color", palette.textMain),
    ("font-family", "\"" ++ fontFamily ++ "\""), ("font-size", toString fontSize ++ "pt")]

def groupRules : List Rule := [
  { selector := "QGroupBox"
    declarations := [("background-color", palette.surface), outline palette.border, rounded,
      ("margin-top", "14px")] },
  { selector := "QGroupBox::title"
    declarations := [("subcontrol-origin", "margin"), ("left", "8px"), ("padding", "0 4px"),
      ("color", palette.accent), ("font-weight", "600")] }]

def barRules : List Rule := [
  { selector := "QMenuBar, QStatusBar"
    declarations := [("background-color", palette.surface), ("color", palette.textMuted)] },
  { selector := "QMenu::item:selected, QMenuBar::item:selected"
    declarations := [("background-color", palette.accent), ("color", palette.textInverse)] }]

def buttonRules : List Rule := [
  { selector := "QPushButton"
    declarations := [("background-color", palette.accent), ("color", palette.textInverse),
      outline palette.accent, rounded, ("padding", "6px 12px"), ("font-weight", "600")] },
  { selector := "QPushButton:hover"
    declarations := [("background-color", palette.accentAlt),
      ("border-color", palette.accentAlt)] },
  { selector := "QPushButton:disabled"
    declarations := [("background-color", palette.surfaceAlt), ("color", palette.textMuted),
      ("border-color", palette.border)] }]

def fieldRules : List Rule := [
  { selector := "QLineEdit, QSpinBox, QDoubleSpinBox, QComboBox"
    declarations := [("background-color", palette.surfaceAlt), outline palette.border, rounded,
      ("padding", "5px 7px")] },
  { selector := "QLineEdit:focus, QSpinBox:focus, QDoubleSpinBox:focus, QComboBox:focus"
    declarations := [outline palette.accent] }]

def checkRules : List Rule := [
  { selector := "QCheckBox::indicator"
    declarations := [("width", "15px"), ("height", "15px"), ("border-radius", "3px"),
      outline palette.border, ("background", palette.surfaceAlt)] },
  { selector := "QCheckBox::indicator:checked"
    declarations := [("background", palette.accent), ("border-color", palette.accent)] }]

def tableRules : List Rule := [
  { selector := "QTableWidget"
    declarations := [("background-color", palette.surface),
      ("alternate-background-color", palette.surfaceAlt), outline palette.border, rounded,
      ("gridline-color", palette.border), ("selection-background-color", palette.accent),
      ("selection-color", palette.textInverse)] },
  { selector := "QHeaderView::section"
    declarations := [("background-color", palette.surfaceAlt), ("padding", "5px"),
      ("border", "none"), ("border-right", "1px solid " ++ palette.border),
      ("font-weight", "600")] }]

def aboutRule : Rule where
  selector := "QFrame#aboutColumn"
  declarations := [("background-color", palette.surface), outline palette.border, rounded]

def hintRule : Rule where
  selector := "QToolTip"
  declarations := [("background-color", palette.surfaceAlt), ("color", palette.textMain),
    outline palette.border, ("padding", "5px")]

def sheet : String :=
  Sheet.text 4 [[baseRule], groupRules, barRules, buttonRules, fieldRules, checkRules, tableRules,
    [aboutRule], [hintRule]]

/-! ## Single widgets -/

def secondaryButton : String :=
  Sheet.text 8 [[
    { selector := "QPushButton"
      declarations := [("background-color", palette.surfaceAlt), ("color", palette.textMain),
        outline palette.border] },
    { selector := "QPushButton:hover"
      declarations := [("border-color", palette.accent)] }]]

/-- The style of a widget of a name that looks like a card. -/
def card (name : String) : String :=
  Sheet.text 8 [[
    { selector := "QWidget#" ++ name
      declarations := [("background-color", palette.surface), outline palette.border, rounded] }]]

/-- The style of a text that stays in the background. -/
def muted : String := Rule.declarationText ("color", palette.textMuted)

def statusStyle (s : Status) : String :=
  Rule.declarationText ("color", statusColour s) ++ " " ++
    Rule.declarationText ("font-weight", "600")

end Theme

end Minima
