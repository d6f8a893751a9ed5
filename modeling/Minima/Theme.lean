import Minima.Status

/-!
# The theme

Colours and measures of the window: dark, with one accent for what can be done and one colour for
each way in which a run can end.
-/

namespace Minima

structure Palette where
  background : String := "#111318"
  surface : String := "#181b22"
  surfaceAlt : String := "#20252e"
  textMain : String := "#e4e8ef"
  textMuted : String := "#8d97a8"
  textInverse : String := "#111318"
  accent : String := "#6cb8f0"
  accentAlt : String := "#9ad2ff"
  border : String := "#2b313c"
  ok : String := "#7ccf8a"
  warn : String := "#e8c26a"
  error : String := "#ef7a7a"

namespace Theme

def palette : Palette := {}

def margin : Nat := 10

def spacing : Nat := 8

def radius : Nat := 5

def fontFamily : String := "Montserrat"

def fontSize : Nat := 10

/-- The colours of the parts that the toolkit paints by itself. -/
def roles : List (String × String) := [
  ("Window", palette.background), ("Base", palette.surface), ("Text", palette.textMain),
  ("Button", palette.accent)]

def statusColour : Status → String
  | .running => palette.textMain
  | .success => palette.ok
  | .noProgress => palette.warn
  | .outOfControl => palette.error

end Theme

end Minima
