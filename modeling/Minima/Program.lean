import Minima.Journal.Wording
import Minima.Window

/-!
# The program

The program begins with its journal at a level and its window in front of the user.
-/

namespace Minima

structure Program where
  journal : Journal
  window : Window

namespace Program

/-- The level of the journal if none is asked for. -/
def defaultLevel : String := "WARNING"

def loggerName : String := "optimkit.app"

/-- Begin with the level of a given name, and bring up the window. -/
def start (level? : Option String) : Attempt Float Program := do
  let level : Setting Float := .text (level?.getD defaultLevel)
  let journal ← Journal.initial.configure level "" .standardError
  let window ← Window.ofProblems? Catalogue.problems 0.0
  return { journal, window := window.appear }

/-- The level at which the program itself writes. -/
def level (p : Program) : Int := (p.journal.logger (some loggerName)).1.level

end Program

end Minima
