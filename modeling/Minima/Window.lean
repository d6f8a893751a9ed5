import Minima.Controls
import Minima.Failure.Wording
import Minima.Gallery
import Minima.History
import Minima.Notice

/-!
# The window

The state of the window: its controls, the history and the charts of the last run, the counters
below them and the line at the bottom. Notices are collected in the order in which they come up.
-/

namespace Minima

structure Window where
  controls : Controls
  /-- What the clock shows for a timed run. -/
  clock : Float
  history : History Float := {}
  gallery : Gallery := .initial
  /-- The run whose counters are shown. -/
  results? : Option (Results Float) := none
  /-- The status whose colour the last counter has taken. -/
  tint? : Option Status := none
  /-- The line at the bottom. -/
  message : String := "Готово"
  notices : Array Notice := #[]

namespace Window

def initial (first : Problem Float) (others : List (Problem Float)) (clock : Float) : Window where
  controls := .initial first others
  clock

/-- The window at the beginning, for problems of which there has to be one. -/
def ofProblems? (problems : List (Problem Float)) (clock : Float) : Attempt Float Window :=
  match problems with
  | [] => throw .indexOutOfRange
  | first :: others => pure (initial first others clock)

/-- Put a text on the line at the bottom. -/
def say (w : Window) (text : String) : Window := { w with message := text }

def notify (w : Window) (n : Notice) : Window := { w with notices := w.notices.push n }

/-- Bring the window up. -/
def appear (w : Window) : Window := w.notify (.shown .window)

def takeNotices (w : Window) : Array Notice × Window := (w.notices, { w with notices := #[] })

def close (w : Window) : Window := w.notify (.closed .window)

def tellAbout (w : Window) : Window := w.notify (.dialog Notice.about)

def modifyControls (w : Window) (f : Controls → Controls) : Window :=
  { w with controls := f w.controls }

def turn (w : Window) (f : Page → Page) : Window :=
  { w with gallery := { w.gallery with page := f w.gallery.page } }

def complain (w : Window) (title text : String) : Window :=
  (w.notify (.failure title text)).say ("Помилка: " ++ text)

def refuse (w : Window) (f : Failure Float) : Window :=
  w.complain "Помилка конфігурації" f.message

/-- Take away everything that belongs to a run. -/
def clearRun (w : Window) : Window :=
  { w with history := .begin none, gallery := w.gallery.clear, results? := none }

/-- Take away everything that belongs to a run, when the user asks for it. -/
def clear (w : Window) : Window := w.clearRun.say "Очищено"

def endText (r : Results Float) : String :=
  r.solver ++ ": " ++ r.status.name ++ " (" ++ r.cause.text ++ "), ітерацій: " ++
    toString r.iterations ++ ", f* = " ++ scientificText 6 r.value ++ ", x* = (" ++
    PointText.write r.point ++ ")"

/-! ## Counters -/

/-- Shown in place of a counter that is not known. -/
def unknown : String := "–"

/-- The texts of the counters, and the name of the status. -/
def counters (w : Window) : List String :=
  let count (label : String) (n? : Option Nat) : String :=
    label ++ ": " ++ (n?.map toString).getD unknown
  let evaluations? := w.results?.map Results.evaluations
  let elapsed? := w.results?.bind Results.elapsed?
  [count "ітерацій" (w.results?.map Results.iterations),
    count "f" (evaluations?.map Evaluations.values),
    count "∇f" (evaluations?.map Evaluations.gradients),
    count "H" (evaluations?.map Evaluations.hessians),
    "час: " ++ (elapsed?.map fun t => fixedText 2 (t * 1e3) ++ " мс").getD unknown,
    (w.results?.map fun r => r.status.name).getD ""]

def statusStyle? (w : Window) : Option String := w.tint?.map Theme.statusStyle

def count (w : Window) (r : Results Float) : Window :=
  { w with results? := some r, tint? := some r.status }

end Window

end Minima
