import Minima.Window

/-!
# Runs in the window

A selection is checked and run, and the results are shown. While a single method runs, its steps go
into the history; of all methods the best run is shown, and then the summary of all of them.
-/

namespace Minima

/-- A change of the window that may fail. What has changed by then stays. -/
abbrev WindowChange := ExceptT (Failure Float) (StateM Window) Unit

namespace Window

def draw (d : Gallery.Drawing) : WindowChange :=
  ExceptT.mk fun w =>
    let (outcome, gallery) := d.run.run w.gallery
    (outcome, { w with gallery })

/-- Show the results of a run on a problem, and the history anew if it is not there yet. The start
and the value there are part of what is drawn if they are known. -/
def showResults (p : Problem Float) (r : Results Float) (start? : Option (Array Float))
    (initial? : Option Float) (refill : Bool) : WindowChange := do
  modify fun w =>
    { w with
      history := if refill then .ofResults r start? else w.history.mark r.status
      gallery := w.gallery.showValues r initial? }
  draw (Gallery.showPath p r start?)
  modify fun w => (w.count r).say (endText r)

def startOf (s : Selection Float) (p : Problem Float) : Array Float :=
  (s.start?.getD p.start).entries

/-- Run the selected method. Its steps go into the history. -/
def runSelected (s : Selection Float) (p : Problem Float) : WindowChange := do
  let start := startOf s p
  let w ← get
  let (_, outcome) :=
    s.run w.controls.problems (fun v k h => h.add v k) (History.begin (some start))
  modify fun w => { w with history := outcome.seen }
  match outcome.results with
  | .ok r => showResults p r (some start) (← p.valueInDomain? start) false
  | .error e =>
    if e.kind == .configuration then modify fun w => w.refuse e
    else if e.isOfDomain then
      modify fun w => w.complain "Помилка під час оптимізації"
        ("Під час виконання методу '" ++ s.method ++ "' виникла помилка:\n\n" ++ e.message)
    else throw e

def bestText (best? : Option (Results Float)) : String :=
  match best? with
  | some r =>
    "Найкращий метод за f*: " ++ r.solver ++ ", f* = " ++ scientificText 6 r.value
  | none => "Не вдалося визначити найкращий метод (немає скінченних результатів)."

def runSeries (s : Selection Float) (p : Problem Float) : WindowChange := do
  let start := startOf s p
  let (outcome, series) := s.runAll (← get).controls.problems
  let _ ← outcome
  if series.results.isEmpty then
    modify fun w => w.complain "Немає даних для зведеної таблиці"
      ("Жоден із методів не завершився коректно. " ++
        "Перевірте початкову точку, eps та інші параметри.")
  else
    if let some best := series.best? then
      showResults p best (some start) (← p.valueInDomain? start) true
    modify fun w => (w.notify (.summary series.summary)).say (bestText series.best?)

def run (s : Selection Float) : WindowChange := do
  match s.check (← get).controls.problems with
  | .error e =>
    if e.kind == .configuration then modify fun w => w.refuse e else throw e
  | .ok p => if s.all then runSeries s p else runSelected s p

/-- What is said about a run that is about to begin. -/
def beginText (s : Selection Float) : String :=
  let start := match s.start? with
    | none => "x₀ задачі"
    | some x => "x₀=(" ++ PointText.write x.entries ++ ")"
  "Запуск: " ++ s.problem ++ ", " ++ (if s.all then "усі методи" else s.method) ++ ", " ++ start

def runControls : WindowChange := do
  let w ← get
  match w.controls.selection w.clock with
  | .error e => if e.kind == .configuration then modify fun w => w.refuse e else throw e
  | .ok s =>
    modify fun w => w.clearRun.say (beginText s)
    run s

end Window

end Minima
