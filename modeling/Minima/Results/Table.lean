import Minima.Digits.Style
import Minima.Results.Summary
import Minima.Scalar.Double
import Minima.Widget

/-!
# Summaries on the screen

A row for each run, in the order of the summary, and a line about the best of them.
-/

namespace Minima

/-- Why a run ended, told to a user, from what it was stopped by. -/
def reasonText (stoppedBy : String) : String :=
  if stoppedBy.isEmpty then "Невідомо"
  else if stoppedBy == "method:" ++ Status.success.code then "Вбудований критерій методу виконано"
  else if stoppedBy == "method:" ++ Status.noProgress.code then
    "Метод не може зменшити f (стагнація)"
  else if stoppedBy == "method:" ++ Status.outOfControl.code then
    "Розбіжність (inf / NaN або вихід за межі)"
  else "Зовнішній критерій: " ++ stoppedBy

def Entry.cells (e : Entry Float) : List Cell := [
  { text := e.method },
  { text := e.status.name, colour? := some (Theme.statusColour e.status) },
  { text := scientificText 6 e.value },
  { text := "[" ++ ", ".intercalate (e.point.toList.map (fixedText 4)) ++ "]" },
  { text := toString e.iterations },
  { text := toString e.evaluations.values },
  { text := toString e.evaluations.gradients },
  { text := toString e.evaluations.hessians },
  { text := (e.elapsed?.map (fixedText 4)).getD "" },
  { text := reasonText e.stoppedBy }]

namespace Summary

def cells (s : Summary Float) : List (List Cell) := s.map Entry.cells

def bestText (s : Summary Float) : String :=
  match s.best? with
  | none => "Найкращий за f*: —"
  | some e => "Найкращий за f*: " ++ e.method ++ ", f* = " ++ scientificText 6 e.value

end Summary

end Minima
