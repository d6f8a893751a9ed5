import Minima.Criterion.Wording
import Minima.Digits.Aligned
import Minima.Event
import Minima.Failure.Wording
import Minima.Journal

/-!
# The wording of the journal

What is written about the events of a run, by which logger and at which level.
-/

namespace Minima

structure Message where
  logger : String
  level : Int
  text : String

namespace Event

def ofSolver (level : Int) (text : String) : Message :=
  { logger := "optimkit.core.solver", level, text }

def message : Event Float → Message
  | .startNotFinite solver =>
    ofSolver 30 (solver ++ ": f(x0) не скінченне, запуск неможливий.")
  | .setUp solver start value =>
    ofSolver 10 (solver ++ ": setup x0=" ++ Aligned.vectorText start ++ " f0=" ++
      generalText 6 value)
  | .absorbed solver k failure =>
    ofSolver 10 (solver ++ ": числова помилка на кроці " ++ toString k ++ ": " ++ failure.mention)
  | .stepped solver k value length status =>
    ofSolver 10 (solver ++ ": k=" ++ toString k ++ " f=" ++ generalText 6 value ++ " ‖x‖=" ++
      generalText 3 length ++ " status=" ++ status.name)
  | .succeeded r =>
    ofSolver 20 (r.solver ++ ": " ++ r.cause.text ++ " за " ++ toString r.iterations ++
      " ітер. (f=" ++ toString r.evaluations.values ++ ", ∇f=" ++
      toString r.evaluations.gradients ++ ", H=" ++ toString r.evaluations.hessians ++ "), f*=" ++
      generalText 6 r.value)
  | .ended r =>
    ofSolver 30 (r.solver ++ ": запуск завершився зі статусом " ++ r.status.name ++ " після " ++
      toString r.iterations ++ " ітер., f=" ++ generalText 6 r.value)
  | .failed method lineSearch problem failure =>
    { logger := "optimkit.core.runs"
      level := 30
      text := "Метод " ++ method ++ " (line_search=" ++ lineSearch ++ ") для " ++ problem ++
        " завершився помилкою: " ++ failure.message }

end Event

namespace Journal

def record (events : Array (Event Float)) (j : Journal) : List Line × Journal :=
  events.foldl
    (fun (written, j) e =>
      let m := e.message
      let (more, j) := j.emit m.logger m.level m.text
      (written ++ more, j))
    ([], j)

def output (outlet : Outlet) (written : List Line) : String :=
  String.join ((written.filter (·.outlet == outlet)).map fun l => l.text ++ "\n")

end Journal

end Minima
