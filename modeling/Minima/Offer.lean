import Minima.Method.ConjugateGradient
import Minima.Method.GradientDescent
import Minima.Method.HookeJeeves
import Minima.Method.NelderMead
import Minima.Method.Newton
import Minima.Method.QuasiNewton
import Minima.Method.SteepestDescent

/-!
# Methods on offer

The methods that can be chosen by a key, each with a label to show.
-/

namespace Minima

inductive Offer where
  | gradientDescent
  | steepestDescent
  | conjugateGradient
  | fletcherReeves
  | polakRibiere
  | newton
  | quasiNewton
  | nelderMead
  | hookeJeeves
deriving DecidableEq, Repr

namespace Offer

/-- All choices, in the order in which they are shown. -/
def all : List Offer := [
  .gradientDescent, .steepestDescent, .conjugateGradient, .fletcherReeves, .polakRibiere, .newton,
  .quasiNewton, .nelderMead, .hookeJeeves]

/-- The choices that a series of runs takes. Conjugate gradients are offered under three names, of
which two stand for the same formula. -/
def series : List Offer := all.filter (· ≠ .conjugateGradient)

def key : Offer → String
  | .gradientDescent => "gradient_descent"
  | .steepestDescent => "steepest_descent"
  | .conjugateGradient => "conjugate_gradient"
  | .fletcherReeves => "fletcher_reeves"
  | .polakRibiere => "polak_ribiere"
  | .newton => "newton"
  | .quasiNewton => "bfgs"
  | .nelderMead => "nelder_mead"
  | .hookeJeeves => "hooke_jeeves"

def label : Offer → String
  | .gradientDescent => "Градієнтний спуск (фіксований крок)"
  | .steepestDescent => "Метод Коші"
  | .conjugateGradient => "Спряжені градієнти"
  | .fletcherReeves => "Метод Флетчера–Рівза"
  | .polakRibiere => "Метод Полака–Ріб'єра"
  | .newton => "Метод Ньютона"
  | .quasiNewton => "Метод BFGS"
  | .nelderMead => "Метод Нелдера–Міда"
  | .hookeJeeves => "Метод Хука–Дживса"

variable {R : Type} [Scalar R]

def method : Offer → Method R
  | .gradientDescent => GradientDescent.method
  | .steepestDescent => SteepestDescent.method
  | .conjugateGradient => ConjugateGradient.method none
  | .fletcherReeves => ConjugateGradient.method (some (.text ConjugateGradient.fletcherReeves))
  | .polakRibiere => ConjugateGradient.method (some (.text ConjugateGradient.polakRibiere))
  | .newton => Newton.method
  | .quasiNewton => QuasiNewton.method
  | .nelderMead => NelderMead.method
  | .hookeJeeves => HookeJeeves.method

def ofKey? (key : String) : Option Offer := all.find? (·.key == key)

def find? (key : String) : Attempt R Offer :=
  match ofKey? key with
  | some offer => pure offer
  | none =>
    throw (.configuration (.methodNotOffered key
      ((all.map Offer.key).mergeSort fun a b => decide (a ≤ b))))

/-- The name of a solver for the method: the given one, unless it is empty, or the label. -/
def solverName (o : Offer) (name? : Option String) : String :=
  match name? with
  | some name => if name.isEmpty then o.label else name
  | none => o.label

end Offer

end Minima
