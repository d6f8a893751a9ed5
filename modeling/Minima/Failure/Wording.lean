import Minima.Digits.Style
import Minima.Failure
import Minima.LineSearch.Basic
import Minima.Text.Quoted

/-!
# The wording of failures

What is said about a failure, in Ukrainian where the cause is one of this library's own.
-/

namespace Minima

mutual

def Setting.written : Setting Float → String
  | .absent => "None"
  | .flag b => if b then "True" else "False"
  | .whole i => toString i
  | .real x => shortText x
  | .text s => Text.quoted s
  | .items l => Text.bracketed (Setting.writtenItems l)

def Setting.writtenItems : List (Setting Float) → List String
  | [] => []
  | s :: rest => s.written :: Setting.writtenItems rest

end

/-- A setting as it is written outside of quotes. -/
def Setting.plain : Setting Float → String
  | .text s => s
  | s => s.written

def shapeText : List Nat → String
  | [k] => "(" ++ toString k ++ ",)"
  | shape => "(" ++ ", ".intercalate (shape.map toString) ++ ")"

def FailureKind.label : FailureKind → String
  | .configuration => "ConfigurationError"
  | .misuse => "SolverStateError"
  | .value => "ValueError"
  | .type => "TypeError"
  | .zeroDivision => "ZeroDivisionError"
  | .overflow => "OverflowError"
  | .floatingPoint => "FloatingPointError"
  | .linearAlgebra => "LinAlgError"
  | .arithmetic => "ArithmeticError"
  | .missingKey => "KeyError"
  | .missingAttribute => "AttributeError"
  | .notImplemented => "NotImplementedError"
  | .index => "IndexError"
  | .runtime => "RuntimeError"

namespace FailureKind

def all : List FailureKind := [
  .configuration, .misuse, .value, .type, .zeroDivision, .overflow, .floatingPoint, .linearAlgebra,
  .arithmetic, .missingKey, .missingAttribute, .notImplemented, .index, .runtime]

def ofLabel? (label : String) : Option FailureKind := all.find? (·.label == label)

end FailureKind

def OptionRange.complaint (owner key : String) : OptionRange → String
  | .positive => owner ++ ": " ++ key ++ " повинен бути додатним."
  | .notNegative => owner ++ ": " ++ key ++ " не може бути від'ємним."
  | .aboveOne => owner ++ ": " ++ key ++ " повинен бути > 1."
  | .atLeastOne => owner ++ ": " ++ key ++ " повинен бути >= 1."
  | .betweenZeroAndOne => owner ++ ": потрібно 0 < " ++ key ++ " < 1."

namespace ConfigurationFault

def searchNames : List String := LineSearch.Kind.all.map LineSearch.Kind.key

def message : ConfigurationFault Float → String
  | .dimensionNotPositive given =>
    "ObjectiveFunction: розмірність n повинна бути додатною, отримано " ++ given.plain ++ "."
  | .pointShape objective expected given =>
    objective ++ ": очікується точка розмірності " ++ shapeText [expected] ++ ", отримано " ++
      shapeText given ++ "."
  | .matrixNotSymmetric => "make_quadratic: A повинна бути симетричною матрицею n×n."
  | .matrixNotPositiveDefinite => "make_quadratic: A повинна бути додатно визначеною."
  | .boundShapes lower upper =>
    "BoundConstraints: lower " ++ shapeText lower ++ " і upper " ++ shapeText upper ++
      " повинні мати однакову форму."
  | .boundUndefined => "BoundConstraints: межі не можуть бути NaN."
  | .boundsCrossed => "BoundConstraints: потрібно lower <= upper."
  | .unknownOptions owner unknown allowed =>
    owner ++ ": непідтримувані параметри " ++ Text.quotedList unknown ++ ". Допустимі: " ++
      Text.quotedList allowed ++ "."
  | .optionOutOfRange owner key range => range.complaint owner key
  | .optionLineSearch owner given =>
    owner ++ ": невідомий метод одномірного пошуку " ++ given.written ++ "."
  | .optionBeta owner =>
    owner ++ ": beta_formula повинна бути 'fletcher_reeves' або 'polak_ribiere'."
  | .startNotVector owner shape =>
    owner ++ ": x0 повинен бути вектором, отримано масив форми " ++ shapeText shape ++ "."
  | .startSize owner given expected =>
    owner ++ ": розмірність x0 (" ++ toString given ++
      ") не збігається з розмірністю функції (" ++ toString expected ++ ")."
  | .startNotFinite owner => owner ++ ": x0 містить inf або NaN."
  | .regionSize owner given expected =>
    owner ++ ": розмірність обмежень (" ++ toString given ++
      ") не збігається з розмірністю функції (" ++ toString expected ++ ")."
  | .criterionMissing owner =>
    owner ++ ": метод не має вбудованого критерію зупинки, потрібно передати stop_crit."
  | .thresholdNotPositive criterion value =>
    criterion ++ ": поріг повинен бути додатним, отримано " ++ shortText value ++ "."
  | .gradientWithoutObjective => "GradNormTest: для обчислення ‖∇f‖ потрібна цільова функція."
  | .minimumShape expected given =>
    "XDistToMinTest: x_min має форму " ++ shapeText expected ++ ", а поточна точка — " ++
      shapeText given ++ "."
  | .limitNotPositive given =>
    "MaxNumIterTest: max_iter повинен бути додатним, отримано " ++ given.plain ++ "."
  | .noCriteria => "CompoundStoppingCriterion: порожній список критеріїв."
  | .unknownMode mode =>
    "CompoundStoppingCriterion: mode повинен бути 'any' або 'all', отримано " ++
      Text.quoted mode ++ "."
  | .searchUnknown name =>
    "Невідомий метод одномірного пошуку " ++ Text.quoted name ++ ". Доступні: " ++
      Text.quotedList searchNames ++ "."
  | .emptyInterval left right =>
    "line_search_1d: потрібно a < b, отримано [" ++ shortText left ++ ", " ++ shortText right ++
      "]."
  | .armijoMissing key =>
    "armijo_backtracking: у options бракує " ++ Text.quoted key ++
      " (потрібні 'f0' та 'directional_derivative')."
  | .armijoShrink tau =>
    "armijo_backtracking: потрібно 0 < tau < 1, отримано " ++ shortText tau ++ "."
  | .methodNotOffered key offered =>
    "Невідомий метод оптимізації " ++ Text.quoted key ++ ". Доступні: " ++
      Text.quotedList offered ++ "."
  | .methodUnknown key => "Невідомий метод оптимізації " ++ Text.quoted key ++ "."
  | .lineSearchUnknown key => "Невідомий метод одномірного пошуку " ++ Text.quoted key ++ "."
  | .precisionNotPositive => "Точність eps повинна бути додатною."
  | .stopKindUnknown kind => "Невідомий тип критерію зупинки " ++ Text.quoted kind ++ "."
  | .leastValueNeeded => "Критерій |f - f*| потребує відомого мінімуму f*."
  | .minimumNeeded => "Критерій ‖x - x*‖ потребує відомої точки мінімуму x*."
  | .pointUnreadable text => "Не вдалося розібрати точку " ++ Text.quoted text ++ "."
  | .pointNotFinite => "Точка не повинна містити inf або NaN."
  | .pointSize expected given =>
    "Точка повинна мати " ++ toString expected ++ " компонент(и), отримано " ++ toString given ++
      "."
  | .functionUnknown key => "Функція з ключем " ++ Text.quoted key ++ " не знайдена."
  | .iterationsNotPositive => "Максимальна кількість ітерацій повинна бути додатною."
  | .leastValueUnknown problem =>
    "Для " ++ problem ++ " мінімум f* невідомий; оберіть інший критерій."
  | .minimumUnknown problem =>
    "Для " ++ problem ++ " точка мінімуму x* невідома; оберіть інший критерій."
  | .startShape expected problem =>
    "Початкова точка повинна мати " ++ toString expected ++ " компонент(и) для " ++ problem ++ "."
  | .startAtPole =>
    "Функція f1 містить ділення на x1² та (x1·x2)⁴, тому x1 = 0 або x1·x2 = 0 не допускаються. " ++
      "Оберіть, наприклад, x₀ = (1, 1)."

end ConfigurationFault

def Misuse.message : Misuse → String
  | .notSetUp owner => owner ++ ": спочатку потрібно викликати setup()."
  | .finished owner status =>
    owner ++ ": iterate() після завершення запуску (статус " ++ status ++ "); викличте setup()."

def Phase.label : Phase → String
  | .start => "_setup_impl()"
  | .step => "_iterate_impl()"

namespace Failure

def message : Failure Float → String
  | .configuration fault => fault.message
  | .misuse fault => fault.message
  | .columnsShape owner expected given =>
    owner ++ ": X повинна мати форму (" ++ toString expected ++ ", k), отримано " ++
      shapeText given ++ "."
  | .firstColumn owner => owner ++ ": перший стовпець X повинен дорівнювати x."
  | .notAState owner phase typeName =>
    owner ++ "." ++ phase.label ++ " повинен повертати State, отримано: <class " ++
      Text.quoted typeName ++ ">"
  | .packageMissing =>
    "Для ResultsSummary.to_dataframe() потрібно встановити пакет 'pandas'."
  | .layoutInvalid => "Invalid format"
  | .shapeMismatch => "operands could not be broadcast together"
  | .notANumber => "must be a real number"
  | .badNumeral => "could not convert to a number"
  | .tooLarge => "int too large to convert to float"
  | .divisionByZero => "float division by zero"
  | .exponentialOverflow => "math range error"
  | .powerOverflow => "(34, 'Numerical result out of range')"
  | .outsideDomain => "math domain error"
  | .singularMatrix => "Singular matrix"
  | .matrixNotFinite => "Array must not contain infs or NaNs"
  | .indexOutOfRange => "list index out of range"
  | .noDefinition => ""
  | .thrown .missingKey text => Text.quoted text
  | .thrown _ text => text
  | .cutOff => "cut off"

/-- A failure with its kind, as it is written in a journal. -/
def mention (f : Failure Float) : String :=
  let inner := match f with
    | .powerOverflow => "34, 'Numerical result out of range'"
    | .thrown _ text => Text.quoted text
    | .noDefinition => ""
    | f => Text.quoted f.message
  f.kind.label ++ "(" ++ inner ++ ")"

end Failure

end Minima
