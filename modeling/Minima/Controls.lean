import Minima.Problem.Catalogue
import Minima.Scalar.Double
import Minima.Selection
import Minima.Selection.PointText
import Minima.Widget

/-!
# Controls

What a user has set in the controls of the window. A selection is read off them; the start is given
as a text and may be unreadable. What matters for the method or not follows from the rest: a control
that does not matter is disabled.
-/

namespace Minima

structure Controls where
  /-- The problems that can be chosen. -/
  problems : List (Problem Float)
  problem : Problem Float
  method : Offer := .gradientDescent
  search : String := "default"
  stopKind : String := "grad_norm"
  startText : String
  eps : Float := 1e-6
  limit : Int := 500
  all : Bool := false
  timed : Bool := false

namespace Controls

def startOf (p : Problem Float) : String := PointText.write p.start.entries

/-- The controls at the beginning: the first problem is chosen. -/
def initial (first : Problem Float) (others : List (Problem Float)) : Controls where
  problems := first :: others
  problem := first
  startText := startOf first

def useProblemStart (c : Controls) : Controls := { c with startText := startOf c.problem }

/-- Choose a problem by its key. A new one brings its start with it. -/
def chooseProblem (c : Controls) (key : String) : Controls :=
  if key == c.problem.key then c
  else
    match Catalogue.find? c.problems key with
    | some problem => { c with problem }.useProblemStart
    | none => c

def chooseMethod (c : Controls) (key : String) : Controls :=
  { c with method := (Offer.ofKey? key).getD c.method }

/-- The selection that the controls stand for. A timed run shows `clock`. -/
def selection (c : Controls) (clock : Float) : Attempt Float (Selection Float) := do
  let start? ← PointText.read? c.startText (some c.problem.n)
  return {
    problem := c.problem.key
    method := c.method.key
    start? := start?.map Tensor.ofArray
    eps := c.eps
    limit := c.limit
    stopKind := c.stopKind
    search := c.search
    all := c.all
    elapsed? := if c.timed then some clock else none }

/-! ## What matters -/

def hasCriterion (c : Controls) : Bool := (c.method.method : Method Float).hasCriterion

def methodEnabled (c : Controls) : Bool := !c.all

def searchEnabled (c : Controls) : Bool :=
  c.all || (c.method.method : Method Float).usesLineSearch

def stopEnabled (c : Controls) : Bool := c.all || !c.hasCriterion

def problemText (c : Controls) : String := "n = " ++ toString c.problem.n

def methodText (c : Controls) : String :=
  if c.hasCriterion && !c.all then "Метод має власний критерій зупинки (eps)." else ""

/-! ## On the screen -/

def indexOf (key : String) (choices : List (String × String)) : Nat :=
  choices.findIdx fun choice => choice.1 == key

def choiceOf (choices : List (String × String)) (key : String) (properties : Options Float) :
    Widget :=
  .choice (choices.map fun (key, label) => (label, some key)) (indexOf key choices) properties

def problemChoices (c : Controls) : List (String × String) :=
  c.problems.map fun p => (p.key, p.key ++ ": " ++ p.title)

def problemGroup (c : Controls) : Widget :=
  .group "Цільова функція та старт" [
    .label "Функція:" [],
    choiceOf c.problemChoices c.problem.key [],
    .mutedLabel c.problemText
      [Widget.textIs "objectName" "functionPreview", Widget.flagIs "wordWrap" true],
    .plain .row [Widget.usualGaps] [
      .label "x₀:" [],
      .plain .entry [
        Widget.textIs "placeholderText" "default",
        Widget.textIs "toolTip" "Компоненти через кому; порожньо або 'default' — x₀ задачі",
        Widget.textIs "text" c.startText] [],
      .secondaryButton "x₀ задачі"]]

def methodGroup (c : Controls) : Widget :=
  .group "Метод оптимізації" [
    .label "Метод:" [],
    choiceOf (Offer.all.map fun o => (o.key, o.label)) c.method.key
      [Widget.flagIs "enabled" c.methodEnabled],
    .label "Line search:" [],
    choiceOf Plan.searchChoices c.search [Widget.flagIs "enabled" c.searchEnabled],
    .label "Критерій зупинки:" [],
    choiceOf Plan.stopChoices c.stopKind [Widget.flagIs "enabled" c.stopEnabled],
    .mutedLabel c.methodText [],
    .check "Запустити всі методи для обраної функції" c.all,
    .check "Вимірювати час" c.timed]

def limitsGroup (c : Controls) : Widget :=
  .group "Точність та ітерації" [
    .plain .row [Widget.usualGaps] [
      .label "eps:" [],
      .plain .decimals [
        ("range", .items [.real 1e-15, .real 1e3]),
        Widget.wholeIs "decimals" 10,
        ("value", .real c.eps)] [],
      .spacing (Theme.spacing * 2),
      .label "max_iter:" [],
      .plain .wholes [
        ("range", .items [.whole 1, .whole 100000]),
        ("value", .whole c.limit)] [],
      .stretch 1]]

def buttonRow : Widget :=
  .plain .row [Widget.margins 0 Theme.spacing 0 0, Widget.usualGaps] [
    .button "Запустити" [],
    .secondaryButton "Очистити",
    .stretch 1,
    .secondaryButton "Вихід"]

/-- The widget that shows the controls, with further properties. -/
def widget (c : Controls) (more : Options Float) : Widget :=
  .plain .controls (Widget.textIs "objectName" "controlPanel" :: more) [
    .plain .column [Widget.usualMargins, Widget.usualGaps] [
      c.problemGroup, c.methodGroup, c.limitsGroup, buttonRow, .stretch 1]]

end Controls

end Minima
