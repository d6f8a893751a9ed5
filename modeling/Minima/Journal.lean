import Minima.Journal.Layout
import Minima.Setting.Conversion

/-!
# The journal

Lines of the journal are written by named loggers. A logger passes a line on if it is important
enough, and each of its handlers writes it to an outlet in a layout if it is important enough for
the handler. All loggers share one level; loggers that are made later begin with it.
-/

namespace Minima

/-- Where lines are written: to a stream of the caller, known by its number, or to standard
error. -/
inductive Outlet where
  | chosen (stream : Nat := 0)
  | standardError
deriving DecidableEq, Repr

structure Handler where
  level : Int
  outlet : Outlet
  layout : String
deriving DecidableEq, Repr

/-- A named source of lines. -/
structure Logger where
  name : String
  level : Int
  handlers : List Handler
  /-- Are lines passed on to loggers with a wider name? -/
  propagates : Bool := false
deriving DecidableEq, Repr

/-- All loggers, with the level of those that are made later. -/
structure Journal where
  defaultLevel : Int
  loggers : List Logger
deriving DecidableEq, Repr

structure Line where
  outlet : Outlet
  text : String
deriving DecidableEq, Repr

namespace Journal

/-! ## Levels -/

def warning : Int := 30

/-- The levels that have names; a level may have two of them. -/
def levels : List (String × Int) := [
  ("CRITICAL", 50), ("FATAL", 50), ("ERROR", 40), ("WARNING", 30), ("WARN", 30), ("INFO", 20),
  ("DEBUG", 10), ("NOTSET", 0)]

def levelName (level : Int) : String :=
  match levels.find? (·.2 == level) with
  | some (name, _) => name
  | none => "Level " ++ toString level

/-- The capitals of a character that are plain letters; any other character stands for itself. -/
def capitals (c : Char) : List Char :=
  if c == 'ı' then ['I']
  else if c == 'ſ' then ['S']
  else if c == 'ﬅ' || c == 'ﬆ' then ['S', 'T']
  else [c.toUpper]

def capitalised (name : String) : String := String.ofList (name.toList.flatMap capitals)

/-- The level that a setting means. A name means it in any case; two names belong to a layout and to
the styles of layouts, and an unknown one means warnings. -/
def levelOf {R : Type} [Scalar R] : Setting R → Attempt R Int
  | .text name =>
    match capitalised name with
    | "BASIC_FORMAT" => throw .badNumeral
    | "_STYLES" => throw .notANumber
    | name => pure ((levels.lookup name).getD warning)
  | s => s.toWhole

/-! ## Layouts -/

def defaultLayout : String := "[%(levelname)s] %(name)s: %(message)s"

def format (logger : String) (level : Int) (message layout : String) : String :=
  LayoutPart.fill
    (fun
      | "levelname" => levelName level
      | "levelno" => toString level
      | "name" => logger
      | "message" => message
      | _ => "")
    (LayoutPart.ofText layout)

/-! ## Loggers -/

/-- The name that all others begin with. -/
def rootName : String := "optimkit"

def fullName : Option String → String
  | none => rootName
  | some name => if name.startsWith rootName then name else rootName ++ "." ++ name

def find? (j : Journal) (name : String) : Option Logger := j.loggers.find? (·.name == name)

/-- A logger as it is made at a level. -/
def fresh (level : Int) (name : String) : Logger :=
  { name, level, handlers := [{ level, outlet := .standardError, layout := defaultLayout }] }

/-- The logger with a name, made if there is none yet. -/
def logger (name : Option String) (j : Journal) : Logger × Journal :=
  let full := fullName name
  match j.find? full with
  | some l => (l, j)
  | none =>
    let l := fresh j.defaultLevel full
    (l, { j with loggers := j.loggers ++ [l] })

/-- Give all loggers a level, now and later. -/
def setLevel (level : Int) (j : Journal) : Journal where
  defaultLevel := level
  loggers := j.loggers.map fun l =>
    { l with level, handlers := l.handlers.map fun h => { h with level } }

def assignLevel {R : Type} [Scalar R] (level : Setting R) (j : Journal) : Attempt R Journal := do
  return j.setLevel (← levelOf level)

/-- Give all loggers a level and one handler. The level is for loggers to come as well; these
write to standard error in the default layout. -/
def reconfigure (level : Int) (layout : String) (outlet : Outlet) (j : Journal) : Journal where
  defaultLevel := level
  loggers := j.loggers.map fun l => { l with level, handlers := [{ level, outlet, layout }] }

/-- Give all loggers a level and one handler. An empty layout stands for the default one; any other
needs a field. -/
def configure {R : Type} [Scalar R] (level : Setting R) (layout : String) (outlet : Outlet)
    (j : Journal) : Attempt R Journal := do
  let level ← levelOf level
  let layout := if layout.isEmpty then defaultLayout else layout
  if !LayoutPart.hasField layout.toList then throw .layoutInvalid
  return j.reconfigure level layout outlet

def empty : Journal where
  defaultLevel := warning
  loggers := []

/-- The journal before anything is done with it: its loggers are those of the library. -/
def initial : Journal where
  defaultLevel := warning
  loggers := ["optimkit.core.solver", "optimkit.core.runs", "optimkit.app"].map (fresh warning)

/-! ## Lines -/

/-- The level from which a logger passes lines on; without a level of its own it takes that of
warnings. -/
def threshold (l : Logger) : Int := if l.level = 0 then warning else l.level

def lines (l : Logger) (level : Int) (message : String) : List Line :=
  if level < threshold l then []
  else
    (l.handlers.filter fun h => decide (h.level ≤ level)).map fun h =>
      { outlet := h.outlet, text := format l.name level message h.layout }

def emit (name : String) (level : Int) (message : String) (j : Journal) : List Line × Journal :=
  let (l, j) := j.logger (some name)
  (lines l level message, j)

end Journal

end Minima
