import Minima.Failure.Wording
import Minima.Json
import Minima.Problem.Catalogue
import Minima.Problem.Quadratic
import Minima.Scalar.Double
import Minima.Selection
import Minima.Selection.PointText

/-!
# Domain values from JSON

Numbers can also be given as the texts `"nan"`, `"inf"` and `"-inf"`. A field that is missing counts
as null.
-/

namespace Minima

namespace Json

/-! ## Numbers -/

def numeral (s : String) : Float := (Double.ofText? s).getD Scalar.undefined

/-- Is the text a numeral without point and exponent? -/
def isWhole (s : String) : Bool := s.toList.all fun c => c.isDigit || c == '-'

/-- Is the text a number that has no numeral? -/
def isSpecial (s : String) : Bool := s == "nan" || s == "inf" || s == "-inf"

mutual

def setting : Json → Setting Float
  | .null | .obj _ => .absent
  | .bool b => .flag b
  | .num t => if isWhole t then .whole ((Text.Numeral.wholeOfText? t).getD 0) else .real (numeral t)
  | .str s => if isSpecial s then .real (numeral s) else .text s
  | .arr l => .items (settings l)

def settings : List Json → List (Setting Float)
  | [] => []
  | j :: rest => setting j :: settings rest

end

def options (j : Json) : Options Float := j.fields.map fun (key, v) => (key, v.setting)

/-- A number; undefined for any other value. -/
def float (j : Json) : Float := (Setting.toReal j.setting).toOption.getD Scalar.undefined

/-- A number, or a default if there is none. -/
def floatD (j : Json) (default : Float) : Float := if j.isNull then default else j.float

/-- A whole number; zero for any other value. -/
def toWhole (j : Json) : Int := (Setting.toWhole j.setting).toOption.getD 0

def wholeD (j : Json) (default : Int) : Int := if j.isNull then default else j.toWhole

def countD (j : Json) (default : Nat) : Nat := (j.wholeD default).toNat

/-- A truth value; numbers but zero, and texts and lists but empty ones, count as true. -/
def truth : Json → Bool
  | .null => false
  | .bool b => b
  | .num t => !(numeral t == 0.0)
  | .str s => !s.isEmpty
  | .arr l => !l.isEmpty
  | .obj l => !l.isEmpty

def truthD (j : Json) (default : Bool) : Bool := if j.isNull then default else j.truth

mutual

/-- Numbers nested in lists. -/
def nested : Json → Nested Float
  | .arr l => .node (nestedItems l)
  | j => .leaf j.float

def nestedItems : List Json → List (Nested Float)
  | [] => []
  | j :: rest => nested j :: nestedItems rest

end

def tensor (j : Json) : Attempt Float (Tensor Float) := j.nested.tensor?

def optionally {α : Type} (f : Json → Attempt Float α) (j : Json) : Attempt Float (Option α) := do
  if j.isNull then return none
  return some (← f j)

/-! ## Formulas and problems -/

/-- The failure that a formula raises. -/
def failureKind (name : String) : FailureKind := (FailureKind.ofLabel? name).getD .runtime

mutual

/-- A formula: a number, or a list of an operator and its arguments. -/
def formula : Json → Formula Float
  | .arr [.str "x", i] => .var i.toWhole.toNat
  | .arr (.str "+" :: a :: rest) => .add (formula a) (formulas rest)
  | .arr (.str "*" :: a :: rest) => .mul (formula a) (formulas rest)
  | .arr [.str "-", a, b] => .sub (formula a) (formula b)
  | .arr [.str "/", a, b] => .div (formula a) (formula b)
  | .arr [.str "neg", a] => .neg (formula a)
  | .arr [.str "abs", a] => .abs (formula a)
  | .arr [.str "exp", a] => .exp (formula a)
  | .arr [.str "sin", a] => .sin (formula a)
  | .arr [.str "cos", a] => .cos (formula a)
  | .arr [.str "lt", a, b, t, e] => .less (formula a) (formula b) (formula t) (formula e)
  | .arr [.str "raise", kind, message] => .fail (failureKind kind.text) message.text
  | j => .const j.float

def formulas : List Json → List (Formula Float)
  | [] => []
  | j :: rest => formula j :: formulas rest

end

/-- A problem: the key of one of those given, the parameters of a quadratic one, or formulas. -/
def problem (problems : List (Problem Float)) (j : Json) : Attempt Float (Problem Float) := do
  if let some key := j.field? "problem" then
    match Catalogue.find? problems key.text with
    | some p => return p
    | none => throw (.thrown .missingKey key.text)
  if let some n := j.field? "sphere" then return ← Quadratic.sphere? n.toWhole
  if let some q := j.field? "quadratic" then
    let matrix ← (q.get "A").tensor
    let vector? ← optionally tensor (q.get "b")
    let start? ← optionally tensor (q.get "x0")
    return ← Quadratic.problem? matrix vector? start? ((q.get "key").text?.getD "quadratic")
  let n := (j.get "n").toWhole.toNat
  let start? ← optionally tensor (j.get "x0")
  let gradient? := (j.given? "grad").map fun g => formulas g.items
  let hessian? := (j.given? "hess").map fun h => h.items.map fun row => formulas row.items
  let minimum? ← optionally tensor (j.get "x_min")
  return Problem.ofFormulas ((j.get "name").text?.getD "expr") n (formula (j.get "expr"))
    gradient? hessian? (start?.getD (Tensor.ofVector (Vector.replicate n (0.0 : Float)))) minimum?
    ((j.given? "f_min").map float)

/-- The catalogue of problems with more put over it: at the place of one with the same key, or at
the end. -/
def catalogue (more : Json) : Attempt Float (List (Problem Float)) := do
  let added ← more.items.mapM (problem Catalogue.problems)
  return added.foldl
    (fun all p =>
      if all.any (·.key == p.key) then all.map fun q => if q.key == p.key then p else q
      else all ++ [p])
    Catalogue.problems

/-- An objective given by a formula alone, with its dimension and name in `about`. -/
def plainSubject (f about : Json) : Attempt Float (Subject Float) := do
  let given := (about.get "n").setting
  let n ← given.toWhole
  if n ≤ 0 then throw (.configuration (.dimensionNotPositive given))
  let name := (about.get "name").text
  let p := Problem.ofFormulas (if name.isEmpty then "<lambda>" else name) n.toNat (formula f)
    none none ⟨[0], #[]⟩ none none
  p.subject?

/-! ## Criteria and configurations -/

/-- Combine criteria two by two from the left. -/
def joinAll (mode : Criterion.Mode) : List (Criterion Float) → Attempt Float (Criterion Float)
  | [] => throw .indexOutOfRange
  | c :: cs => pure (cs.foldl (Criterion.join mode) c)

mutual

/-- A stopping criterion: an object whose first field names its kind. -/
def criterion : Json → Attempt Float (Criterion Float)
  | .obj (("grad_norm", v) :: _) => Criterion.gradientNorm? v.float
  | .obj (("f_dist", v) :: _) =>
    Criterion.valueDistance? (v.item 0).float (v.item 1).float (v.item 2).truth
  | .obj (("x_dist", v) :: _) => do
    Criterion.pointDistance? (← (v.item 0).tensor) (v.item 1).float (v.item 2).truth
  | .obj (("max_iter", v) :: _) => Criterion.iterations? v.setting
  | .obj (("const", v) :: _) =>
    let value := (v.item 0).float
    pure (.ofMeasure "ConstTest" ((v.item 1).floatD 0.0) fun _ _ => pure value)
  | .obj (("or", .arr l) :: _) => do joinAll .any (← criteria l)
  | .obj (("and", .arr l) :: _) => do joinAll .all (← criteria l)
  | .obj (("compound", .arr l) :: rest) => do
    Criterion.compound? (← criteria l) (((Json.obj rest).get "mode").text?.getD "any")
  | .obj (("mode", mode) :: ("compound", .arr l) :: _) => do
    Criterion.compound? (← criteria l) mode.text
  | _ => throw .notANumber

def criteria : List Json → Attempt Float (List (Criterion Float))
  | [] => pure []
  | j :: rest => do
    let c ← criterion j
    return c :: (← criteria rest)

end

/-- Constraints: null or `"none"` for none, or the bounds of a box. -/
def constraints (j : Json) : Attempt Float (Constraints Float) := do
  match j with
  | .null => return .free
  | .str s => return if s == "none" then .free else .undefined
  | j =>
    let lower ← (j.get "lower").tensor
    let upper ← (j.get "upper").tensor
    let b ← Box.make? lower.entries upper.entries
    return .box b.2

/-- The configuration of a run, which starts at the start of the problem if nothing else is said. -/
def configuration (p : Problem Float) (j : Json) : Attempt Float (Configuration Float) := do
  let start? ← optionally tensor (j.get "x0")
  let constraints ← constraints (j.get "constraints")
  return { start := start?.getD p.start, options := (j.get "options").options, constraints }

def order (p : Problem Float) (j : Json) : Attempt Float (Solver.Order Float) := do
  let criterion? ← optionally criterion (j.get "stop")
  let c ← configuration p j
  return { c with criterion?, elapsed? := if (j.get "time").truth then some 0.0 else none }

/-! ## Plans and selections -/

def plan (j : Json) : Attempt Float (Plan Float) := do
  return {
    method := (j.get "method").text
    start? := ← optionally tensor (j.get "x0")
    eps := (j.get "eps").floatD 1e-6
    limit := (j.get "max_iter").wholeD 500
    stopKind := (j.get "stop_kind").text?.getD "grad_norm"
    lineSearch? := (j.get "line_search_key").text?
    elapsed? := if (j.get "time_test").truth then some 0.0 else none
    name? := (j.get "name").text? }

/-- A selection; a timed run shows `clock`. -/
def selection (clock : Float) (j : Json) : Attempt Float (Selection Float) := do
  let start? ← match j.field? "x0_text" with
    | some (.str text) => do pure ((← PointText.read? text none).map Tensor.ofArray)
    | _ => optionally tensor (j.get "x0")
  return {
    problem := (j.get "function_key").text
    method := (j.get "method_key").text
    start?
    eps := (j.get "eps").floatD 1e-6
    limit := (j.get "max_iter").wholeD 500
    stopKind := (j.get "stop_kind").text?.getD "grad_norm"
    search := (j.get "line_search_key").text?.getD "default"
    all := (j.get "run_all_methods").truth
    elapsed? := if (j.get "time_test").truth then some clock else none }

def snapshot (kind : String) (j : Json) : Attempt Float (Snapshot Float) := do
  let x ← (j.get "x").tensor
  let points ← optionally tensor (j.get "X")
  let descent : Descent Float := {
    gradient := ← optionally tensor (j.get "g")
    alpha := (j.get "alpha").floatD 0.0
    step := (j.get "step").floatD 0.0 }
  let detail : Detail Float ← match kind with
    | "DescentState" => pure (.descent descent)
    | "NewtonState" =>
      pure (.newton descent ((j.get "reg_lambda").floatD 0.0) (j.get "fallback_to_grad").truth)
    | "BFGSState" => do
      pure (.quasiNewton descent (← optionally tensor (j.get "H_inv")) (j.get "updated").truth)
    | "ConjugateGradientState" => do
      pure (.conjugate descent (← optionally tensor (j.get "d")) ((j.get "beta").floatD 0.0)
        ((j.get "restarted").truthD true))
    | "SimplexState" => do
      pure (.simplex (← optionally tensor (j.get "f_values"))
        ((j.get "step_type").text?.getD "initial") ((j.get "diameter").floatD 0.0))
    | "PatternState" =>
      pure (.pattern ((j.get "step_size").floatD 1.0) ((j.get "step_type").text?.getD "initial"))
    | _ => pure .plain
  Snapshot.make? (j.get "f").float x points detail

end Json

end Minima
