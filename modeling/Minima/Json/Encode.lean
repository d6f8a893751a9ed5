import Minima.Criterion.Wording
import Minima.Failure.Wording
import Minima.Json
import Minima.Objective.Subject
import Minima.Region
import Minima.Results.Summary
import Minima.Scalar.Double

/-!
# Domain values as JSON

Scalars are written as texts of a given number of significant digits, since JSON has no infinities;
what is smaller than a given scalar is written as zero.
-/

namespace Minima

/-- How scalars are written. -/
structure Precision where
  digits : Nat := 12
  /-- Absolute values below this one are written as zero. -/
  tiny : Float := 0.0

def Json.shape (shape : List Nat) : Json := .arr (shape.map .nat)

/-- A failure: its kind, and what is said about it if that is in the language of the messages. -/
def Json.failure (f : Failure Float) : Json :=
  let message := f.message
  if message.toList.any fun c => c.toNat > 127 then
    .obj [("error", .str f.kind.label), ("message", .str message)]
  else .obj [("error", .str f.kind.label)]

def Json.attempt : Attempt Float Json → Json
  | .ok j => j
  | .error f => .failure f

def Json.counts (c : Nat × Nat × Nat) : Json := .arr [.nat c.1, .nat c.2.1, .nat c.2.2]

namespace Precision

variable (w : Precision)

/-! ## Numbers -/

def float (x : Float) : Json :=
  if x.isNaN then .str "nan"
  else if x == 0.0 || x.abs < w.tiny then .str "0"
  else .str (strippedScientificText w.digits x)

def floats (l : List Float) : Json := .arr (l.map w.float)

def point (p : Array Float) : Json := w.floats p.toList

/-- Entries as lists nested to a shape. -/
def shaped : List Nat → Array Float → Json
  | [], entries => w.float (entries[0]?.getD 0.0)
  | [_], entries => w.point entries
  | k :: rest, entries =>
    let size := rest.foldl (· * ·) 1
    .arr ((List.range k).map fun i => shaped rest (entries.extract (i * size) ((i + 1) * size)))

def tensor (t : Tensor Float) : Json := w.shaped t.shape t.entries

mutual

def setting : Setting Float → Json
  | .absent => .null
  | .flag b => .bool b
  | .whole i => .whole i
  | .real x => w.float x
  | .text s => .str s
  | .items l => .arr (settings l)

def settings : List (Setting Float) → List Json
  | [] => []
  | s :: rest => setting s :: settings rest

end

def options (o : Options Float) : Json := .obj (o.map fun (key, v) => (key, w.setting v))

/-- Options by their names, with whole numbers written as scalars. -/
def measuredOptions (o : Options Float) : Json :=
  .obj (o.map fun (key, v) =>
    match v with
    | .whole i => (key, w.float (Scalar.ofInt i))
    | v => (key, w.setting v))

/-! ## Snapshots and results -/

def descent (d : Descent Float) : List (String × Json) :=
  [("g", .option w.tensor d.gradient), ("alpha", w.float d.alpha), ("step", w.float d.step)]

def detail : Detail Float → List (String × Json)
  | .plain => []
  | .descent d => w.descent d
  | .newton d damping steepest =>
    w.descent d ++ [("reg_lambda", w.float damping), ("fallback_to_grad", .bool steepest)]
  | .quasiNewton d inverse updated =>
    w.descent d ++ [("H_inv", .option w.tensor inverse), ("updated", .bool updated)]
  | .conjugate d direction beta restarted =>
    w.descent d ++ [("d", .option w.tensor direction), ("beta", w.float beta),
      ("restarted", .bool restarted)]
  | .simplex values stepType diameter =>
    [("f_values", .option w.tensor values), ("step_type", .str stepType),
      ("diameter", w.float diameter)]
  | .pattern stepSize stepType => [("step_size", w.float stepSize), ("step_type", .str stepType)]

def columns (s : Snapshot Float) : Json := .arr (s.rows.map w.floats)

/-- A snapshot; its points are left out if there is only one. -/
def snapshot (s : Snapshot Float) : Json :=
  let points := if s.pointCount > 1 then [("X", w.columns s)] else []
  .obj ([("type", .str s.detail.label), ("f", w.float s.value), ("x", w.point s.point)] ++ points ++
    w.detail s.detail)

/-- Results, with the first `states` snapshots and the first `hist` points and values. -/
def results (states hist : Nat) (r : Results Float) : Attempt Float Json := do
  let points ← r.points?
  let history := r.history.toList
  return .obj [
    ("solver_name", .str r.solver), ("status", .str r.status.name), ("x_min", w.point r.point),
    ("f_min", w.float r.value), ("num_iter", .nat r.iterations),
    ("func_evals", .nat r.evaluations.values), ("grad_evals", .nat r.evaluations.gradients),
    ("hess_evals", .nat r.evaluations.hessians), ("converged", .bool r.converged),
    ("stopped_by", .str r.cause.text), ("term_val", .option w.float r.measured?),
    ("timed", .bool r.elapsed?.isSome), ("n_states", .nat r.history.size),
    ("final_state", w.snapshot r.final), ("states", .arr ((history.take states).map w.snapshot)),
    ("x_history_shape", .shape points.shape),
    ("x_history", .arr ((history.take hist).map fun s => w.point s.point)),
    ("f_history", w.floats (r.values.take hist))]

/-- A line of a summary; of the time it only says whether there is one. -/
def entry (e : Entry Float) : Json := .obj [
  ("method", .str e.method), ("status", .str e.status.name), ("x_star", w.point e.point),
  ("f_star", w.float e.value), ("n_iter", .nat e.iterations),
  ("func_evals", .nat e.evaluations.values), ("grad_evals", .nat e.evaluations.gradients),
  ("hess_evals", .nat e.evaluations.hessians), ("stopped_by", .str e.stoppedBy),
  ("time", .bool e.elapsed?.isSome)]

def summary (s : Summary Float) : Json := .obj [
  ("len", .nat s.length), ("rows", .arr (s.map w.entry)),
  ("best", .option (fun e => .arr [.str e.method, .str e.status.name, w.float e.value]) s.best?)]

/-! ## Criteria and problems -/

mutual

def criterion : Criterion Float → Json
  | .compound mode criteria =>
    let c : Criterion Float := .compound mode criteria
    .obj [("type", .str c.label), ("describe", .str c.describe), ("threshold", w.float c.threshold),
      ("mode", .str mode.key), ("criteria", .arr (criterions criteria))]
  | c =>
    .obj [("type", .str c.label), ("describe", .str c.describe), ("threshold", w.float c.threshold)]

def criterions : List (Criterion Float) → List Json
  | [] => []
  | c :: cs => criterion c :: criterions cs

end

end Precision

/-! ## Texts -/

def Box.text {n : Nat} (b : Box Float n) : String :=
  "BoundConstraints(lower=" ++ Text.bracketed (b.lower.toList.map shortText) ++ ", upper=" ++
    Text.bracketed (b.upper.toList.map shortText) ++ ")"

def Region.text {n : Nat} : Region Float n → String
  | .everywhere => "NoConstraints()"
  | .box b => b.text

/-- Constraints as text, if they have one. -/
def Constraints.text? : Constraints Float → Option String
  | .free => some "NoConstraints()"
  | .box b => some b.text
  | .undefined => none

def Subject.text (f : Subject Float) : String :=
  "ObjectiveFunction(name=" ++ Text.quoted f.objective.name ++ ", n=" ++ toString f.n ++ ")"

def solverText (className name : String) : String :=
  className ++ "(name=" ++ Text.quoted name ++ ")"

end Minima
