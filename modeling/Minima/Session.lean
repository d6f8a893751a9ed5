import Minima.Solver.Run

/-!
# Sessions

In a session one solver lives through many calls, among them direct requests to objectives. The
objective that is current in the session can be the one that the solver works on, and then they
share a ledger; it stops being that when another objective becomes current, and becomes it again
when a run on it is accepted.
-/

namespace Minima

variable {R : Type} [Scalar R]

/-- The objective that direct requests go to. -/
inductive Current (R : Type) where
  /-- The one that the solver works on. -/
  | solvers
  | other (f : Subject R)

/-- A solver with the current objective. -/
structure Session (m : Method R) where
  solver : Solver m
  current : Current R := .solvers

/-- A computation in a session. What it has done to the session outlives a failure. -/
abbrev Dealing (m : Method R) := ExceptT (Failure R) (StateM (Session m))

namespace Session

variable {m : Method R} {α σ : Type}

def new (m : Method R) (name : Option String) : Session m := { solver := Solver.new m name }

def ofEngine (e : Engine m α) : Dealing m α :=
  ExceptT.mk fun s =>
    let (outcome, solver) := e.run.run s.solver
    (outcome, { s with solver })

def take (f : Subject R) : Dealing m Unit := modify fun s => { s with current := .other f }

def subject : Dealing m (Subject R) := do
  let s ← get
  match s.current with
  | .other f => return f
  | .solvers =>
    match s.solver.task? with
    | some t => return t.toSubject
    | none => throw (.misuse (.notSetUp s.solver.name))

/-- Set up a run on the current objective. A configuration that is refused changes nothing. -/
def setUp (c : Configuration R) : Dealing m (Snapshot R) := do
  let f ← subject
  let a ← (← get).solver.accept f.n c
  modify fun s => { s with current := .solvers }
  ofEngine (Solver.launch f a)

def iterate : Dealing m Status := ofEngine Solver.iterate

/-- Run on the current objective to the end before a watcher. -/
def solveWatched (order : Solver.Order R) (w : Solver.Watcher R σ) (seen : σ) :
    Dealing m (Results R) := do
  let f ← subject
  let a ← (← get).solver.acceptOrder f.n order
  modify fun s => { s with current := .solvers }
  ExceptT.mk fun s =>
    let (outcome, (solver, _)) := (Solver.runAccepted f a order w).run.run (s.solver, seen)
    (outcome, { s with solver })

def solve (order : Solver.Order R) : Dealing m (Results R) :=
  solveWatched order (.onlooker fun _ _ (_ : Unit) => ()) ()

/-- What the solver works on and shows, which there is only after it was set up. -/
def live : Dealing m (Task R × Snapshot R) := do
  let s ← get
  match s.solver.task?, s.solver.snapshot? with
  | some t, some v => return (t, v)
  | _, _ => throw (.misuse (.notSetUp s.solver.name))

/-- Ask the objective that the solver works on. -/
def askSolvers (q : Inquiry R α) : Dealing m α := do
  let s ← get
  match s.solver.task? with
  | none => throw (.misuse (.notSetUp s.solver.name))
  | some t =>
    let (answer, ledger) := q t.n t.objective t.ledger
    set { s with solver := { s.solver with task? := some { t with ledger } } }
    answer

def askAtPoint (q : Tensor R → Inquiry R α) : Dealing m α := do
  let (_, v) ← live
  askSolvers (q (Tensor.ofArray v.point))

def ask (q : Inquiry R α) : Dealing m α := do
  let s ← get
  match s.current with
  | .solvers => askSolvers q
  | .other f =>
    let (answer, f') := f.ask q
    set { s with current := .other f' }
    answer

end Session

end Minima
