import Minima.Solver

/-!
# Steps of a solver

`Solver.setUp` makes the first state and `Solver.iterate` the next one. A numerical failure inside
a step keeps the state and ends the run as out of control; any other failure leaves the solver as it
was, apart from the ledger of the objective.
-/

namespace Minima.Solver

variable {R : Type} [Scalar R] {m : Method R}

def report (e : Event R) : Engine m Unit := modify fun s => { s with events := s.events.push e }

def launch (f : Subject R) (a : Accepted R f.n) : Engine m (Snapshot R) := do
  let owner := (← get).name
  let (outcome, ledger) :=
    (m.start (a.situation f.objective.name) (a.region.project a.start)).run f.objective {}
  modify fun s => s.adopt f a ledger
  match ← outcome with
  | .foreign typeName => throw (.notAState m.className .start typeName)
  | .state st =>
    let snapshot := m.view st
    modify fun s => { s with state? := some ⟨f.n, st⟩ }
    if !snapshot.isFinite then
      report (.startNotFinite owner)
      modify fun s => { s with status := .outOfControl }
    report (.setUp owner a.start.toArray snapshot.value)
    return snapshot

/-- Check a configuration and make the first state. A configuration that is refused changes
nothing. -/
def setUp (f : Subject R) (c : Configuration R) : Engine m (Snapshot R) := do
  let a ← (← get).accept f.n c
  launch f a

/-- The status of a step whose result is `s`, where the method reports `status`: what is not finite,
or goes on beyond the bounds, is out of control. -/
def classify (options : Options R) (s : Snapshot R) (status : Status) : Attempt R Status := do
  if !s.isFinite then return .outOfControl
  if status ≠ .running then return status
  if (← options.real "max_x_norm") < s.pointNorm then return .outOfControl
  if (← options.real "max_abs_f") < Scalar.abs s.value then return .outOfControl
  return .running

/-- What the method makes of a state of dimension `k`. A state of another dimension than the
objective's is refused like any point of that dimension. -/
def attemptStep (t : Task R) (count : Nat) {k : Nat} (st : m.State k) :
    Attempt R (Produced (m.State t.n) × Status) × Ledger R t.n :=
  if h : k = t.n then (m.step t.situation count (h ▸ st)).run t.objective t.ledger
  else (.error (.configuration (.pointShape t.objective.name t.n [k])), t.ledger)

/-- The next state with its dimension, where a numerical failure keeps the old one. -/
def settle {n k : Nat} (owner : String) (count : Nat) (st : m.State k) :
    Attempt R (Produced (m.State n) × Status) → Engine m ((Σ n, m.State n) × Status)
  | .ok (.state next, status) => pure (⟨n, next⟩, status)
  | .ok (.foreign typeName, _) => throw (.notAState m.className .step typeName)
  | .error e => do
    if !e.isNumerical then throw e
    report (.absorbed owner (count + 1) e)
    return (⟨k, st⟩, .outOfControl)

def iterate : Engine m Status := do
  let s ← get
  match s.task?, s.state? with
  | some t, some ⟨_, st⟩ =>
    if s.status.isTerminal then throw (.misuse (.finished s.name s.status.name))
    let (outcome, ledger) := attemptStep t s.iterations st
    modify fun s => { s with task? := some { t with ledger } }
    let (next, reported) ← settle s.name s.iterations st outcome
    let snapshot := m.view next.2
    let status ← classify t.options snapshot reported
    modify fun s => { s with state? := some next, status, iterations := s.iterations + 1 }
    report (.stepped s.name (s.iterations + 1) snapshot.value snapshot.pointNorm status)
    return status
  | _, _ => throw (.misuse (.notSetUp s.name))

end Minima.Solver
