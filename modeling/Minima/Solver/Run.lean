import Minima.Solver.Step

/-!
# Runs

A run sets up a solver and makes steps until one of them ends it or the stopping criterion holds.
A method with a criterion of its own is not asked for another one. After every step the snapshot is
put into the history and shown to a watcher.
-/

namespace Minima.Solver

variable {R : Type} [Scalar R] {m : Method R} {σ α : Type}

structure Order (R : Type) [Scalar R] extends Configuration R where
  criterion? : Option (Criterion R) := none
  /-- What the clock shows for the run, if that is to be reported. -/
  elapsed? : Option R := none
  /-- How many steps are made at most; a run that has not ended by then is cut off. -/
  horizon : Nat := 1000000000000000000

/-- Someone who is shown every snapshot of a run with its number. A watcher keeps what it likes in
a state of its own, may ask the objective in use, and may fail. -/
abbrev Watcher (R σ : Type) [Scalar R] :=
  Snapshot R → Nat → (n : Nat) → Objective R n → Ledger R n × σ → Attempt R Unit × Ledger R n × σ

def Watcher.onlooker (visit : Snapshot R → Nat → σ → σ) : Watcher R σ :=
  fun v k _ _ (ledger, seen) => (.ok (), ledger, visit v k seen)

/-- A computation of a solver with a watcher. What was watched outlives a failure. -/
abbrev Watched (m : Method R) (σ : Type) := ExceptT (Failure R) (StateM (Solver m × σ))

def unwatched (e : Engine m α) : Watched m σ α :=
  ExceptT.mk fun (s, seen) =>
    let (outcome, s') := e.run.run s
    (outcome, (s', seen))

/-- Let the gauge of a criterion ask for gradients of the objective in use. -/
def gauge (g : Gauge R α) : Engine m α := do
  match (← get).task? with
  | none => throw (.configuration .gradientWithoutObjective)
  | some t =>
    let ask (point : Array R) (l : Ledger R t.n) : Attempt R (Array R) × Ledger R t.n :=
      Ledger.request t.objective (Ledger.gradient t.objective) (Tensor.ofArray point) l
    let (outcome, ledger) := g.play ask t.ledger
    modify fun s => { s with task? := some { t with ledger } }
    outcome

def snapshot? (s : Solver m) : Option (Snapshot R) := s.state?.map fun st => m.view st.2

/-- The snapshot of the current state, which there has to be. -/
def snapshot : Engine m (Snapshot R) := do
  let s ← get
  match s.snapshot? with
  | some v => return v
  | none => throw (.misuse (.notSetUp s.name))

/-- If the criterion holds of a running state, end the run with success. The result is what the
criterion measures. -/
def stopIfHolds (c : Criterion R) : Engine m (Option R) := do
  let v ← snapshot
  let k := (← get).iterations
  if ← gauge (c.holds v k) then
    let measured ← gauge (c.measure v k)
    modify fun s => { s with status := .success }
    return some measured
  return none

def watch (w : Watcher R σ) (v : Snapshot R) : Watched m σ Unit := do
  let (s, seen) ← get
  match s.task? with
  | none => throw (.misuse (.notSetUp s.name))
  | some t =>
    let (outcome, ledger, seen) := w v s.iterations t.n t.objective (t.ledger, seen)
    set ({ s with task? := some { t with ledger } }, seen)
    outcome

structure Ending (R : Type) where
  history : Array (Snapshot R)
  cause : StopCause R
  measured? : Option R

/-- Make one step, show it to the watcher and ask the criterion. The result is what the criterion
measures if it ends the run. -/
def advance (criterion? : Option (Criterion R)) (w : Watcher R σ) :
    Watched m σ (Snapshot R × Option (Criterion R × R)) := do
  let status ← unwatched iterate
  let v ← unwatched snapshot
  watch w v
  match criterion? with
  | some c =>
    if status.isTerminal then return (v, none)
    let measured? ← unwatched (stopIfHolds c)
    return (v, measured?.map (c, ·))
  | none => return (v, none)

def loop (criterion? : Option (Criterion R)) (w : Watcher R σ) :
    (fuel : Nat) → (history : Array (Snapshot R)) → Watched m σ (Ending R)
  | fuel, history => do
    let status := (← get).1.status
    if status.isTerminal then return { history, cause := .method status, measured? := none }
    match fuel with
    | 0 => throw .cutOff
    | fuel + 1 =>
      match ← advance criterion? w with
      | (v, some (c, measured)) =>
        return { history := history.push v, cause := .criterion c, measured? := some measured }
      | (v, none) => loop criterion? w fuel (history.push v)

def results (elapsed? : Option R) (e : Ending R) : Engine m (Results R) := do
  let final ← snapshot
  let s ← get
  let (values, gradients, hessians) := (s.task?.map fun t => t.ledger.counts).getD (0, 0, 0)
  let results : Results R := {
    solver := s.name
    status := s.status
    iterations := s.iterations
    evaluations := { values, gradients, hessians }
    cause := e.cause
    measured? := e.measured?
    elapsed?
    final
    history := e.history }
  report (if results.converged then .succeeded results else .ended results)
  return results

def acceptOrder (s : Solver m) (n : Nat) (order : Order R) : Attempt R (Accepted R n) := do
  if !m.hasCriterion && order.criterion?.isNone then
    throw (.configuration (.criterionMissing s.name))
  s.accept n order.toConfiguration

/-- The criterion that a run asks: none if the method decides for itself. -/
def asked? (m : Method R) (order : Order R) : Option (Criterion R) :=
  if m.hasCriterion then none else order.criterion?

def runAccepted (f : Subject R) (a : Accepted R f.n) (order : Order R) (w : Watcher R σ) :
    Watched m σ (Results R) := do
  let _ ← unwatched (launch f a)
  let ending ← loop (asked? m order) w order.horizon #[]
  unwatched (results order.elapsed? ending)

/-- Set up and run to the end before a watcher. -/
def solveWatched (f : Subject R) (order : Order R) (w : Watcher R σ) :
    Watched m σ (Results R) := do
  let a ← (← get).1.acceptOrder f.n order
  runAccepted f a order w

/-- Set up and run to the end, with a watcher that only looks. -/
def solve (f : Subject R) (order : Order R) (visit : Snapshot R → Nat → σ → σ) :
    Watched m σ (Results R) :=
  solveWatched f order (.onlooker visit)

end Minima.Solver
