import Minima.Method

/-!
# Methods given in advance

A method whose steps are written down beforehand, to try the engine with steps that no real method
makes: failing ones, states that are none, snapshots that contradict themselves.
-/

namespace Minima.Scripted

variable {R : Type} [Scalar R]

inductive Action (R : Type) where
  | fail (kind : FailureKind) (text : String)
  /-- Produce a value of another type. -/
  | foreign
  /-- Go to a multiple of the point. -/
  | scale (c : R)
  /-- Show the given value, point and points. -/
  | show (value : R) (point : Tensor R) (points : Option (Tensor R))

/-- A step with the status that it reports. -/
structure Stage (R : Type) where
  status : Status
  action : Action R

/-- A whole method: its last stage is repeated forever. -/
structure Script (R : Type) where
  hasCriterion : Bool := false
  refusesUnknown : Bool := true
  defaults : Options R := []
  /-- Does the method fail to produce a first state? -/
  startsForeign : Bool := false
  stages : Array (Stage R)

/-- The type that a stage produces by mistake. -/
def foreignType : String := "dict"

def Script.stage (script : Script R) (count : Nat) : Attempt R (Stage R) :=
  match script.stages[min count (script.stages.size - 1)]? with
  | some stage => pure stage
  | none => throw .indexOutOfRange

def sized {n : Nat} (s : Situation R n) (x : Array R) : Attempt R (Vector R n) :=
  if h : x.size = n then pure ⟨x, h⟩
  else throw (.configuration (.pointShape s.label n [x.size]))

def snapshotAt {n : Nat} (x : Vector R n) : Consult R n (Snapshot R) := do
  return { value := ← Consult.value x, point := x.toArray }

/-- What an action produces from the last snapshot. -/
def perform {n : Nat} (s : Situation R n) (last : Snapshot R) :
    Action R → Consult R n (Produced (Snapshot R))
  | .fail kind text => .fail (.thrown kind text)
  | .foreign => pure (.foreign foreignType)
  | .scale c => do
    let x ← sized s (last.point.map (· * c))
    return .state (← snapshotAt x)
  | .show value point points => do
    let snapshot ← Snapshot.make? value point points .plain
    return .state snapshot

def method (script : Script R) : Method R where
  className := "ScriptedSolver"
  defaultName := "ScriptedSolver"
  State _ := Snapshot R
  view := id
  defaults := Method.commonDefaults.update script.defaults
  refusesUnknown := script.refusesUnknown
  hasCriterion := script.hasCriterion
  validate _ _ := pure ()
  start _ x :=
    if script.startsForeign then pure (.foreign foreignType)
    else do return .state (← snapshotAt x)
  step s count last := do
    let stage ← script.stage count
    return (← perform s last stage.action, stage.status)

end Minima.Scripted
