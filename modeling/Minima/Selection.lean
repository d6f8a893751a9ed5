import Minima.Plan
import Minima.Problem.Catalogue
import Minima.Results.Summary

/-!
# Selections

What a user has selected: a problem and a method by their keys, where to start, and when to stop. A
selection is checked before anything is run. It can be run with its one method or with all methods,
and then those that search along lines are run with several searches.
-/

namespace Minima

structure Selection (R : Type) [Scalar R] where
  problem : String
  method : String
  /-- Where to start, instead of the start of the problem. -/
  start? : Option (Tensor R) := none
  eps : R := 1e-6
  limit : Int := 500
  stopKind : String := "grad_norm"
  search : String := "default"
  /-- Are all methods to be run? -/
  all : Bool := false
  /-- What the clock shows for a run, if that is to be reported. -/
  elapsed? : Option R := none

namespace Selection

variable {R : Type} [Scalar R] {σ : Type}

/-- Does a run of this problem from this point begin at a pole, or next to one? -/
def startsAtPole (problem : Problem R) (start : Tensor R) : Attempt R Bool := do
  if problem.key ≠ "f1" then return false
  let component (i : Nat) : Attempt R R :=
    match start.entries[i]? with
    | some v => pure v
    | none => throw .indexOutOfRange
  let x₁ ← component 0
  if Scalar.abs x₁ < 1e-12 then return true
  let x₂ ← component 1
  return decide (Scalar.abs (x₁ * x₂) < 1e-12)

/-- Check a selection. The result is the problem. -/
def check (s : Selection R) (problems : List (Problem R)) : Attempt R (Problem R) := do
  match Catalogue.find? problems s.problem with
  | none => throw (.configuration (.functionUnknown s.problem))
  | some problem =>
    if !s.all && (Offer.ofKey? s.method).isNone then
      throw (.configuration (.methodUnknown s.method))
    if ¬ (0.0 : R) < s.eps then throw (.configuration .precisionNotPositive)
    if s.limit ≤ 0 then throw (.configuration .iterationsNotPositive)
    if !(Plan.stopChoices.map (·.1)).contains s.stopKind then
      throw (.configuration (.stopKindUnknown s.stopKind))
    if s.stopKind == "f_dist" && problem.leastValue?.isNone then
      throw (.configuration (.leastValueUnknown problem.key))
    if s.stopKind == "x_dist" && problem.minimum?.isNone then
      throw (.configuration (.minimumUnknown problem.key))
    let start := s.start?.getD problem.start
    if start.shape ≠ [problem.n] then
      throw (.configuration (.startShape problem.n problem.key))
    if ← startsAtPole problem start then throw (.configuration .startAtPole)
    return problem

def plan (s : Selection R) (method search : String) (name? : Option String) : Plan R where
  method
  start? := s.start?
  eps := s.eps
  limit := s.limit
  stopKind := s.stopKind
  lineSearch? := some search
  elapsed? := s.elapsed?
  name?

def run (s : Selection R) (problems : List (Problem R)) (visit : Snapshot R → Nat → σ → σ)
    (seen : σ) : Attempt R (Problem R) × Plan.Outcome R σ :=
  match s.check problems with
  | .error e => (.error e, { results := .error e, seen })
  | .ok problem => (.ok problem, (s.plan s.method s.search none).run problem visit seen)

/-- The searches that a series of runs goes through. -/
def sweep : List String := ["dichotomy", "interval_halving", "golden_section", "cubic4"]

/-- The label of a search; its key if it has none. -/
def searchLabel (key : String) : String := (Plan.searchChoices.lookup key).getD key

/-- One run of a series: the method, the search and the name of the solver. -/
structure Item where
  offer : Offer
  search : String
  name? : Option String

/-- The runs of a series: every method with the selected search, then every method that searches
along lines with each search in turn. -/
def items (s : Selection R) : List Item :=
  Offer.series.map (fun offer => { offer, search := s.search, name? := none }) ++
    (Offer.series.filter fun offer => (offer.method : Method R).usesLineSearch).flatMap fun offer =>
      sweep.map fun key =>
        { offer, search := key, name? := some (offer.label ++ " (" ++ searchLabel key ++ ")") }

/-- What has come of a series: results in order, and all events. -/
structure Series (R : Type) where
  results : Array (Results R) := #[]
  events : Array (Event R) := #[]

/-- Add the run of an item to a series. A run that fails outside the domain of the function is
reported and left out; any other failure ends the series. -/
def addItem (s : Selection R) (problem : Problem R) (item : Item) :
    ExceptT (Failure R) (StateM (Series R)) Unit := do
  let outcome := (s.plan item.offer.key item.search item.name?).run problem (fun _ _ u => u) ()
  modify fun series => { series with events := series.events ++ outcome.events }
  match outcome.results with
  | .ok results => modify fun series => { series with results := series.results.push results }
  | .error e =>
    if !e.isOfDomain then throw e
    modify fun series =>
      { series with
        events := series.events.push (.failed item.offer.key item.search problem.key e) }

def runAll (s : Selection R) (problems : List (Problem R)) :
    Attempt R (Problem R) × Series R :=
  let work : ExceptT (Failure R) (StateM (Series R)) (Problem R) := do
    let problem ← s.check problems
    for item in s.items do
      s.addItem problem item
    return problem
  work.run.run {}

def Series.summary (series : Series Float) : Summary Float :=
  series.results.toList.map Results.entry

def Series.best? (series : Series R) : Option (Results R) :=
  Summary.bestBy? Results.value Results.status series.results.toList

end Selection

end Minima
