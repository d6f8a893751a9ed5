import Minima.Journal.Wording
import Minima.Json.Decode
import Minima.Json.Screen
import Minima.Method.Scripted
import Minima.Program
import Minima.Session
import Minima.Proofs.EngineRuns
import Minima.Proofs.RunChronicle
import Minima.Proofs.RunControl
import Minima.Proofs.ExactRuns
import Minima.Proofs.Coupling
import Minima.Proofs.Memory
import Minima.Proofs.Interleaving
import Minima.Proofs.Isolation
import Minima.Proofs.Atomicity
import Minima.Proofs.Provenance
import Minima.Proofs.FailedRuns
import Minima.Proofs.Validation
import Minima.Proofs.Presets
import Minima.Proofs.NumericalFailures
import Minima.Proofs.Contracts
import Minima.Proofs.Searches
import Minima.Proofs.StepContracts
import Minima.Proofs.MethodSteps
import Minima.Proofs.Totality
import Minima.Proofs.EarlyFailures
import Minima.Proofs.Trails
import Minima.Proofs.FirstTrials
import Minima.Proofs.LateFailures
import Minima.Proofs.ScalarLaws
import Minima.Proofs.EqualPoints
import Minima.Proofs.Bookkeeping
import Minima.Proofs.Readings
import Minima.Proofs.GroundedSteps
import Minima.Proofs.RunInvariants
import Minima.Proofs.Feasibility
import Minima.Proofs.Coherence
import Minima.Proofs.QuestionBudgets
import Minima.Proofs.AnswerFailures
import Minima.Proofs.SearchBudgets
import Minima.Proofs.StepBudgets
import Minima.Proofs.RunBudgets
import Minima.Proofs.PlanBudgets
import Minima.Proofs.ScalarOrder
import Minima.Proofs.DescentSteps
import Minima.Proofs.ReadRuns
import Minima.Proofs.MonotoneRuns
import Minima.Proofs.FixedSteps
import Minima.Proofs.StepCosts
import Minima.Proofs.EvaluationCounts
import Minima.Proofs.RealVectors
import Minima.Proofs.LinearSystems
import Minima.Proofs.CholeskyFactor
import Minima.Proofs.Quadratics
import Minima.Proofs.Successes
import Minima.Proofs.RestingStarts
import Minima.Proofs.SearchReports
import Minima.Proofs.Simulation
import Minima.Proofs.RestartedGradients
import Minima.Proofs.PlannedOptions
import Minima.Proofs.RunFailures
import Minima.Proofs.PlanRuns
import Minima.Proofs.LiveHistory
import Minima.Proofs.CheckedSelections
import Minima.Proofs.InverseUpdates
import Minima.Proofs.Passages
import Minima.Proofs.Marches
import Minima.Proofs.DefiniteRuns
import Minima.Proofs.FirstCorrections
import Minima.Proofs.DampingLadder
import Minima.Proofs.DampedDirections
import Minima.Proofs.DoubleGrowth
import Minima.Proofs.DoubleLadders
import Minima.Proofs.SessionInvariants
import Minima.Proofs.Recollections
import Minima.Proofs.SimplexSteps
import Minima.Proofs.SimplexRuns
import Minima.Proofs.SimplexShapes
import Minima.Proofs.BoxedSimplices
import Minima.Proofs.PatternSteps
import Minima.Proofs.PatternRuns
import Minima.Proofs.Unimodality
import Minima.Proofs.CubicWindows
import Minima.Proofs.Localisation
import Minima.Proofs.Brackets
import Minima.Proofs.QuadraticForms
import Minima.Proofs.FixedStepConvergence
import Minima.Proofs.NewtonQuadratics
import Minima.Proofs.Parabolas
import Minima.Proofs.Containment
import Minima.Proofs.FirstAdmissible
import Minima.Proofs.IterationLimits
import Minima.Proofs.Compositions
import Minima.Proofs.Words
import Minima.Proofs.Numerals
import Minima.Proofs.FiniteDecimals
import Minima.Proofs.SignificantDigits
import Minima.Proofs.GeneralTexts
import Minima.Proofs.PointTexts
import Minima.Proofs.Expansions
import Minima.Proofs.CentralDifferences
import Minima.Proofs.KnownDerivatives
import Minima.Proofs.Loggers
