import Minima.Setting

/-!
# Failures

Everything that can go wrong, by cause. `Failure.kind` sorts the causes into the kinds that callers
tell apart; the wording is in `Minima.Failure.Wording`.
-/

namespace Minima

/-- The kinds of failure that callers tell apart. -/
inductive FailureKind where
  | configuration
  | misuse
  | value
  | type
  | zeroDivision
  | overflow
  | floatingPoint
  | linearAlgebra
  | arithmetic
  | missingKey
  | missingAttribute
  | notImplemented
  | index
  | runtime
deriving DecidableEq, Repr

namespace FailureKind

/-- A numerical failure inside a step ends the run as out of control instead of failing it. -/
def isNumerical : FailureKind → Bool
  | .overflow | .floatingPoint | .zeroDivision | .linearAlgebra => true
  | _ => false

/-- Failures of a value: a configuration and a matrix are values too. -/
def isValue : FailureKind → Bool
  | .value | .configuration | .linearAlgebra => true
  | _ => false

/-- Failures of arithmetic in the wide sense. -/
def isArithmetic : FailureKind → Bool
  | .arithmetic | .overflow | .floatingPoint | .zeroDivision => true
  | _ => false

end FailureKind

inductive OptionRange where
  | positive
  | notNegative
  | aboveOne
  | atLeastOne
  | betweenZeroAndOne
deriving DecidableEq, Repr

inductive ConfigurationFault (R : Type) where
  -- objectives and points
  | dimensionNotPositive (given : Setting R)
  | pointShape (objective : String) (expected : Nat) (given : List Nat)
  | matrixNotSymmetric
  | matrixNotPositiveDefinite
  -- boxes
  | boundShapes (lower upper : List Nat)
  | boundUndefined
  | boundsCrossed
  -- options
  | unknownOptions (owner : String) (unknown allowed : List String)
  | optionOutOfRange (owner key : String) (range : OptionRange)
  | optionLineSearch (owner : String) (given : Setting R)
  | optionBeta (owner : String)
  -- the start of a run
  | startNotVector (owner : String) (shape : List Nat)
  | startSize (owner : String) (given expected : Nat)
  | startNotFinite (owner : String)
  | regionSize (owner : String) (given expected : Nat)
  | criterionMissing (owner : String)
  -- stopping criteria
  | thresholdNotPositive (criterion : String) (value : R)
  | gradientWithoutObjective
  | minimumShape (expected given : List Nat)
  | limitNotPositive (given : Setting R)
  | noCriteria
  | unknownMode (mode : String)
  -- one-dimensional search
  | searchUnknown (name : String)
  | emptyInterval (left right : R)
  | armijoMissing (key : String)
  | armijoShrink (tau : R)
  -- the catalogue of methods
  | methodNotOffered (key : String) (offered : List String)
  | methodUnknown (key : String)
  | lineSearchUnknown (key : String)
  | precisionNotPositive
  | stopKindUnknown (kind : String)
  | leastValueNeeded
  | minimumNeeded
  -- the configuration of a run
  | pointUnreadable (text : String)
  | pointNotFinite
  | pointSize (expected given : Nat)
  | functionUnknown (key : String)
  | iterationsNotPositive
  | leastValueUnknown (problem : String)
  | minimumUnknown (problem : String)
  | startShape (expected : Nat) (problem : String)
  | startAtPole

inductive Misuse where
  | notSetUp (owner : String)
  | finished (owner : String) (status : String)
deriving DecidableEq, Repr

/-- The two functions that a method consists of. -/
inductive Phase where
  | start
  | step
deriving DecidableEq, Repr

inductive Failure (R : Type) where
  | configuration (fault : ConfigurationFault R)
  | misuse (fault : Misuse)
  /-- A snapshot's points do not form a matrix with as many rows as the point has components. -/
  | columnsShape (owner : String) (expected : Nat) (given : List Nat)
  /-- A snapshot's first column is not its point. -/
  | firstColumn (owner : String)
  /-- A method produced something that is not a state. -/
  | notAState (owner : String) (phase : Phase) (typeName : String)
  /-- A feature needs something that is not installed. -/
  | packageMissing
  /-- A layout of lines that shows nothing. -/
  | layoutInvalid
  /-- Shapes that cannot be combined. -/
  | shapeMismatch
  /-- A value of the wrong type, where a number was needed. -/
  | notANumber
  /-- A text that is no numeral, or an undefined number where a whole one was needed. -/
  | badNumeral
  /-- A number too large for its use. -/
  | tooLarge
  | divisionByZero
  | exponentialOverflow
  | powerOverflow
  | outsideDomain
  | singularMatrix
  | matrixNotFinite
  | indexOutOfRange
  | noDefinition
  /-- A function raised a failure of its own. -/
  | thrown (kind : FailureKind) (text : String)
  /-- The work was cut off before it came to an end. -/
  | cutOff

namespace Failure

variable {R : Type}

def kind : Failure R → FailureKind
  | .configuration _ => .configuration
  | .misuse _ => .misuse
  | .columnsShape .. | .firstColumn _ | .layoutInvalid | .shapeMismatch | .badNumeral
  | .outsideDomain => .value
  | .notAState .. | .notANumber => .type
  | .packageMissing | .cutOff => .runtime
  | .tooLarge | .exponentialOverflow | .powerOverflow => .overflow
  | .divisionByZero => .zeroDivision
  | .singularMatrix | .matrixNotFinite => .linearAlgebra
  | .indexOutOfRange => .index
  | .noDefinition => .notImplemented
  | .thrown kind _ => kind

def isNumerical (f : Failure R) : Bool := f.kind.isNumerical

/-- Does the failure concern a value or arithmetic? A function fails so outside its domain. -/
def isOfDomain (f : Failure R) : Bool := f.kind.isValue || f.kind.isArithmetic

end Failure

/-- A computation that may fail. -/
abbrev Attempt (R : Type) := Except (Failure R)

/-- Division that refuses a zero divisor. -/
def divide {R : Type} [Scalar R] (a b : R) : Attempt R R :=
  if b == 0.0 then throw .divisionByZero else pure (a / b)

end Minima
