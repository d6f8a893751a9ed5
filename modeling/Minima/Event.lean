import Minima.Results

/-!
# Events

What a run reports on its way. The wording is in `Minima.Journal.Wording`.
-/

namespace Minima

inductive Event (R : Type) where
  /-- The value at the start is not finite. -/
  | startNotFinite (solver : String)
  /-- The run was set up at a point with a value. -/
  | setUp (solver : String) (start : Array R) (value : R)
  /-- A numerical failure was absorbed in the given step. -/
  | absorbed (solver : String) (k : Nat) (failure : Failure R)
  /-- A step was made. -/
  | stepped (solver : String) (k : Nat) (value length : R) (status : Status)
  /-- A run ended with success. -/
  | succeeded (results : Results R)
  /-- A run ended without success. -/
  | ended (results : Results R)
  /-- In a series of runs, one failed. -/
  | failed (method lineSearch problem : String) (failure : Failure R)

end Minima
