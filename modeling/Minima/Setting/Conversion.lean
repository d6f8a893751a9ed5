import Minima.Failure
import Minima.Text.Numeral

/-!
# Settings as numbers

A setting is converted where it is used. Texts are read as numerals; a real is cut toward zero where
a whole number is needed.
-/

namespace Minima

namespace Setting

variable {R : Type} [Scalar R]

def toReal : Setting R → Attempt R R
  | .absent | .items _ => throw .notANumber
  | .flag b => pure (if b then 1.0 else 0.0)
  | .whole i =>
    match (Scalar.ofInt? i : Option R) with
    | some x => pure x
    | none => throw .tooLarge
  | .real x => pure x
  | .text s =>
    match (Scalar.ofText? s : Option R) with
    | some x => pure x
    | none => throw .badNumeral

def toWhole : Setting R → Attempt R Int
  | .absent | .items _ => throw .notANumber
  | .flag b => pure (if b then 1 else 0)
  | .whole i => pure i
  | .real x =>
    if Scalar.isFinite x then pure (Scalar.truncate x)
    else if Scalar.isNaN x then throw .badNumeral
    else throw .tooLarge
  | .text s =>
    match Text.Numeral.wholeOfText? s with
    | some i => pure i
    | none => throw .badNumeral

def isText (s : String) : Setting R → Bool
  | .text t => t == s
  | _ => false

end Setting

namespace Options

variable {R : Type} [Scalar R]

/-- The value of an option that every option set of the method has. -/
def get (options : Options R) (key : String) : Attempt R (Setting R) :=
  match options.get? key with
  | some s => pure s
  | none => throw (.thrown .missingKey key)

def real (options : Options R) (key : String) : Attempt R R := do (← options.get key).toReal

def whole (options : Options R) (key : String) : Attempt R Int := do (← options.get key).toWhole

/-- The option as a scalar, or a default if it is not given. -/
def realD (options : Options R) (key : String) (default : R) : Attempt R R :=
  match options.get? key with
  | some s => s.toReal
  | none => pure default

def wholeD (options : Options R) (key : String) (default : Int) : Attempt R Int :=
  match options.get? key with
  | some s => s.toWhole
  | none => pure default

end Options

end Minima
