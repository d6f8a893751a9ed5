import Minima.Dialogue
import Minima.Linear.Square
import Minima.Tensor

/-!
# Objectives

A function to be minimised, with or without formulas for its derivatives. `Consult` is the
conversation of a method with it: the method asks for values, gradients and Hessians at points of
the right dimension and never sees how they are obtained.
-/

namespace Minima

structure Objective (R : Type) (n : Nat) where
  name : String
  value : Vector R n → Attempt R R
  gradient? : Option (Vector R n → Attempt R (Array R))
  /-- The entries of the Hessian, by rows. -/
  hessian? : Option (Vector R n → Attempt R (Array R))
  /-- Does dividing the value at this point by zero fail, or give an infinity? -/
  guarded : Vector R n → Bool := fun _ => true

inductive Question (R : Type) (n : Nat) where
  | value (x : Vector R n)
  | gradient (x : Vector R n)
  | hessian (x : Vector R n)

def Question.point {R : Type} {n : Nat} : Question R n → Vector R n
  | .value x | .gradient x | .hessian x => x

abbrev Answer {R : Type} {n : Nat} : Question R n → Type
  | .value _ => R
  | .gradient _ => Vector R n
  | .hessian _ => Linear.Square R n

abbrev Consult (R : Type) (n : Nat) := Dialogue (Question R n) Answer (Failure R)

namespace Consult

variable {R : Type} {n : Nat}

def value (x : Vector R n) : Consult R n R := Dialogue.question (Question.value x)

def gradient (x : Vector R n) : Consult R n (Vector R n) := Dialogue.question (Question.gradient x)

def hessian (x : Vector R n) : Consult R n (Linear.Square R n) :=
  Dialogue.question (Question.hessian x)

end Consult

end Minima
