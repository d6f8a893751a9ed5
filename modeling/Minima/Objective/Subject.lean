import Minima.Objective.Ledger

/-!
# Objectives in use

An objective of any dimension together with its ledger. Inquiries take points of any shape; those of
a wrong shape are refused.
-/

namespace Minima

/-- An objective with what has been counted and remembered of it. -/
structure Subject (R : Type) where
  n : Nat
  objective : Objective R n
  ledger : Ledger R n := {}

/-- Something to ask of an objective of any dimension. -/
abbrev Inquiry (R α : Type) := (n : Nat) → Objective R n → Ledger R n → Attempt R α × Ledger R n

namespace Inquiry

variable {R : Type} [Scalar R]

def value (x : Tensor R) : Inquiry R R := fun _ f => Ledger.request f (Ledger.value f) x

def gradient (x : Tensor R) : Inquiry R (Array R) := fun _ f =>
  Ledger.request f (Ledger.gradient f) x

def hessian (x : Tensor R) : Inquiry R (Tensor R) := fun n f l =>
  let (answer, l') := Ledger.request f (Ledger.hessian f) x l
  (answer.map fun h => Tensor.ofRows n (h.toArray.map Vector.toArray), l')

def reset : Inquiry R Unit := fun _ _ _ => (.ok (), {})

end Inquiry

namespace Subject

variable {R : Type} [Scalar R]

/-- An objective that nothing has been asked of. It has to have a variable. -/
def ofObjective? {n : Nat} (f : Objective R n) : Attempt R (Subject R) :=
  if n = 0 then throw (.configuration (.dimensionNotPositive (.whole 0)))
  else pure { n, objective := f }

def reset (s : Subject R) : Subject R := { s with ledger := {} }

/-- Ask, and keep the ledger. -/
def ask {α : Type} (s : Subject R) (q : Inquiry R α) : Attempt R α × Subject R :=
  let (answer, ledger) := q s.n s.objective s.ledger
  (answer, { s with ledger })

def counts (s : Subject R) : Nat × Nat × Nat := s.ledger.counts

end Subject

end Minima
