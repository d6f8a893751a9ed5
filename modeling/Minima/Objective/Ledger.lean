import Minima.Objective.Difference

/-!
# The ledger of an objective

Evaluations are counted and the last one of each kind is remembered. A request at the point of the
last successful request of its kind is answered from memory and costs nothing; any other request is
counted before the function is called, so that a failing evaluation is counted too and leaves the
memory as it was. Differences call the function directly and are neither counted nor remembered.
-/

namespace Minima

/-- Counters and memory of an objective of `n` variables. -/
structure Ledger (R : Type) (n : Nat) where
  values : Nat := 0
  gradients : Nat := 0
  hessians : Nat := 0
  lastValue : Option (Vector R n × R) := none
  lastGradient : Option (Vector R n × Array R) := none
  lastHessian : Option (Vector R n × Linear.Square R n) := none

namespace Ledger

variable {R : Type} [Scalar R] {n : Nat}

def empty : Ledger R n := {}

/-- The remembered answer, if it belongs to an equal point. An undefined component equals
nothing. -/
def remembered? {α : Type} (memory : Option (Vector R n × α)) (x : Vector R n) : Option α :=
  match memory with
  | some (y, a) => if Linear.same y x then some a else none
  | none => none

/-- The step of the differences that stand in for a missing gradient. -/
def gradientStep : R := 1e-6

/-- The step of the differences that stand in for a missing Hessian. -/
def hessianStep : R := 1e-4

/-- The gradient by formula, else by differences. -/
def rawGradient (f : Objective R n) (x : Vector R n) : Attempt R (Array R) :=
  match f.gradient? with
  | some g => g x
  | none => do return (← f.differenceGradient x gradientStep).toArray

/-- The place of an entry of a matrix in the list of its rows. -/
theorem flat_lt (i j : Fin n) : i.val * n + j.val < n * n := by
  have h : (i.val + 1) * n ≤ n * n := Nat.mul_le_mul_right n i.isLt
  have : (i.val + 1) * n = i.val * n + n := Nat.succ_mul i.val n
  omega

def rawHessian (f : Objective R n) (x : Vector R n) : Attempt R (Linear.Square R n) :=
  match f.hessian? with
  | some h => do
    let entries ← h x
    if h : entries.size = n * n then
      return Linear.Square.ofFn fun i j =>
        have := h ▸ flat_lt i j
        entries[i.val * n + j.val]
    else throw .shapeMismatch
  | none => f.differenceHessian x hessianStep

def value (f : Objective R n) (x : Vector R n) (l : Ledger R n) : Attempt R R × Ledger R n :=
  match remembered? l.lastValue x with
  | some v => (.ok v, l)
  | none =>
    let l := { l with values := l.values + 1 }
    match f.value x with
    | .ok v => (.ok v, { l with lastValue := some (x, v) })
    | .error e => (.error e, l)

/-- Answer a request for the gradient, of whatever length it is. -/
def gradient (f : Objective R n) (x : Vector R n) (l : Ledger R n) :
    Attempt R (Array R) × Ledger R n :=
  match remembered? l.lastGradient x with
  | some g => (.ok g, l)
  | none =>
    let l := { l with gradients := l.gradients + 1 }
    match rawGradient f x with
    | .ok g => (.ok g, { l with lastGradient := some (x, g) })
    | .error e => (.error e, l)

def hessian (f : Objective R n) (x : Vector R n) (l : Ledger R n) :
    Attempt R (Linear.Square R n) × Ledger R n :=
  match remembered? l.lastHessian x with
  | some h => (.ok h, l)
  | none =>
    let l := { l with hessians := l.hessians + 1 }
    match rawHessian f x with
    | .ok h => (.ok h, { l with lastHessian := some (x, h) })
    | .error e => (.error e, l)

/-- A gradient as a vector of the dimension of the objective. -/
def sized (g : Array R) : Attempt R (Vector R n) :=
  if h : g.size = n then pure ⟨g, h⟩ else throw .shapeMismatch

def answer (f : Objective R n) : (q : Question R n) → Ledger R n → Attempt R (Answer q) × Ledger R n
  | .value x, l => value f x l
  | .gradient x, l =>
    match gradient f x l with
    | (.ok g, l') => (sized g, l')
    | (.error e, l') => (.error e, l')
  | .hessian x, l => hessian f x l

/-- The answer without any memory. -/
def plainAnswer (f : Objective R n) : (q : Question R n) → Attempt R (Answer q)
  | .value x => f.value x
  | .gradient x => rawGradient f x >>= sized
  | .hessian x => rawHessian f x

def counts (l : Ledger R n) : Nat × Nat × Nat := (l.values, l.gradients, l.hessians)

def point? (f : Objective R n) (t : Tensor R) : Attempt R (Vector R n) :=
  match t.toVector? n with
  | some x => pure x
  | none => throw (.configuration (.pointShape f.name n t.shape))

/-- Answer a request at a point of any shape; a wrong shape is refused and not counted. -/
def request {α : Type} (f : Objective R n)
    (evaluate : Vector R n → Ledger R n → Attempt R α × Ledger R n)
    (t : Tensor R) (l : Ledger R n) : Attempt R α × Ledger R n :=
  match point? f t with
  | .ok x => evaluate x l
  | .error e => (.error e, l)

end Ledger

def Consult.run {R : Type} [Scalar R] {n : Nat} {α : Type} (d : Consult R n α) (f : Objective R n)
    (l : Ledger R n) : Attempt R α × Ledger R n :=
  d.play (Ledger.answer f) l

end Minima
