import Minima.Linear.Vector
import Minima.Tensor

/-!
# Feasible regions

The whole space or a box. Methods project every point that they try, so that a run stays inside. An
undefined component of a point stays undefined.
-/

namespace Minima

/-- A box: bounds in every coordinate, which may be infinite. -/
structure Box (R : Type) [Scalar R] (n : Nat) where
  lower : Vector R n
  upper : Vector R n
  defined : ∀ i : Fin n, (Scalar.isNaN (lower.get i) || Scalar.isNaN (upper.get i)) = false
  ordered : ∀ i : Fin n, ¬ upper.get i < lower.get i

inductive Region (R : Type) [Scalar R] (n : Nat) where
  | everywhere
  | box (b : Box R n)

/-- A region as a caller gives it, not tied to a dimension. A region without a definition can be
named but not used. -/
inductive Constraints (R : Type) [Scalar R] where
  | free
  | box {n : Nat} (b : Box R n)
  | undefined

namespace Box

variable {R : Type} [Scalar R] {n : Nat}

def make? (lower upper : Array R) : Attempt R (Σ n, Box R n) :=
  if hs : upper.size = lower.size then
    let n := lower.size
    let lo : Vector R n := lower.toVector
    let hi : Vector R n := ⟨upper, hs⟩
    if hd : ∀ i : Fin n, (Scalar.isNaN (lo.get i) || Scalar.isNaN (hi.get i)) = false then
      if ho : ∀ i : Fin n, ¬ hi.get i < lo.get i then pure ⟨n, lo, hi, hd, ho⟩
      else throw (.configuration .boundsCrossed)
    else throw (.configuration .boundUndefined)
  else throw (.configuration (.boundShapes [lower.size] [upper.size]))

def project (b : Box R n) (x : Vector R n) : Vector R n :=
  Vector.ofFn fun i => Scalar.clamp (b.lower.get i) (b.upper.get i) (x.get i)

def contains (b : Box R n) (x : Vector R n) : Bool :=
  (List.finRange n).all fun i =>
    decide (b.lower.get i ≤ x.get i) && decide (x.get i ≤ b.upper.get i)

end Box

namespace Region

variable {R : Type} [Scalar R] {n : Nat}

def project : Region R n → Vector R n → Vector R n
  | .everywhere, x => x
  | .box b, x => b.project x

end Region

namespace Constraints

variable {R : Type} [Scalar R]

/-- The dimension that the constraints are tied to. -/
def size? : Constraints R → Option Nat
  | .box (n := n) _ => some n
  | _ => none

def region? (n : Nat) : Constraints R → Option (Region R n)
  | .free | .undefined => some .everywhere
  | .box (n := m) b => if h : m = n then some (.box (h ▸ b)) else none

/-- Combine every row of a tensor with the bounds of a box. A row of one entry is repeated for every
bound, and a single bound serves for every entry. -/
def combine {n : Nat} {α : Type} (b : Box R n) (t : Tensor R) (f : R → R → R → α) :
    Attempt R (List Nat × Array α) :=
  let outer := t.shape.dropLast
  let width := t.shape.getLast?.getD 1
  let result := if width = n then some n else if width = 1 then some n
    else if n = 1 then some width else none
  match result with
  | none => throw .shapeMismatch
  | some m =>
    let rows := outer.foldl (· * ·) 1
    let entry (r c : Nat) : Option α := do
      let x ← t.entries[r * width + (if width = 1 then 0 else c)]?
      let i := if n = 1 then 0 else c
      return f (← b.lower[i]?) (← b.upper[i]?) x
    pure (outer ++ [m],
      ((List.range rows).flatMap fun r => (List.range m).filterMap (entry r)).toArray)

def project (t : Tensor R) : Constraints R → Attempt R (Tensor R)
  | .free => pure t
  | .box b => do
    let (shape, entries) ← combine b t fun lo hi x => Scalar.clamp lo hi x
    return ⟨shape, entries⟩
  | .undefined => throw .noDefinition

def isFeasible (t : Tensor R) : Constraints R → Attempt R Bool
  | .free => pure true
  | .box b => do
    let (_, inside) ← combine b t fun lo hi x => decide (lo ≤ x) && decide (x ≤ hi)
    return inside.all id
  | .undefined => throw .noDefinition

end Constraints

end Minima
