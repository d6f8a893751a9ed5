import Minima.Failure

/-!
# Arrays of numbers

A point can be given in any shape, and is only then found to be a vector of the right length or not.
A tensor is such a value: its shape, and its entries in the order in which they are written.
-/

namespace Minima

inductive Nested (R : Type) where
  | leaf (x : R)
  | node (l : List (Nested R))
deriving Inhabited

/-- Entries in reading order, with the lengths of the nested lists from the outside in. -/
structure Tensor (R : Type) where
  shape : List Nat
  entries : Array R
deriving Inhabited, DecidableEq

namespace Tensor

variable {R : Type}

def ofArray (a : Array R) : Tensor R := ⟨[a.size], a⟩

def ofVector {n : Nat} (v : Vector R n) : Tensor R := ofArray v.toArray

def scalar (x : R) : Tensor R := ⟨[], #[x]⟩

/-- A matrix, by rows of `width` entries. -/
def ofRows (width : Nat) (rows : Array (Array R)) : Tensor R :=
  ⟨[rows.size, width], rows.foldl (· ++ ·) #[]⟩

/-- Put tensors of one shape below each other. -/
def stack? (parts : List (Tensor R)) : Attempt R (Tensor R) :=
  match parts with
  | [] => pure ⟨[0], #[]⟩
  | t :: rest =>
    if rest.all (·.shape == t.shape) then
      pure ⟨parts.length :: t.shape, parts.foldl (fun acc p => acc ++ p.entries) #[]⟩
    else throw .shapeMismatch

/-- The entries if the tensor is a vector of length `n`. -/
def toVector? (n : Nat) (t : Tensor R) : Option (Vector R n) :=
  if h : t.shape = [n] ∧ t.entries.size = n then some ⟨t.entries, h.2⟩ else none

end Tensor

mutual

/-- The tensor of a nested list; a list whose parts differ in shape has none. -/
def Nested.tensor? {R : Type} : Nested R → Attempt R (Tensor R)
  | .leaf x => pure (Tensor.scalar x)
  | .node l => do Tensor.stack? (← Nested.tensors? l)

def Nested.tensors? {R : Type} : List (Nested R) → Attempt R (List (Tensor R))
  | [] => pure []
  | t :: ts => do return (← t.tensor?) :: (← Nested.tensors? ts)

end

end Minima
