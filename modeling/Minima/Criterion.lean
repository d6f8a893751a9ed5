import Minima.Dialogue
import Minima.Setting.Conversion
import Minima.Snapshot

/-!
# Stopping criteria

A criterion measures a snapshot and holds when the measure falls below its threshold. It may ask for
the gradient at the point that it looks at. Criteria are combined into those that hold when one of
them holds, or all of them; combinations of one mode inside each other are one combination.
-/

namespace Minima

/-- A computation that asks for the components of the gradient at a point. -/
abbrev Gauge (R : Type) := Dialogue (Array R) (fun _ => Array R) (Failure R)

namespace Criterion

inductive Mode where
  | any
  | all
deriving DecidableEq, Repr

def Mode.key : Mode → String
  | .any => "any"
  | .all => "all"

def Mode.ofKey? (key : String) : Option Mode := [Mode.any, .all].find? (·.key == key)

end Criterion

inductive Criterion (R : Type) where
  /-- The gradient is short. -/
  | gradientNorm (threshold : R)
  /-- The value is near the least one. -/
  | valueDistance (least threshold : R) (relative : Bool)
  /-- The point is near the minimum. -/
  | pointDistance (minimum : Array R) (threshold : R) (relative : Bool)
  /-- Enough steps have been made. -/
  | iterations (limit : Nat)
  /-- A criterion of the caller's: what it measures and whether it holds, after how many steps. -/
  | custom (name : String) (threshold : R) (measure : Snapshot R → Nat → Gauge R R)
    (verdict : Snapshot R → Nat → Gauge R Bool)
  | compound (mode : Criterion.Mode) (criteria : List (Criterion R))

namespace Criterion

variable {R : Type}

def label : Criterion R → String
  | .gradientNorm _ => "GradNormTest"
  | .valueDistance .. => "FDistToMinTest"
  | .pointDistance .. => "XDistToMinTest"
  | .iterations _ => "MaxNumIterTest"
  | .custom name .. => name
  | .compound .. => "CompoundStoppingCriterion"

variable [Scalar R]

/-! ## Making criteria -/

def positive (criterion : Criterion R) (threshold : R) : Attempt R (Criterion R) :=
  if (0.0 : R) < threshold then pure criterion
  else throw (.configuration (.thresholdNotPositive criterion.label threshold))

def gradientNorm? (threshold : R) : Attempt R (Criterion R) :=
  positive (.gradientNorm threshold) threshold

/-- The value is nearer to `least` than `threshold`. -/
def valueDistance? (least threshold : R) (relative : Bool) : Attempt R (Criterion R) :=
  positive (.valueDistance least threshold relative) threshold

/-- The point is nearer to `minimum` than `threshold`. -/
def pointDistance? (minimum : Tensor R) (threshold : R) (relative : Bool) :
    Attempt R (Criterion R) :=
  positive (.pointDistance minimum.entries threshold relative) threshold

/-- At least `limit` steps have been made. -/
def iterations? (limit : Setting R) : Attempt R (Criterion R) := do
  let i ← limit.toWhole
  if 0 < i then
    let _ ← (Setting.whole i : Setting R).toReal
    return .iterations i.toNat
  throw (.configuration (.limitNotPositive limit))

/-- A criterion of the caller's that holds when its measure falls below the threshold. -/
def ofMeasure (name : String) (threshold : R) (measure : Snapshot R → Nat → Gauge R R) :
    Criterion R :=
  .custom name threshold measure fun s k => do return decide ((← measure s k) < threshold)

/-- The criteria of which a criterion consists when it becomes part of a combination. -/
def parts (mode : Option Mode) : Criterion R → List (Criterion R)
  | .compound inner criteria => if some inner = mode then criteria else [.compound inner criteria]
  | c => [c]

/-- Combine criteria. Combinations of the same mode are taken apart; there has to be one. -/
def compound? (criteria : List (Criterion R)) (mode : String) : Attempt R (Criterion R) :=
  let flat := criteria.flatMap (parts (Mode.ofKey? mode))
  if flat.isEmpty then throw (.configuration .noCriteria)
  else
    match Mode.ofKey? mode with
    | some m => pure (.compound m flat)
    | none => throw (.configuration (.unknownMode mode))

def join (mode : Mode) (a b : Criterion R) : Criterion R :=
  .compound mode (parts (some mode) a ++ parts (some mode) b)

/-! ## Using criteria -/

/-- The number below which the measure has to fall. -/
def threshold : Criterion R → R
  | .gradientNorm t | .valueDistance _ t _ | .pointDistance _ t _ | .custom _ t .. => t
  | .iterations limit => Scalar.ofNat limit
  | .compound .. => 0.0

/-- The distance of a value from the least one, divided by that unless it is zero. -/
def valueGap (least : R) (relative : Bool) (value : R) : R :=
  let gap := Scalar.abs (value - least)
  if relative && !(least == 0.0) then gap / Scalar.abs least else gap

/-- The distance of a point from the minimum, divided by the length of that if it has any. -/
def pointGap (minimum : Array R) (relative : Bool) (point : Array R) : Attempt R R :=
  if h : point.size = minimum.size then
    let x : Vector R minimum.size := ⟨point, h⟩
    let m : Vector R minimum.size := minimum.toVector
    let gap := Linear.norm (x - m)
    let length := Linear.norm m
    pure (if relative && decide ((0.0 : R) < length) then gap / length else gap)
  else throw (.configuration (.minimumShape [minimum.size] [point.size]))

def gradientLength (point : Array R) : Gauge R R := do
  let g ← Dialogue.question (A := fun _ => Array R) point
  return Linear.norm g.toVector

mutual

/-- The measure of a snapshot after `k` steps: for a combination that of the first part that holds,
or of the first part if none does. -/
def measure (s : Snapshot R) (k : Nat) : Criterion R → Gauge R R
  | .gradientNorm _ => gradientLength s.point
  | .valueDistance least _ relative => pure (valueGap least relative s.value)
  | .pointDistance minimum _ relative => do
    let gap ← pointGap minimum relative s.point
    return gap
  | .iterations _ => pure (Scalar.ofNat k)
  | .custom _ _ f _ => f s k
  | .compound _ criteria => do
    let held ← holding s k criteria
    measureNth s k (held.findIdx? id |>.getD 0) criteria

/-- Is it time to stop? Every part of a combination is consulted. -/
def holds (s : Snapshot R) (k : Nat) : Criterion R → Gauge R Bool
  | .iterations limit => pure (decide (limit ≤ k))
  | .compound mode criteria => do
    let held ← holding s k criteria
    return match mode with
      | .any => held.any id
      | .all => held.all id
  | .gradientNorm t => do return decide ((← gradientLength s.point) < t)
  | .valueDistance least t relative => pure (decide (valueGap least relative s.value < t))
  | .pointDistance minimum t relative => do
    let gap ← pointGap minimum relative s.point
    return decide (gap < t)
  | .custom _ _ _ verdict => verdict s k

def holding (s : Snapshot R) (k : Nat) : List (Criterion R) → Gauge R (List Bool)
  | [] => pure []
  | c :: cs => do
    let first ← holds s k c
    let rest ← holding s k cs
    return first :: rest

def measureNth (s : Snapshot R) (k : Nat) : Nat → List (Criterion R) → Gauge R R
  | _, [] => pure Scalar.undefined
  | 0, c :: _ => measure s k c
  | i + 1, _ :: cs => measureNth s k i cs

end

end Criterion

end Minima
