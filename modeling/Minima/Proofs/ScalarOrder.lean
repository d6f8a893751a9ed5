import Mathlib.Data.Prod.Lex
import Minima.Proofs.ScalarLaws

/-!
# The order of scalars

Scalars that are not undefined are ordered as usual, up to scalars that are equal without being the
same; an undefined one is not below, above or equal to anything. For doubles this is read off a
rank: the negative infinity, the negative numbers, the zeros, the positive numbers and the positive
infinity follow each other, and numbers of one sign go by exponent and mantissa.
-/

namespace Minima

/-- The laws of order that the algorithms rely on. -/
class Scalar.Ordered (R : Type) [Scalar R] : Prop extends Scalar.Lawful R where
  defined_of_le : ∀ {a b : R}, a ≤ b → Scalar.isNaN a = false ∧ Scalar.isNaN b = false
  le_trans : ∀ {a b c : R}, a ≤ b → b ≤ c → a ≤ c
  not_le_of_lt : ∀ {a b : R}, a < b → ¬ b ≤ a
  beq_self : ∀ {a : R}, Scalar.isNaN a = false → (a == a) = true

namespace Scalar

variable {R : Type} [Scalar R] [Ordered R] {a b c : R}

theorem defined_of_lt (h : a < b) : isNaN a = false ∧ isNaN b = false :=
  Ordered.defined_of_le (Lawful.le_of_lt h)

theorem lt_irrefl (a : R) : ¬ a < a := by
  intro h
  exact Ordered.not_le_of_lt h (Lawful.le_of_lt h)

theorem le_self (h : isNaN a = false) : a ≤ a := Lawful.le_of_not_lt h h (lt_irrefl a)

theorem lt_of_lt_of_le (h : a < b) (h' : b ≤ c) : a < c := by
  have ha := (defined_of_lt h).1
  have hc := (Ordered.defined_of_le h').2
  by_contra hnot
  have hca : c ≤ a := Lawful.le_of_not_lt ha hc hnot
  exact Ordered.not_le_of_lt h (Ordered.le_trans h' hca)

theorem lt_trans (h : a < b) (h' : b < c) : a < c := lt_of_lt_of_le h (Lawful.le_of_lt h')

end Scalar

/-! ## Reals -/

instance : Scalar.Ordered ℝ where
  defined_of_le _ := ⟨rfl, rfl⟩
  le_trans h h' := h.trans h'
  not_le_of_lt h := not_le_of_gt h
  beq_self _ := (RealScalar.beq_iff _ _).mpr rfl

/-! ## Doubles -/

namespace Double

open Float.Model (UnpackedFloat)

/-- The place of what is defined in the order of doubles. -/
def rank : UnpackedFloat → ℤ ×ₗ ℤ ×ₗ ℤ
  | .infinity .negative => toLex (-2, toLex (0, 0))
  | .finite .negative m e _ => toLex (-1, toLex (-e, -(m : ℤ)))
  | .zero _ | .notANumber => toLex (0, toLex (0, 0))
  | .finite .positive m e _ => toLex (1, toLex (e, (m : ℤ)))
  | .infinity .positive => toLex (2, toLex (0, 0))

theorem lt_iff (a b : UnpackedFloat) :
    a.lt b = true ↔ a.isNaN = false ∧ b.isNaN = false ∧ rank a < rank b := by
  have hbelow (m m' : Nat) (e e' : Int) :
      (compare e e').then (compare m m') = .lt ↔ e < e' ∨ e = e' ∧ m < m' := by
    rw [Ordering.then_eq_lt, compare_lt_iff_lt, compare_eq_iff_eq, compare_lt_iff_lt]
  have habove (m m' : Nat) (e e' : Int) :
      (compare e e').then (compare m m') = .gt ↔ e' < e ∨ e = e' ∧ m' < m := by
    rw [Ordering.then_eq_gt, compare_gt_iff_gt, compare_eq_iff_eq, compare_gt_iff_gt]
  unfold UnpackedFloat.lt
  cases a with
  | notANumber => simp [UnpackedFloat.compare, UnpackedFloat.isNaN]
  | infinity s => cases s <;> cases b with
    | notANumber => simp [UnpackedFloat.compare, UnpackedFloat.isNaN]
    | infinity t => cases t <;> decide
    | zero t => simp [UnpackedFloat.compare, UnpackedFloat.isNaN, rank, Prod.Lex.lt_iff]
    | finite t =>
        cases t <;> simp [UnpackedFloat.compare, UnpackedFloat.isNaN, rank, Prod.Lex.lt_iff]
  | zero s => cases b with
    | notANumber | zero t => simp [UnpackedFloat.compare, UnpackedFloat.isNaN, rank]
    | infinity t | finite t =>
        cases t <;> simp [UnpackedFloat.compare, UnpackedFloat.isNaN, rank, Prod.Lex.lt_iff]
  | finite s m e hm => cases s <;> cases b with
    | notANumber | zero t =>
        simp [UnpackedFloat.compare, UnpackedFloat.isNaN, rank, Prod.Lex.lt_iff]
    | infinity t =>
        cases t <;> simp [UnpackedFloat.compare, UnpackedFloat.isNaN, rank, Prod.Lex.lt_iff]
    | finite t =>
        cases t <;>
          simp [UnpackedFloat.compare, UnpackedFloat.isNaN, rank, Prod.Lex.lt_iff, hbelow, habove]

theorem defined_of_compare {a b : UnpackedFloat} {o : Ordering} (h : a.compare b = some o) :
    a.isNaN = false ∧ b.isNaN = false := by
  cases a with
  | notANumber => cases h
  | _ => cases b with
    | notANumber => simp [UnpackedFloat.compare] at h
    | _ => exact ⟨rfl, rfl⟩

theorem le_iff (a b : UnpackedFloat) :
    a.le b = true ↔ a.isNaN = false ∧ b.isNaN = false ∧ rank a ≤ rank b := by
  constructor
  · intro h
    obtain ⟨o, ho, hle⟩ := (Option.any_eq_true _ _).mp h
    have hdefined := defined_of_compare ho
    refine ⟨hdefined.1, hdefined.2, not_lt.mp fun hlt => ?_⟩
    have hback : b.lt a = true := (lt_iff b a).mpr ⟨hdefined.2, hdefined.1, hlt⟩
    have hswap : b.compare a = some .lt := by simpa [UnpackedFloat.lt] using hback
    rw [compare_swap b a, hswap] at ho
    cases ho
    cases hle
  · rintro ⟨ha, hb, h⟩
    refine le_of_not_lt hb ha fun hlt => ?_
    exact not_lt.mpr h ((lt_iff b a).mp hlt).2.2

end Double

instance : Scalar.Ordered Float where
  defined_of_le := by
    intro a b h
    have hle := (Double.le_iff _ _).mp (of_decide_eq_true h)
    exact ⟨hle.1, hle.2.1⟩
  le_trans := by
    intro a b c h h'
    obtain ⟨ha, -, hab⟩ := (Double.le_iff _ _).mp (of_decide_eq_true h)
    obtain ⟨-, hc, hbc⟩ := (Double.le_iff _ _).mp (of_decide_eq_true h')
    exact decide_eq_true ((Double.le_iff _ _).mpr ⟨ha, hc, hab.trans hbc⟩)
  not_le_of_lt := by
    intro a b h h'
    obtain ⟨-, -, hab⟩ := (Double.lt_iff _ _).mp (of_decide_eq_true h)
    obtain ⟨-, -, hba⟩ := (Double.le_iff _ _).mp (of_decide_eq_true h')
    exact absurd hab hba.not_gt
  beq_self := by
    intro a h
    exact Double.beq_self h

/-! ## Products -/

/-- A product is undefined as soon as its first factor is. -/
class Scalar.Strict (R : Type) [Scalar R] : Prop where
  defined_of_mul : ∀ {a b : R}, Scalar.isNaN (a * b) = false → Scalar.isNaN a = false

instance : Scalar.Strict ℝ where
  defined_of_mul _ := rfl

instance : Scalar.Strict Float where
  defined_of_mul := by
    intro a b h
    change (Double.repack (Float.Model.UnpackedFloat.mul Float.Model.Format.binary64
      a.toModel.unpack b.toModel.unpack)).isNaN = false at h
    rw [Double.repack_isNaN] at h
    show a.toModel.unpack.isNaN = false
    cases ha : a.toModel.unpack with
    | notANumber =>
        rw [ha] at h
        cases hb : b.toModel.unpack <;> rw [hb] at h <;> cases h
    | _ => rfl

end Minima
