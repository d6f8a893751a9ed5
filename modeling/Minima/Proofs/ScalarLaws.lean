import Mathlib
import Minima.Objective.Ledger
import Minima.Scalar.Double
import Minima.Scalar.Real

/-!
# What doubles and reals have in common

No arithmetic is assumed of scalars, but a few laws of comparison are: equality is symmetric and
transitive, though not reflexive, two scalars that are not undefined are comparable, and equal
scalars stay equal when one finite scalar is added to both or taken from both. Reals obey them, and
so do doubles with their two zeros, their infinities and the undefined one. For doubles everything
goes by cases on what the bits stand for: an infinity, nothing, a zero or a sign with a mantissa and
an exponent.
-/

namespace Minima

/-- The laws of comparison that the algorithms rely on. -/
class Scalar.Lawful (R : Type) [Scalar R] : Prop where
  beq_symm : ∀ {a b : R}, (a == b) = true → (b == a) = true
  beq_trans : ∀ {a b c : R}, (a == b) = true → (b == c) = true → (a == c) = true
  le_of_lt : ∀ {a b : R}, a < b → a ≤ b
  le_of_not_lt : ∀ {a b : R}, Scalar.isNaN a = false → Scalar.isNaN b = false → ¬a < b → b ≤ a
  defined_of_finite : ∀ {a : R}, Scalar.isFinite a = true → Scalar.isNaN a = false
  add_congr : ∀ {a b c : R}, Scalar.isFinite c = true → (a == b) = true → (a + c == b + c) = true
  sub_congr : ∀ {a b c : R}, Scalar.isFinite c = true → (a == b) = true → (a - c == b - c) = true
  finite_zero : Scalar.isFinite (0.0 : R) = true
  finite_gradientStep : Scalar.isFinite (Ledger.gradientStep : R) = true
  /-- The steps of the second differences: one along the axis, none along the others. -/
  finite_ahead : Scalar.isFinite (1.0 * Ledger.hessianStep : R) = true
  finite_beside : Scalar.isFinite (0.0 * Ledger.hessianStep : R) = true

/-! ## Reals -/

instance : Scalar.Lawful ℝ where
  beq_symm h := (RealScalar.beq_iff _ _).mpr ((RealScalar.beq_iff _ _).mp h).symm
  beq_trans h h' :=
    (RealScalar.beq_iff _ _).mpr
      (((RealScalar.beq_iff _ _).mp h).trans ((RealScalar.beq_iff _ _).mp h'))
  le_of_lt h := h.le
  le_of_not_lt _ _ h := le_of_not_gt h
  defined_of_finite _ := rfl
  add_congr _ h := by
    obtain rfl := (RealScalar.beq_iff _ _).mp h
    exact (RealScalar.beq_iff _ _).mpr rfl
  sub_congr _ h := by
    obtain rfl := (RealScalar.beq_iff _ _).mp h
    exact (RealScalar.beq_iff _ _).mpr rfl
  finite_zero := rfl
  finite_gradientStep := rfl
  finite_ahead := rfl
  finite_beside := rfl

/-! ## Doubles -/

namespace Double

open Float.Model (Format UnpackedFloat)
open Float.Model.UnpackedFloat (Sign beq_iff_ne_notANumber_and_eq unpackExponent_packComponents)

/-- Two doubles compare as equal if they are the same, but not undefined, or both are zeros. -/
theorem beq_cases {a b : UnpackedFloat} (h : a.beq b = true) :
    (a = b ∧ a.isNaN = false) ∨ ∃ s t, a = .zero s ∧ b = .zero t := by
  obtain ⟨ha, -, rfl | ⟨rfl, rfl⟩ | ⟨rfl, rfl⟩⟩ := (beq_iff_ne_notANumber_and_eq a b).mp h
  · exact .inl ⟨rfl, Bool.eq_false_iff.mpr (mt UnpackedFloat.isNaN_iff.mp ha)⟩
  · exact .inr ⟨_, _, rfl, rfl⟩
  · exact .inr ⟨_, _, rfl, rfl⟩

theorem beq_self {a : UnpackedFloat} (h : a.isNaN = false) : a.beq a = true := by
  have ha : a ≠ .notANumber := mt UnpackedFloat.isNaN_iff.mpr (Bool.eq_false_iff.mp h)
  exact (beq_iff_ne_notANumber_and_eq a a).mpr ⟨ha, ha, .inl rfl⟩

theorem compare_swap (a b : UnpackedFloat) : b.compare a = (a.compare b).map Ordering.swap := by
  have hcompare (m m' : Nat) (e e' : Int) :
      (compare e' e).then (compare m' m) = ((compare e e').then (compare m m')).swap := by
    rw [Ordering.swap_then, ← Std.OrientedCmp.eq_swap, ← Std.OrientedCmp.eq_swap]
  cases a with
  | notANumber => cases b <;> rfl
  | infinity s => cases s <;> cases b with
    | infinity t => cases t <;> rfl
    | _ => rfl
  | zero s => cases b with
    | infinity t => cases t <;> rfl
    | finite t => cases t <;> rfl
    | _ => rfl
  | finite s m e hm => cases b with
    | infinity t => cases s <;> cases t <;> rfl
    | zero t => cases s <;> rfl
    | notANumber => cases s <;> rfl
    | finite t m' e' hm' =>
        cases s <;> cases t <;> simp [UnpackedFloat.compare, hcompare m m' e e']

theorem exists_compare {a b : UnpackedFloat} (ha : a.isNaN = false) (hb : b.isNaN = false) :
    ∃ o, a.compare b = some o := by
  cases a with
  | notANumber => cases ha
  | infinity s => cases s <;> cases b <;> first | exact ⟨_, rfl⟩ | cases hb
  | zero s => cases b with
    | notANumber => cases hb
    | infinity t => cases t <;> exact ⟨_, rfl⟩
    | finite t => cases t <;> exact ⟨_, rfl⟩
    | zero t => exact ⟨_, rfl⟩
  | finite s m e hm => cases b with
    | notANumber => cases hb
    | infinity t => cases s <;> cases t <;> exact ⟨_, rfl⟩
    | zero t => cases s <;> exact ⟨_, rfl⟩
    | finite t m' e' hm' => cases s <;> cases t <;> exact ⟨_, rfl⟩

theorem le_of_lt {a b : UnpackedFloat} (h : a.lt b = true) : a.le b = true := by
  have hlt : a.compare b = some .lt := by simpa [UnpackedFloat.lt] using h
  simp [UnpackedFloat.le, hlt]

theorem le_of_not_lt {a b : UnpackedFloat} (ha : a.isNaN = false) (hb : b.isNaN = false)
    (h : a.lt b ≠ true) : b.le a = true := by
  obtain ⟨o, ho⟩ := exists_compare ha hb
  have hswap : b.compare a = some o.swap := by rw [compare_swap a b, ho]; rfl
  cases o with
  | lt => exact absurd (by simp [UnpackedFloat.lt, ho]) h
  | eq => simp [UnpackedFloat.le, hswap]
  | gt => simp [UnpackedFloat.le, hswap]

/-! ### Packing -/

/-- What is read from the bits that an operation writes. -/
def repack (a : UnpackedFloat) : UnpackedFloat :=
  UnpackedFloat.unpack Format.binary64 (UnpackedFloat.pack Format.binary64 a)

theorem repack_isNaN (a : UnpackedFloat) : (repack a).isNaN = a.isNaN := by
  have hzero : (0#11 : BitVec 11) ≠ -1#11 := by decide
  unfold repack
  fun_cases UnpackedFloat.pack Format.binary64 a with
  | case1 => decide
  | case2 s => cases s <;> decide
  | case3 s => cases s <;> decide
  | case4 s m e hm biased h =>
      show UnpackedFloat.isNaN _ = false
      cases s <;> decide
  | case5 s m e hm digits biased hsmall hnormal =>
      -- a normal double: the exponent field is not all ones
      have hb : BitVec.ofNat 11 biased ≠ -1#11 := by
        intro hb
        have hlt : biased + 1 < 2048 := Nat.lt_of_not_le hsmall
        have hnat := congrArg BitVec.toNat hb
        rw [BitVec.toNat_ofNat, Nat.mod_eq_of_lt (by omega)] at hnat
        have hones : (-1#11 : BitVec 11).toNat = 2047 := by decide
        omega
      simp only [UnpackedFloat.unpack, unpackExponent_packComponents, if_neg hb]
      split
      · split <;> rfl
      · rfl
  | case6 s m e hm digits biased hsmall hsubnormal =>
      simp only [UnpackedFloat.unpack, unpackExponent_packComponents, if_neg hzero]
      split
      · split <;> rfl
      · rfl

theorem repack_zeros (s t : Sign) : (repack (.zero s)).beq (repack (.zero t)) = true := by
  cases s <;> cases t <;> decide

/-! ### Sums and differences -/

theorem normalize_isNaN (m e : Int) (s : Sign) :
    (UnpackedFloat.normalize Format.binary64 m e s).isNaN = false := by
  have hround (s : Sign) (m : Nat) (e : Int) :
      (UnpackedFloat.round Format.binary64 s m e).isNaN = false := by
    simp only [UnpackedFloat.round, UnpackedFloat.roundWithAccuracy]
    split <;> rfl
  unfold UnpackedFloat.normalize
  split
  · exact hround ..
  · rfl
  · exact hround ..

theorem add_isNaN {a c : UnpackedFloat} (ha : a.isNaN = false) (hc : c.isFinite = true) :
    (UnpackedFloat.add Format.binary64 a c).isNaN = false := by
  cases c with
  | notANumber => cases hc
  | infinity t => cases hc
  | zero t => cases a with
    | notANumber => cases ha
    | zero s =>
        simp only [UnpackedFloat.add]
        split <;> rfl
    | _ => rfl
  | finite t m' e' hm' => cases a with
    | notANumber => cases ha
    | finite s m e hm => exact normalize_isNaN ..
    | _ => rfl

theorem sub_isNaN {a c : UnpackedFloat} (ha : a.isNaN = false) (hc : c.isFinite = true) :
    (UnpackedFloat.sub Format.binary64 a c).isNaN = false := by
  cases c with
  | notANumber => cases hc
  | infinity t => cases hc
  | zero t => cases a with
    | notANumber => cases ha
    | zero s =>
        simp only [UnpackedFloat.sub]
        split <;> rfl
    | _ => rfl
  | finite t m' e' hm' => cases a with
    | notANumber => cases ha
    | finite s m e hm => exact normalize_isNaN ..
    | _ => rfl

/-- An operation that keeps what is defined defined, and does not tell the zeros apart, takes equal
doubles to equal doubles. -/
theorem repack_congr {op : UnpackedFloat → UnpackedFloat}
    (hdefined : ∀ {a}, a.isNaN = false → (op a).isNaN = false)
    (hzeros : ∀ s t, op (.zero s) = op (.zero t) ∨
      ∃ s' t', op (.zero s) = .zero s' ∧ op (.zero t) = .zero t')
    {a b : UnpackedFloat} (h : a.beq b = true) : (repack (op a)).beq (repack (op b)) = true := by
  rcases beq_cases h with ⟨rfl, ha⟩ | ⟨s, t, rfl, rfl⟩
  · exact beq_self ((repack_isNaN _).trans (hdefined ha))
  · rcases hzeros s t with heq | ⟨s', t', hs, ht⟩
    · rw [heq]
      exact beq_self ((repack_isNaN _).trans (hdefined rfl))
    · rw [hs, ht]
      exact repack_zeros s' t'

theorem add_zeros {c : UnpackedFloat} (hc : c.isFinite = true) (s t : Sign) :
    UnpackedFloat.add Format.binary64 (.zero s) c = UnpackedFloat.add Format.binary64 (.zero t) c ∨
      ∃ s' t', UnpackedFloat.add Format.binary64 (.zero s) c = .zero s' ∧
        UnpackedFloat.add Format.binary64 (.zero t) c = .zero t' := by
  cases c with
  | notANumber => cases hc
  | infinity u => cases hc
  | finite u m e hm => exact .inl rfl
  | zero u => exact .inr (by cases s <;> cases t <;> cases u <;> exact ⟨_, _, rfl, rfl⟩)

theorem sub_zeros {c : UnpackedFloat} (hc : c.isFinite = true) (s t : Sign) :
    UnpackedFloat.sub Format.binary64 (.zero s) c = UnpackedFloat.sub Format.binary64 (.zero t) c ∨
      ∃ s' t', UnpackedFloat.sub Format.binary64 (.zero s) c = .zero s' ∧
        UnpackedFloat.sub Format.binary64 (.zero t) c = .zero t' := by
  cases c with
  | notANumber => cases hc
  | infinity u => cases hc
  | finite u m e hm => exact .inl rfl
  | zero u => exact .inr (by cases s <;> cases t <;> cases u <;> exact ⟨_, _, rfl, rfl⟩)

end Double

instance : Scalar.Lawful Float where
  beq_symm h := PartialEquivBEq.symm h
  beq_trans h h' := PartialEquivBEq.trans h h'
  le_of_lt := by
    intro a b h
    have hlt : a.toModel.unpack.lt b.toModel.unpack = true := of_decide_eq_true h
    exact decide_eq_true (Double.le_of_lt hlt)
  le_of_not_lt := by
    intro a b ha hb h
    have hlt : a.toModel.unpack.lt b.toModel.unpack ≠ true := fun hlt => h (decide_eq_true hlt)
    exact decide_eq_true (Double.le_of_not_lt ha hb hlt)
  defined_of_finite := by
    intro a h
    change a.toModel.unpack.isFinite = true at h
    show a.toModel.unpack.isNaN = false
    cases hu : a.toModel.unpack with
    | notANumber =>
        rw [hu] at h
        cases h
    | _ => rfl
  add_congr := by
    intro a b c hc h
    exact Double.repack_congr (fun ha => Double.add_isNaN ha hc) (Double.add_zeros hc) h
  sub_congr := by
    intro a b c hc h
    exact Double.repack_congr (fun ha => Double.sub_isNaN ha hc) (Double.sub_zeros hc) h
  finite_zero := by decide
  finite_gradientStep := by decide
  finite_ahead := by decide
  finite_beside := by decide

end Minima
