import Minima.Proofs.DoubleGrowth

/-!
# Decimals that doubles can hold

A decimal is read as a product or as a quotient of doubles that is rounded once. It stays finite when
the power of two in front of it is not too large, and in the last binade when rounding does not carry
beyond the mantissa.
-/

namespace Minima.Double

open Float.Model (Format UnpackedFloat totalExponent)
open Float.Model.UnpackedFloat

variable {s : Sign} {m : Nat} {e : Int}

/-! ## What can be held -/

/-- A double holds just this: a zero, or a mantissa in canonical form whose exponent is not too large. -/
def Held : UnpackedFloat → Prop
  | .zero _ => True
  | .finite _ m e _ => Canonical m e ∧ e ≤ 971
  | _ => False

theorem repack_of_held {u : UnpackedFloat} (h : Held u) : repack u = u := by
  cases u with
  | zero s => cases s <;> rfl
  | finite s m e hm =>
      obtain ⟨⟨hfits, hleast, hfull⟩, hsmall⟩ := h
      by_cases hlength : 2 ^ 52 ≤ m
      · exact repack_full s hm hlength hfits hleast hsmall
      · obtain rfl := hfull.resolve_right hlength
        exact repack_short s hm (Nat.lt_of_not_le hlength)
  | _ => exact h.elim

theorem held_repack {u : UnpackedFloat} (h : Held u) : Held (repack u) := by
  rwa [repack_of_held h]

theorem isFinite_of_held {u : UnpackedFloat} (h : Held u) : u.isFinite = true := by
  cases u with
  | zero | finite => rfl
  | _ => exact h.elim

/-! ## Rounding -/

theorem mantissa_ofMantissaAndAccuracy (m : Nat) (accuracy : Accuracy) :
    (ExtendedMantissa.ofMantissaAndAccuracy m accuracy).mantissa = m := by
  cases accuracy with
  | exact => rfl
  | inexact o => cases o <;> rfl

/-- Where the greatest mantissa ends, among numbers of so many bits. -/
def mantissaEnd (bits : Nat) : Nat := (2 ^ 53 - 1) * 2 ^ (bits - 52)

theorem mantissaEnd_eq {bits k : Nat} (h : bits - 52 = k) :
    mantissaEnd bits = (2 ^ 53 - 1) * 2 ^ k := by
  subst h
  rfl

/-- What rounding begins with: as many bits are shifted out as are too many. -/
theorem shift_eq_of_accuracy (accuracy : Accuracy) {k : Nat} {t : Int}
    (ht : max ((m.log2 : Int) + e - 52) (-1074) = t) (hk : e + k = t) :
    ∃ x : ExtendedMantissa, shiftToTargetExponent Format.binary64 m e accuracy = (x, t) ∧
      x.mantissa = m / 2 ^ k := by
  refine ⟨ExtendedMantissa.ofMantissaAndAccuracy m accuracy >>> k, ?_, ?_⟩
  · have hshift : (t - e).toNat = k := by omega
    simp only [shiftToTargetExponent, shiftToExponent, targetExponent_eq, ht, hshift, hk]
  · rw [mantissa_shiftRight, mantissa_ofMantissaAndAccuracy]

/-- A number of full length is held when it is rounded, unless its exponent is too large or rounding
carries beyond the last binade. -/
theorem held_round (s : Sign) (accuracy : Accuracy) (hfull : 2 ^ 52 ≤ m ∨ e ≤ -1074)
    (hsmall : (m.log2 : Int) + e ≤ 1022 ∨
      (m.log2 : Int) + e = 1023 ∧ m < mantissaEnd m.log2) :
    Held (roundWithAccuracy Format.binary64 s m e accuracy) := by
  obtain ⟨t, ht⟩ : ∃ t : Int, max ((m.log2 : Int) + e - 52) (-1074) = t := ⟨_, rfl⟩
  have hlog : 52 ≤ m.log2 ∨ e ≤ -1074 :=
    hfull.imp_left fun h => (Nat.le_log2 (by omega)).mpr h
  obtain ⟨k, hk⟩ : ∃ k : Nat, e + k = t := ⟨(t - e).toNat, by omega⟩
  obtain ⟨x, hshift, hx⟩ := shift_eq_of_accuracy accuracy ht hk
  have hfits : m / 2 ^ k < 2 ^ 53 := by
    rw [Nat.div_lt_iff_lt_mul (Nat.two_pow_pos k), ← Nat.pow_add]
    by_cases hm : m = 0
    · exact hm ▸ Nat.two_pow_pos _
    · exact (Nat.log2_lt hm).mp (by omega)
  have hcanonical : t = -1074 ∨ 2 ^ 52 ≤ m / 2 ^ k := by
    by_cases hleast : t = -1074
    · exact .inl hleast
    · exact .inr (div_two_pow_bounds (by omega)).1
  have hcarry : t ≤ 970 ∨ t ≤ 971 ∧ m / 2 ^ k < 2 ^ 53 - 1 := by
    rcases hsmall with hsmall | ⟨htop, hbelow⟩
    · exact .inl (by omega)
    · have hend := mantissaEnd_eq (show m.log2 - 52 = k by omega)
      exact .inr ⟨by omega, (Nat.div_lt_iff_lt_mul (Nat.two_pow_pos k)).mpr (hbelow.trans_eq hend)⟩
  have hbounds := roundedMantissa_bounds x
  rw [hx] at hbounds
  generalize hrounded : x.roundedMantissa = r at hbounds
  rcases Nat.lt_or_ge r (2 ^ 53) with hsmaller | hcarried
  · have hagain := shift_fitting hsmaller (show -1074 ≤ t by omega)
    simp only [roundWithAccuracy, hshift, hrounded, hagain]
    split
    · trivial
    · exact ⟨⟨hsmaller, by omega, by omega⟩, by omega⟩
  · obtain rfl : r = 2 ^ 53 := by omega
    have hagain := shift_carried (show -1074 ≤ t by omega)
    simp only [roundWithAccuracy, hshift, hrounded, hagain]
    exact ⟨⟨by decide, by omega, by omega⟩, by omega⟩

/-! ## Products and quotients -/

theorem log2_bounds (hm : 0 < m) : 2 ^ m.log2 ≤ m ∧ m < 2 ^ (m.log2 + 1) :=
  ⟨Nat.log2_self_le hm.ne', (Nat.log2_lt hm.ne').mp (Nat.lt_succ_self _)⟩

/-- A quotient has no more bits than the lengths of the operands say. -/
theorem log2_div_le {m' k : Nat} (hm : 0 < m) (hm' : 0 < m') (hq : m * 2 ^ k / m' ≠ 0) :
    (m * 2 ^ k / m').log2 + m'.log2 ≤ m.log2 + k := by
  have hlower := Nat.log2_self_le hq
  have hproduct : 2 ^ ((m * 2 ^ k / m').log2 + m'.log2) < 2 ^ (m.log2 + 1 + k) := by
    calc 2 ^ ((m * 2 ^ k / m').log2 + m'.log2)
        = 2 ^ (m * 2 ^ k / m').log2 * 2 ^ m'.log2 := Nat.pow_add ..
      _ ≤ m * 2 ^ k / m' * m' := Nat.mul_le_mul hlower (log2_bounds hm').1
      _ ≤ m * 2 ^ k := Nat.div_mul_le_self ..
      _ < 2 ^ (m.log2 + 1) * 2 ^ k := Nat.mul_lt_mul_of_pos_right (log2_bounds hm).2 (by positivity)
      _ = 2 ^ (m.log2 + 1 + k) := (Nat.pow_add ..).symm
  have := (Nat.pow_lt_pow_iff_right (by decide)).mp hproduct
  omega

/-- A quotient has full length when enough bits are appended first. -/
theorem two_pow_le_div {m' k : Nat} (hm : 0 < m) (hm' : 0 < m') (h : m'.log2 + 53 ≤ m.log2 + k) :
    2 ^ 52 ≤ m * 2 ^ k / m' := by
  rw [Nat.le_div_iff_mul_le hm']
  calc 2 ^ 52 * m' ≤ 2 ^ 52 * 2 ^ (m'.log2 + 1) := Nat.mul_le_mul_left _ (log2_bounds hm').2.le
    _ = 2 ^ (52 + (m'.log2 + 1)) := (Nat.pow_add ..).symm
    _ ≤ 2 ^ (m.log2 + k) := Nat.pow_le_pow_right (by decide) (by omega)
    _ = 2 ^ m.log2 * 2 ^ k := Nat.pow_add ..
    _ ≤ m * 2 ^ k := Nat.mul_le_mul_right _ (log2_bounds hm).1

/-- A quotient is held if it is not too large. -/
theorem held_div {s' : Sign} {m' : Nat} {e' : Int} (hm : 0 < m) (hm' : 0 < m')
    (hsmall : (m.log2 : Int) + e - (m'.log2 + e') ≤ 1022) :
    Held (UnpackedFloat.div Format.binary64 (.finite s m e hm) (.finite s' m' e' hm')) := by
  obtain ⟨t, ht⟩ : ∃ t : Int, min (e - e')
      (Format.binary64.targetExponent (totalExponent m e - totalExponent m' e')) = t := ⟨_, rfl⟩
  have htarget : Format.binary64.targetExponent (totalExponent m e - totalExponent m' e') =
      max ((m.log2 : Int) + e - (m'.log2 + e') - 53) (-1074) := by
    have hleast : Format.binary64.minExponent = -1074 := rfl
    have hlength : (Format.binary64.mantissaBits : Int) = 53 := rfl
    rw [Format.targetExponent, totalExponent, totalExponent, hleast, hlength]
    omega
  obtain ⟨k, hk⟩ : ∃ k : Nat, e - e' - t = k := ⟨(e - e' - t).toNat, by omega⟩
  have hdiv : UnpackedFloat.div Format.binary64 (.finite s m e hm) (.finite s' m' e' hm') =
      roundWithAccuracy Format.binary64 (s / s') ((m * 2 ^ k) / m') t
        (accuracyOfFraction ((m * 2 ^ k) % m') m') := by
    have hshift : (e - e' - t).toNat = k := by omega
    simp only [UnpackedFloat.div, divCore, ht, hshift, Nat.shiftLeft_eq]
  rw [hdiv]
  refine held_round _ _ ?_ (.inl ?_)
  · by_cases hleast : t ≤ -1074
    · exact .inr hleast
    · exact .inl (two_pow_le_div hm hm' (by omega))
  · by_cases hq : m * 2 ^ k / m' = 0
    · rw [hq, Nat.log2_zero]
      omega
    · have hlog := log2_div_le hm hm' hq
      omega

/-- A product of full length is held if it is not too large. -/
theorem held_mul {s' : Sign} {m' : Nat} {e' : Int} (hm : 0 < m) (hm' : 0 < m')
    (hfull : 2 ^ 52 ≤ m * m') (hsmall : (m.log2 : Int) + e + (m'.log2 + e') ≤ 1021) :
    Held (UnpackedFloat.mul Format.binary64 (.finite s m e hm) (.finite s' m' e' hm')) := by
  have hlog : (m * m').log2 < m.log2 + m'.log2 + 2 := by
    refine (Nat.log2_lt (Nat.mul_pos hm hm').ne').mpr ?_
    calc m * m' < 2 ^ (m.log2 + 1) * 2 ^ (m'.log2 + 1) :=
          Nat.mul_lt_mul'' (log2_bounds hm).2 (log2_bounds hm').2
      _ = 2 ^ (m.log2 + m'.log2 + 2) := by ring
  exact held_round (s * s') .exact (.inl hfull) (.inl (by omega))

theorem unpack_mul (x y : Float) : (x * y).toModel.unpack =
    repack (UnpackedFloat.mul Format.binary64 x.toModel.unpack y.toModel.unpack) :=
  rfl

theorem unpack_div (x y : Float) : (x / y).toModel.unpack =
    repack (UnpackedFloat.div Format.binary64 x.toModel.unpack y.toModel.unpack) :=
  rfl

theorem unpack_neg (x : Float) : (-x).toModel.unpack = repack x.toModel.unpack.neg := rfl

/-! ## Small whole numbers and powers of ten -/

/-- What fits is not changed by rounding. -/
theorem round_fitting (s : Sign) (hm : 0 < m) (hfits : m < 2 ^ 53) (hleast : -1074 ≤ e) :
    roundWithAccuracy Format.binary64 s m e .exact = .finite s m e hm := by
  have hrounded : (⟨m, false, false⟩ : ExtendedMantissa).roundedMantissa = m := rfl
  simp only [roundWithAccuracy, shift_fitting hfits hleast, hrounded, dif_neg hm.ne']

/-- Zeros are appended up to full length. -/
theorem appended_bounds (hm : 0 < m) (hfits : m < 2 ^ 53) :
    2 ^ 52 ≤ m * 2 ^ (52 - m.log2) ∧ m * 2 ^ (52 - m.log2) < 2 ^ 53 := by
  have hlog : m.log2 ≤ 52 := Nat.le_of_lt_succ ((Nat.log2_lt hm.ne').mpr hfits)
  obtain ⟨hlower, hupper⟩ := log2_bounds hm
  constructor
  · calc 2 ^ 52 = 2 ^ m.log2 * 2 ^ (52 - m.log2) := by rw [← Nat.pow_add]; congr 1; omega
      _ ≤ m * 2 ^ (52 - m.log2) := Nat.mul_le_mul_right _ hlower
  · calc m * 2 ^ (52 - m.log2)
        < 2 ^ (m.log2 + 1) * 2 ^ (52 - m.log2) := Nat.mul_lt_mul_of_pos_right hupper (by positivity)
      _ = 2 ^ 53 := by rw [← Nat.pow_add]; congr 1; omega

/-- A whole number that fits is held with zeros appended. -/
theorem unpack_toFloat (hm : 0 < m) (hfits : m < 2 ^ 53) :
    ∃ hpos, m.toUInt64.toFloat.toModel.unpack =
      .finite .positive (m * 2 ^ (52 - m.log2)) ((m.log2 : Int) - 52) hpos := by
  obtain ⟨hlower, hupper⟩ := appended_bounds hm hfits
  have hlog : m.log2 ≤ 52 := Nat.le_of_lt_succ ((Nat.log2_lt hm.ne').mpr hfits)
  have hpos : 0 < m * 2 ^ (52 - m.log2) := by positivity
  refine ⟨hpos, ?_⟩
  have hread : m.toUInt64.toNat = m := by
    show (UInt64.ofNat m).toNat = m
    exact UInt64.toNat_ofNat_of_lt (hfits.trans (by decide))
  have hcompare : compare (m : Int) 0 = .gt := by
    rw [compare_gt_iff_gt]
    omega
  have htarget : Format.binary64.targetExponent (totalExponent m 0) = (m.log2 : Int) - 52 := by
    rw [targetExponent_eq]
    omega
  have hshift : (0 - ((m.log2 : Int) - 52)).toNat = 52 - m.log2 := by omega
  have hexponent : (0 : Int) - ((52 - m.log2 : Nat) : Int) = (m.log2 : Int) - 52 := by omega
  have hmade : UnpackedFloat.ofUInt64 Format.binary64 m.toUInt64 =
      .finite .positive (m * 2 ^ (52 - m.log2)) ((m.log2 : Int) - 52) hpos := by
    simp only [UnpackedFloat.ofUInt64, UnpackedFloat.ofNat, UnpackedFloat.ofInt, hread,
      UnpackedFloat.normalize, hcompare, UnpackedFloat.round, Int.toNat_natCast, htarget,
      decreaseExponent, hshift, Nat.shiftLeft_eq, hexponent]
    exact round_fitting .positive hpos hupper (by omega)
  show repack (UnpackedFloat.ofUInt64 Format.binary64 m.toUInt64) = _
  rw [hmade]
  exact repack_full .positive hpos hlower hupper (by omega) (by omega)

/-- A positive number of full length, at least one and with no more bits than given. -/
def Normal (bits : Int) : UnpackedFloat → Prop
  | .finite .positive m e _ => 2 ^ 52 ≤ m ∧ 0 ≤ (m.log2 : Int) + e ∧ (m.log2 : Int) + e ≤ bits
  | _ => False

instance (bits : Int) (u : UnpackedFloat) : Decidable (Normal bits u) := by
  unfold Normal
  split <;> infer_instance

theorem normal_powers : ∀ k : Fin Float.exactlyRepresentablePowersOfTen.size,
    Normal 73 Float.exactlyRepresentablePowersOfTen[k].toModel.unpack := by
  decide +kernel

/-- The table of powers of ten holds normal numbers. -/
theorem exists_power {k : Nat} (hk : k < Float.exactlyRepresentablePowersOfTen.size) :
    ∃ m e, ∃ hm : 0 < m,
      Float.exactlyRepresentablePowersOfTen[k].toModel.unpack = .finite .positive m e hm ∧
        2 ^ 52 ≤ m ∧ 0 ≤ (m.log2 : Int) + e ∧ (m.log2 : Int) + e ≤ 73 := by
  have hnormal : Normal 73 Float.exactlyRepresentablePowersOfTen[k].toModel.unpack :=
    normal_powers ⟨k, hk⟩
  cases hu : Float.exactlyRepresentablePowersOfTen[k].toModel.unpack with
  | finite s m e hm =>
      rw [hu] at hnormal
      cases s with
      | positive => exact ⟨m, e, hm, rfl, hnormal⟩
      | negative => exact hnormal.elim
  | _ =>
      rw [hu] at hnormal
      exact hnormal.elim

/-! ## Reading decimals -/

theorem log2_appended (hm : 0 < m) (hfits : m < 2 ^ 53) : (m * 2 ^ (52 - m.log2)).log2 = 52 := by
  obtain ⟨hlower, hupper⟩ := appended_bounds hm hfits
  exact (Nat.log2_eq_iff (by positivity)).mpr ⟨hlower, hupper⟩

/-- A whole number that fits, times or by a power of ten from the table. -/
theorem held_short {k : Nat} (hfits : m < 2 ^ 53) (hk : k ≤ 22) (divide : Bool) :
    Held (Float.ofScientific m divide k).toModel.unpack := by
  obtain ⟨m', e', hm', hpower, hfull, hlower, hupper⟩ := exists_power (k := k) (by
    show k < 23
    omega)
  rw [Float.ofScientific, dif_pos ⟨hfits, hk⟩]
  rcases Nat.eq_zero_or_pos m with rfl | hm
  · have hzero : (Nat.toUInt64 0).toFloat.toModel.unpack = .zero .positive := rfl
    cases divide with
    | true =>
        rw [if_pos rfl, unpack_div, hzero, hpower]
        exact held_repack (u := .zero _) trivial
    | false =>
        rw [if_neg (by decide), unpack_mul, hzero, hpower]
        exact held_repack (u := .zero _) trivial
  · obtain ⟨hpos, hnumber⟩ := unpack_toFloat hm hfits
    have hlog := log2_appended hm hfits
    have hlog' : m.log2 ≤ 52 := Nat.le_of_lt_succ ((Nat.log2_lt hm.ne').mpr hfits)
    cases divide with
    | true =>
        rw [if_pos rfl, unpack_div, hnumber, hpower]
        exact held_repack (held_div hpos hm' (by omega))
    | false =>
        have hfull' : 2 ^ 52 ≤ m * 2 ^ (52 - m.log2) * m' :=
          (appended_bounds hm hfits).1.trans (Nat.le_mul_of_pos_right _ hm')
        rw [if_neg (by decide), unpack_mul, hnumber, hpower]
        exact held_repack (held_mul hpos hm' hfull' (by omega))

/-- A whole number that fits, divided by a power of ten. -/
theorem held_ofScientific_div (hfits : m < 2 ^ 53) (k : Nat) :
    Held (Float.ofScientific m true k).toModel.unpack := by
  by_cases hshort : k ≤ 22
  · exact held_short hfits hshort true
  have hnegative : Int.negOfNat k < 0 := by
    obtain ⟨k, rfl⟩ := Nat.exists_eq_succ_of_ne_zero (show k ≠ 0 by omega)
    exact Int.negSucc_lt_zero k
  rw [Float.ofScientific, dif_neg fun h => hshort h.2]
  show Held (repack (UnpackedFloat.ofScientific Format.binary64 m (Int.negOfNat k)))
  refine held_repack ?_
  rw [UnpackedFloat.ofScientific]
  split
  · trivial
  split
  next hlarge =>
    have hpow : (0 : Int) < 2 ^ Format.binary64.exponentBits := by positivity
    omega
  split
  · trivial
  rw [if_neg (by omega)]
  next hm _ _ =>
    have hlog : m.log2 ≤ 52 := Nat.le_of_lt_succ ((Nat.log2_lt hm).mpr hfits)
    exact held_div _ _ (by omega)

/-- The greatest number of six decimal digits that a double holds. -/
@[irreducible] def sixDigitLimit : Nat := 179769 * 10 ^ 303

theorem two_pow_lt_sixDigitLimit : 2 ^ 53 < sixDigitLimit := by decide +kernel

theorem sixDigitLimit_lt_ten_pow : sixDigitLimit < 10 ^ 309 := by decide +kernel

theorem sixDigitLimit_lt_mantissaEnd : sixDigitLimit * 2 ^ 53 < mantissaEnd 1076 := by
  decide +kernel

theorem log2_lt_of_lt_mantissaEnd {k : Nat} (hm : 0 < m) (hbelow : m < mantissaEnd (52 + k)) :
    m.log2 < 53 + k := by
  refine (Nat.log2_lt hm.ne').mpr ?_
  calc m < (2 ^ 53 - 1) * 2 ^ k := hbelow.trans_eq (mantissaEnd_eq (by omega))
    _ ≤ 2 ^ 53 * 2 ^ k := Nat.mul_le_mul_right _ (Nat.sub_le ..)
    _ = 2 ^ (53 + k) := (Nat.pow_add ..).symm

theorem exponent_lt {k : Nat} (hm : 0 < m) (hsmall : m * 10 ^ k ≤ sixDigitLimit) : k < 309 := by
  refine (Nat.pow_lt_pow_iff_right (show 1 < 10 by decide)).mp ?_
  calc 10 ^ k ≤ m * 10 ^ k := Nat.le_mul_of_pos_left _ hm
    _ ≤ sixDigitLimit := hsmall
    _ < 10 ^ 309 := sixDigitLimit_lt_ten_pow

/-- What is below the greatest double is held when it is rounded. -/
theorem held_round_scaled (s : Sign) (hfull : 2 ^ 52 ≤ m) (hbelow : m < mantissaEnd 1076) :
    Held (roundWithAccuracy Format.binary64 s m (-53) .exact) := by
  have hlog := log2_lt_of_lt_mantissaEnd (k := 1024) (by omega) hbelow
  refine held_round s .exact (.inl hfull) ?_
  rcases Nat.lt_or_ge m.log2 1076 with hlower | htop
  · exact .inl (by omega)
  · obtain htop : m.log2 = 1076 := by omega
    exact .inr ⟨by omega, by rwa [htop]⟩

/-- A whole number that fits, times a power of ten. -/
theorem held_ofScientific_mul (hfits : m < 2 ^ 53) {k : Nat} (hsmall : m * 10 ^ k ≤ sixDigitLimit) :
    Held (Float.ofScientific m false k).toModel.unpack := by
  by_cases hshort : k ≤ 22
  · exact held_short hfits hshort false
  rw [Float.ofScientific, dif_neg fun h => hshort h.2]
  show Held (repack (UnpackedFloat.ofScientific Format.binary64 m k))
  refine held_repack ?_
  rw [UnpackedFloat.ofScientific]
  split
  · trivial
  next hm =>
  have hexponent := exponent_lt (Nat.pos_of_ne_zero hm) hsmall
  rw [if_neg (show ¬ (k : Int) > 2 ^ 11 by omega), if_neg (by
    show ¬ (k : Int) < -(2 ^ 11 + m.log2)
    omega), if_pos (by omega)]
  have hlength : Format.binary64.mantissaBits = 53 := rfl
  have hproduct : m <<< 53 * 10 ^ k = m * 10 ^ k * 2 ^ 53 := by
    rw [Nat.shiftLeft_eq]
    ring
  simp only [UnpackedFloat.mul, hlength, Int.toNat_natCast, hproduct, Int.add_zero]
  have hpos : 0 < m * 10 ^ k := by positivity
  refine held_round_scaled _ (by omega) ?_
  exact (Nat.mul_le_mul_right _ hsmall).trans_lt sixDigitLimit_lt_mantissaEnd

theorem held_neg {u : UnpackedFloat} (h : Held u) : Held u.neg := by
  cases u with
  | zero | finite => exact h
  | _ => exact h.elim

/-- How many places a decimal takes that is not too large. -/
theorem length_repr_le {k : Nat} (hm : 0 < m) (hsmall : m * 10 ^ k ≤ sixDigitLimit) :
    m.repr.length + k ≤ 309 := by
  have hexponent := exponent_lt hm hsmall
  have hlength : m.repr.length ≤ 309 - k := by
    rw [Nat.length_repr_le_iff (by omega)]
    refine Nat.lt_of_mul_lt_mul_right (a := 10 ^ k) ?_
    calc m * 10 ^ k ≤ sixDigitLimit := hsmall
      _ < 10 ^ 309 := sixDigitLimit_lt_ten_pow
      _ = 10 ^ (309 - k) * 10 ^ k := by rw [← Nat.pow_add]; congr 1; omega
  omega

/-- The digits of the decimal `m * 10 ^ e` fit into a mantissa, and it is not too large. -/
structure Fits (m : Nat) (e : Int) : Prop where
  short : m < 2 ^ 53
  small : 0 < e → m * 10 ^ e.toNat ≤ sixDigitLimit

/-- A decimal is read as a finite double if it fits. -/
theorem ofDecimal_isFinite (negative : Bool) (h : Fits m e) :
    (ofDecimal negative m e).isFinite = true := by
  obtain ⟨hfits, hsmall⟩ := h
  have hmagnitude : Held (ofDecimal false m e).toModel.unpack := by
    simp only [ofDecimal, Bool.false_eq_true, if_false]
    split
    · exact trivial
    next hzero =>
    rw [not_or] at hzero
    have hlength : ¬ 400 < (m.repr.length : Int) + e := by
      by_cases hexponent : 0 < e
      · have := length_repr_le (Nat.pos_of_ne_zero hzero.1) (hsmall hexponent)
        omega
      · have hdigits : m.repr.length ≤ 16 :=
          (Nat.length_repr_le_iff (by decide)).mpr (hfits.trans (by decide))
        omega
    rw [if_neg hlength]
    split
    · exact held_ofScientific_div hfits _
    next hexponent =>
      refine held_ofScientific_mul hfits ?_
      have hplaces : e.natAbs = e.toNat := by omega
      rw [hplaces]
      rcases Int.lt_or_eq_of_le (Int.not_lt.mp hexponent) with hpos | rfl
      · exact hsmall hpos
      · simpa using (hfits.trans two_pow_lt_sixDigitLimit).le
  cases negative with
  | false => exact isFinite_of_held hmagnitude
  | true =>
      show (-(ofDecimal false m e)).toModel.unpack.isFinite = true
      rw [unpack_neg]
      exact isFinite_of_held (held_repack (held_neg hmagnitude))

end Minima.Double
