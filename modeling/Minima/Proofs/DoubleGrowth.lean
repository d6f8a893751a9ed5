import Minima.Proofs.ScalarOrder
import Mathlib.Data.Fintype.Card

/-!
# Positive doubles grow

A positive double that is not infinite is smaller than its product with ten. The mantissa and the
exponent of a finite double that was read from its bits are in canonical form. The product of such a
mantissa with the one of ten is rounded: if it has too many bits, to one of full length with a greater
exponent, and otherwise exactly, with the least exponent. Both are canonical again, so that the bits
that are written stand for the same number, or for an infinity.

There are no more than `2 ^ 64` doubles, so no more can follow each other in growing order.
-/

namespace Minima.Double

open Float.Model (Format UnpackedFloat totalExponent)
open Float.Model.UnpackedFloat

variable {s : Sign} {m : Nat} {e : Int}

/-! ## Canonical form -/

/-- The mantissa has full length, or the exponent is the least one. -/
structure Canonical (m : Nat) (e : Int) : Prop where
  fits : m < 2 ^ 53
  least : -1074 ≤ e
  full : e = -1074 ∨ 2 ^ 52 ≤ m

theorem toNat_append_one (v : BitVec 52) : (1#1 ++ v).toNat = 2 ^ 52 + v.toNat := by
  rw [BitVec.toNat_append, ← Nat.shiftLeft_add_eq_or_of_lt v.isLt]
  rfl

/-- What is read from bits is canonical. -/
theorem canonical_of_unpack {b : BitVec 64} {hm : 0 < m}
    (h : UnpackedFloat.unpack Format.binary64 b = .finite s m e hm) : Canonical m e := by
  simp only [UnpackedFloat.unpack] at h
  split at h
  · split at h <;> cases h
  split at h
  · -- the field of the exponent is zero, and the mantissa is the field as it is
    split at h
    · cases h
    · rename_i hexponent _
      injection h with hs hmantissa he
      have hfield : (@unpackMantissa Format.binary64 b).toNat < 2 ^ 52 := BitVec.isLt _
      rw [hexponent] at he
      have hleast : e = -1074 := he.symm
      exact ⟨by omega, by omega, .inl hleast⟩
  · -- another exponent stands for a mantissa with one bit in front of its field
    rename_i _ hexponent
    injection h with hs hmantissa he
    have hfield : (@unpackMantissa Format.binary64 b).toNat < 2 ^ 52 := BitVec.isLt _
    have hpos : (@unpackExponent Format.binary64 b).toNat ≠ 0 := by
      intro hzero
      exact hexponent (BitVec.eq_of_toNat_eq hzero)
    have hbias : (Format.binary64.exponentBias : Int) = 1023 := rfl
    rw [toNat_append_one] at hmantissa
    rw [hbias] at he
    exact ⟨by omega, by omega, .inr (by omega)⟩

theorem unpackSign_packComponents {spec : Format} (s : Sign) (exponent : BitVec spec.exponentBits)
    (mantissa : BitVec spec.mantissaBitsWithoutImplicit) :
    unpackSign (packComponents spec s exponent mantissa) = s.toBitVec := by
  refine BitVec.eq_of_getLsbD_eq fun i hi => ?_
  obtain rfl : i = 0 := by omega
  simp [unpackSign, packComponents, BitVec.getLsbD_append, BitVec.getElem_append]

theorem ofBitVec_toBitVec (s : Sign) : Sign.ofBitVec s.toBitVec = s := by
  cases s <;> rfl

/-- What is read from the sign, the field of the exponent and that of the mantissa. -/
theorem unpack_packComponents (s : Sign) (exponent : BitVec 11) (mantissa : BitVec 52) :
    UnpackedFloat.unpack Format.binary64 (packComponents Format.binary64 s exponent mantissa) =
      if exponent = -1#11 then if mantissa = 0#52 then .infinity s else .notANumber
      else if exponent = 0#11 then
        if h : mantissa = 0#52 then .zero s
        else .finite s mantissa.toNat (-1074) (by simpa [BitVec.toNat_pos, BitVec.pos_iff_ne_zero])
      else .finite s (1#1 ++ mantissa).toNat (exponent.toNat - 1075)
        (by rw [toNat_append_one]; omega) := by
  have hbias : (Format.binary64.exponentBias : Int) = 1023 := rfl
  simp only [UnpackedFloat.unpack, unpackExponent_packComponents, unpackMantissa_packComponents,
    unpackSign_packComponents, ofBitVec_toBitVec, hbias]
  split
  · rfl
  split
  · rename_i hzero
    subst hzero
    rfl
  · rfl

/-- How a finite double is written. -/
theorem pack_finite (s : Sign) (m : Nat) (e : Int) (hm : 0 < m) :
    UnpackedFloat.pack Format.binary64 (.finite s m e hm) =
      if 2 ^ 11 ≤ (e + 1075).toNat + 1 then packedInfinity Format.binary64 s
      else if m.log2 + 1 = 53 then
        packComponents Format.binary64 s (.ofNat 11 (e + 1075).toNat) (.ofNat 52 m)
      else packComponents Format.binary64 s 0#11 (.ofNat 52 m) := by
  have hbias : (Format.binary64.exponentBias : Int) = 1023 := rfl
  have hbiased : e + Format.binary64.exponentBias + (52 : Nat) = e + 1075 := by omega
  simp only [UnpackedFloat.pack, hbiased]
  rfl

theorem repack_large (s : Sign) (hm : 0 < m) (hlarge : 971 < e) :
    repack (.finite s m e hm) = .infinity s := by
  have hover : 2 ^ 11 ≤ (e + 1075).toNat + 1 := by omega
  rw [repack, pack_finite, if_pos hover, packedInfinity, unpack_packComponents]
  rfl

/-- A mantissa of full length is read again if its exponent is not too large. -/
theorem repack_full (s : Sign) (hm : 0 < m) (hfull : 2 ^ 52 ≤ m) (hfits : m < 2 ^ 53)
    (hleast : -1074 ≤ e) (hsmall : e ≤ 971) : repack (.finite s m e hm) = .finite s m e hm := by
  have hunder : ¬ 2 ^ 11 ≤ (e + 1075).toNat + 1 := by omega
  have hlog : m.log2 + 1 = 53 := by
    have hlower := (Nat.le_log2 hm.ne').mpr hfull
    have hupper := (Nat.log2_lt hm.ne').mpr hfits
    omega
  have hexponent : (BitVec.ofNat 11 (e + 1075).toNat).toNat = (e + 1075).toNat := by
    rw [BitVec.toNat_ofNat, Nat.mod_eq_of_lt (by omega)]
  have hones : BitVec.ofNat 11 (e + 1075).toNat ≠ -1#11 := by
    intro heq
    have hnat : (e + 1075).toNat = 2047 := hexponent.symm.trans (congrArg BitVec.toNat heq)
    omega
  have hzero : BitVec.ofNat 11 (e + 1075).toNat ≠ 0#11 := by
    intro heq
    have hnat : (e + 1075).toNat = 0 := hexponent.symm.trans (congrArg BitVec.toNat heq)
    omega
  have hmantissa : (1#1 ++ BitVec.ofNat 52 m).toNat = m := by
    rw [toNat_append_one, BitVec.toNat_ofNat]
    omega
  have hread : (((e + 1075).toNat : Nat) : Int) - 1075 = e := by omega
  rw [repack, pack_finite, if_neg hunder, if_pos hlog, unpack_packComponents, if_neg hones,
    if_neg hzero]
  simp only [hmantissa, hexponent, hread]

/-- A shorter mantissa is read again with the least exponent. -/
theorem repack_short (s : Sign) (hm : 0 < m) (hshort : m < 2 ^ 52) :
    repack (.finite s m (-1074) hm) = .finite s m (-1074) hm := by
  have hunder : ¬ 2 ^ 11 ≤ ((-1074 : Int) + 1075).toNat + 1 := by decide
  have hlog : ¬ m.log2 + 1 = 53 := by
    have hupper := (Nat.log2_lt hm.ne').mpr hshort
    omega
  have hones : (0#11 : BitVec 11) ≠ -1#11 := by decide
  have hmantissa : (BitVec.ofNat 52 m).toNat = m := by
    rw [BitVec.toNat_ofNat, Nat.mod_eq_of_lt hshort]
  have hne : BitVec.ofNat 52 m ≠ 0#52 := by
    intro heq
    have hnat : m = 0 := hmantissa.symm.trans (congrArg BitVec.toNat heq)
    omega
  rw [repack, pack_finite, if_neg hunder, if_neg hlog, unpack_packComponents, if_neg hones,
    if_pos rfl, dif_neg hne]
  simp only [hmantissa]

/-- What is written in canonical form is read again, unless the exponent is too large. -/
theorem repack_of_canonical (h : Canonical m e) (s : Sign) (hm : 0 < m) :
    repack (.finite s m e hm) = .finite s m e hm ∨ repack (.finite s m e hm) = .infinity s := by
  obtain ⟨hfits, hleast, hfull⟩ := h
  by_cases hlarge : 971 < e
  · exact .inr (repack_large s hm hlarge)
  left
  by_cases hlength : 2 ^ 52 ≤ m
  · exact repack_full s hm hlength hfits hleast (Int.not_lt.mp hlarge)
  · obtain rfl : e = -1074 := hfull.resolve_right hlength
    exact repack_short s hm (Nat.lt_of_not_le hlength)

/-! ## Rounding -/

/-- A mantissa that is shifted to the right is divided. -/
theorem mantissa_shiftRight (x : ExtendedMantissa) (k : Nat) :
    (x >>> k).mantissa = x.mantissa / 2 ^ k := by
  induction k with
  | zero => exact (Nat.div_one _).symm
  | succ k ih =>
      show (x >>> k).mantissa / 2 = _
      rw [ih, Nat.div_div_eq_div_mul, ← Nat.pow_succ]

/-- Nothing is lost if zeros are shifted out. -/
theorem shiftRight_exact (m k : Nat) :
    (⟨m * 2 ^ k, false, false⟩ : ExtendedMantissa) >>> k = ⟨m, false, false⟩ := by
  induction k generalizing m with
  | zero => simp [HShiftRight.hShiftRight, Nat.repeat]
  | succ k ih =>
      have hdouble : m * 2 ^ (k + 1) = 2 * m * 2 ^ k := by ring
      show ((⟨m * 2 ^ (k + 1), false, false⟩ : ExtendedMantissa) >>> k).shiftRightOne = _
      rw [hdouble, ih]
      simp [ExtendedMantissa.shiftRightOne]

theorem roundedMantissa_bounds (x : ExtendedMantissa) :
    x.mantissa ≤ x.roundedMantissa ∧ x.roundedMantissa ≤ x.mantissa + 1 := by
  rcases x with ⟨m, half, rest⟩
  cases half <;> cases rest <;>
    simp only [ExtendedMantissa.roundedMantissa, ExtendedMantissa.accuracy,
      Accuracy.roundToNearestEven] <;> omega

/-- The exponent that rounding aims at. -/
theorem targetExponent_eq (m : Nat) (e : Int) :
    Format.binary64.targetExponent (totalExponent m e) = max (m.log2 + e - 52) (-1074) := by
  have hleast : Format.binary64.minExponent = -1074 := rfl
  have hlength : (Format.binary64.mantissaBits : Int) = 53 := rfl
  rw [Format.targetExponent, totalExponent, hleast, hlength]
  omega

theorem shift_eq (m k : Nat) {e t : Int}
    (ht : Format.binary64.targetExponent (totalExponent m e) = t) (hk : (t - e).toNat = k) :
    shiftToTargetExponent Format.binary64 m e .exact =
      ((⟨m, false, false⟩ : ExtendedMantissa) >>> k, e + k) := by
  simp only [shiftToTargetExponent, shiftToExponent, ht, hk]
  rfl

/-- Nothing is shifted that fits. -/
theorem shift_fitting (hfits : m < 2 ^ 53) (hleast : -1074 ≤ e) :
    shiftToTargetExponent Format.binary64 m e .exact = (⟨m, false, false⟩, e) := by
  have hlog : m.log2 ≤ 52 := by
    by_cases hm : m = 0
    · rw [hm]
      decide
    · exact Nat.le_of_lt_succ ((Nat.log2_lt hm).mpr hfits)
  have hshift := shift_eq m 0 (targetExponent_eq m e) (by omega)
  rw [hshift]
  exact Prod.ext rfl (Int.add_zero e)

/-- A mantissa that was rounded up to one bit too many is halved. -/
theorem shift_carried (hleast : -1074 ≤ e) :
    shiftToTargetExponent Format.binary64 (2 ^ 53) e .exact = (⟨2 ^ 52, false, false⟩, e + 1) := by
  have hlog : ((2 ^ 53 : Nat).log2 : Int) = 53 := by rw [Nat.log2_two_pow]; rfl
  have hshift := shift_eq (2 ^ 53) 1 (targetExponent_eq (2 ^ 53) e) (by omega)
  rw [hshift]
  exact Prod.ext (shiftRight_exact (2 ^ 52) 1) rfl

/-- As many bits as a mantissa has too many are shifted out. -/
theorem div_two_pow_bounds {k : Nat} (hlog : m.log2 = 52 + k) :
    2 ^ 52 ≤ m / 2 ^ k ∧ m / 2 ^ k < 2 ^ 53 := by
  have hm : m ≠ 0 := by
    rintro rfl
    rw [Nat.log2_zero] at hlog
    omega
  constructor
  · refine (Nat.le_div_iff_mul_le (Nat.two_pow_pos k)).mpr ?_
    rw [← Nat.pow_add, ← hlog]
    exact Nat.log2_self_le hm
  · refine (Nat.div_lt_iff_lt_mul (Nat.two_pow_pos k)).mpr ?_
    rw [← Nat.pow_add]
    exact (Nat.log2_lt hm).mp (by omega)

/-- A mantissa with too many bits is rounded to one of full length. -/
theorem round_long (s : Sign) {k : Nat} (hlog : m.log2 = 52 + k) (hleast : -1074 ≤ e + k) :
    ∃ m' e', ∃ hm' : 0 < m', roundWithAccuracy Format.binary64 s m e .exact = .finite s m' e' hm' ∧
      2 ^ 52 ≤ m' ∧ m' < 2 ^ 53 ∧ e + k ≤ e' := by
  have hshift := shift_eq m k (targetExponent_eq m e) (by omega)
  have hfloor := mantissa_shiftRight ⟨m, false, false⟩ k
  obtain ⟨hlower, hupper⟩ := div_two_pow_bounds hlog
  have hbounds := roundedMantissa_bounds ((⟨m, false, false⟩ : ExtendedMantissa) >>> k)
  simp only [hfloor] at hbounds
  -- rounding up may carry into one bit more, and then the second shift takes it out again
  generalize hrounded : ((⟨m, false, false⟩ : ExtendedMantissa) >>> k).roundedMantissa = r at hbounds
  rcases Nat.lt_or_ge r (2 ^ 53) with hfits | hcarry
  · have hpos : r ≠ 0 := by omega
    refine ⟨r, e + k, Nat.pos_of_ne_zero hpos, ?_, by omega, hfits, Int.le_refl _⟩
    simp only [roundWithAccuracy, hshift, hrounded, shift_fitting hfits hleast, dif_neg hpos]
  · obtain rfl : r = 2 ^ 53 := by omega
    refine ⟨2 ^ 52, e + k + 1, by decide, ?_, le_rfl, by decide, by omega⟩
    simp only [roundWithAccuracy, hshift, hrounded, shift_carried hleast]
    rfl

/-- A mantissa that fits once zeros are shifted out is not rounded. -/
theorem round_short (s : Sign) (k : Nat) (hm : 0 < m) (hfits : m < 2 ^ 53) :
    roundWithAccuracy Format.binary64 s (m * 2 ^ k) (-1074 - k) .exact = .finite s m (-1074) hm := by
  have hlog : (m * 2 ^ k).log2 ≤ 52 + k := by
    have hlt : m * 2 ^ k < 2 ^ (53 + k) := by
      rw [Nat.pow_add]
      exact Nat.mul_lt_mul_of_pos_right hfits (Nat.two_pow_pos k)
    have hne : m * 2 ^ k ≠ 0 := (Nat.mul_pos hm (Nat.two_pow_pos k)).ne'
    have := (Nat.log2_lt hne).mpr hlt
    omega
  have hshift := shift_eq (m * 2 ^ k) k (targetExponent_eq (m * 2 ^ k) (-1074 - k)) (by omega)
  have hrounded : (⟨m, false, false⟩ : ExtendedMantissa).roundedMantissa = m := rfl
  have hexponent : (-1074 - k : Int) + k = -1074 := by omega
  simp only [roundWithAccuracy, hshift, shiftRight_exact, hrounded, hexponent,
    shift_fitting hfits (Int.le_refl _), dif_neg hm.ne']

/-! ## Products with ten -/

def ten : UnpackedFloat := .finite .positive (5 * 2 ^ 50) (-49) (by decide)

theorem unpack_ten : (10.0 : Float).toModel.unpack = ten := rfl

/-- The product of a canonical mantissa with ten is canonical, and greater. -/
theorem mul_ten (h : Canonical m e) (hm : 0 < m) :
    ∃ m' e', ∃ hm' : 0 < m',
      UnpackedFloat.mul Format.binary64 (.finite .positive m e hm) ten =
        .finite .positive m' e' hm' ∧
      Canonical m' e' ∧ (e < e' ∨ e = e' ∧ m < m') := by
  obtain ⟨hfits, hleast, hfull⟩ := h
  have hproduct : UnpackedFloat.mul Format.binary64 (.finite .positive m e hm) ten =
      roundWithAccuracy Format.binary64 .positive (m * (5 * 2 ^ 50)) (e + -49) .exact := rfl
  have hne : m * (5 * 2 ^ 50) ≠ 0 := by omega
  rw [hproduct]
  rcases Nat.lt_or_ge (m * (5 * 2 ^ 50)).log2 102 with hshort | hlong
  · -- the product has so few bits that the mantissa is short
    have hsmall := (Nat.log2_lt hne).mp hshort
    obtain rfl : e = -1074 := hfull.resolve_right (by omega)
    have hpos : 0 < 10 * m := by omega
    have hten : m * (5 * 2 ^ 50) = 10 * m * 2 ^ 49 := by ring
    refine ⟨10 * m, -1074, hpos, ?_, ⟨by omega, le_rfl, .inl rfl⟩, .inr ⟨rfl, by omega⟩⟩
    rw [hten]
    exact round_short .positive 49 hpos (by omega)
  · -- at least fifty bits are shifted out, which makes up for the exponent of ten
    obtain ⟨k, hk⟩ : ∃ k, (m * (5 * 2 ^ 50)).log2 = 52 + k := Nat.exists_eq_add_of_le (by omega)
    obtain ⟨m', e', hm', hround, hlower, hupper, he'⟩ :=
      round_long .positive hk (show -1074 ≤ e + -49 + k by omega)
    exact ⟨m', e', hm', hround, ⟨hupper, by omega, .inr hlower⟩, .inl (by omega)⟩

/-! ## Positive doubles -/

variable {x y : Float}

/-- A positive double is infinite, or it has a canonical mantissa. -/
theorem pos_cases (hpos : 0.0 < x) :
    x.toModel.unpack = .infinity .positive ∨
      ∃ m e, ∃ hm : 0 < m, x.toModel.unpack = .finite .positive m e hm ∧ Canonical m e := by
  obtain ⟨-, hdefined, hrank⟩ := (lt_iff _ _).mp (of_decide_eq_true hpos)
  have hzero : (0.0 : Float).toModel.unpack = .zero .positive := rfl
  rw [hzero] at hrank
  cases hx : x.toModel.unpack with
  | notANumber =>
      rw [hx] at hdefined
      cases hdefined
  | zero t =>
      rw [hx] at hrank
      exact absurd hrank (lt_irrefl _)
  | infinity t =>
      cases t with
      | positive => exact .inl rfl
      | negative =>
          rw [hx] at hrank
          exact absurd hrank (by decide)
  | finite t m e hm =>
      cases t with
      | positive => exact .inr ⟨m, e, hm, rfl, canonical_of_unpack hx⟩
      | negative =>
          rw [hx] at hrank
          simp [rank, Prod.Lex.lt_iff] at hrank

theorem infinity_le_iff : Scalar.infinity ≤ x ↔ x.toModel.unpack = .infinity .positive := by
  have hinfinity : (Scalar.infinity : Float).toModel.unpack = .infinity .positive := rfl
  constructor
  · intro h
    obtain ⟨-, hdefined, hrank⟩ := (le_iff _ _).mp (of_decide_eq_true h)
    rw [hinfinity] at hrank
    cases hx : x.toModel.unpack with
    | notANumber =>
        rw [hx] at hdefined
        cases hdefined
    | infinity t =>
        cases t with
        | positive => rfl
        | negative =>
            rw [hx] at hrank
            exact absurd hrank (by decide)
    | zero t =>
        rw [hx] at hrank
        simp [rank, Prod.Lex.le_iff] at hrank
    | finite t m e hm =>
        rw [hx] at hrank
        cases t <;> simp [rank, Prod.Lex.le_iff] at hrank
  · intro hx
    refine decide_eq_true ((le_iff _ _).mpr ?_)
    rw [hinfinity, hx]
    exact ⟨rfl, rfl, le_refl _⟩

theorem unpack_mul_ten (x : Float) :
    (x * 10.0).toModel.unpack = repack (UnpackedFloat.mul Format.binary64 x.toModel.unpack ten) := by
  rw [← unpack_ten]
  rfl

theorem infinity_le_mul_ten (h : Scalar.infinity ≤ x) : Scalar.infinity ≤ x * 10.0 := by
  rw [infinity_le_iff, unpack_mul_ten, infinity_le_iff.mp h]
  rfl

/-- A positive double that is not infinite is smaller than its product with ten. -/
theorem lt_mul_ten (hpos : 0.0 < x) (hbelow : ¬ Scalar.infinity ≤ x) : x < x * 10.0 := by
  rcases pos_cases hpos with hx | ⟨m, e, hm, hx, hcanonical⟩
  · exact absurd (infinity_le_iff.mpr hx) hbelow
  · refine decide_eq_true ((lt_iff _ _).mpr ?_)
    obtain ⟨m', e', hm', hmul, hcanonical', hgrows⟩ := mul_ten hcanonical hm
    rw [unpack_mul_ten, hx, hmul]
    rcases repack_of_canonical hcanonical' .positive hm' with hrepack | hrepack
    · rw [hrepack]
      refine ⟨rfl, rfl, ?_⟩
      simpa [rank, Prod.Lex.lt_iff] using hgrows
    · rw [hrepack]
      exact ⟨rfl, rfl, by simp [rank, Prod.Lex.lt_iff]⟩

theorem mul_ten_pos (hpos : 0.0 < x) : 0.0 < x * 10.0 := by
  by_cases hbelow : Scalar.infinity ≤ x
  · have hinfinite : (0.0 : Float) < Scalar.infinity := by decide
    exact Scalar.lt_of_lt_of_le hinfinite (infinity_le_mul_ten hbelow)
  · exact Scalar.lt_trans hpos (lt_mul_ten hpos hbelow)

theorem beq_zero_of_pos (hpos : 0.0 < x) : (x == 0.0) = false := by
  show UnpackedFloat.beq x.toModel.unpack (.zero .positive) = false
  rcases pos_cases hpos with hx | ⟨m, e, hm, hx, -⟩ <;> rw [hx] <;> rfl

/-! ## Counting -/

theorem eq_of_toBits (h : x.toModel.toBits = y.toModel.toBits) : x = y := by
  obtain ⟨⟨bits, hvalid⟩⟩ := x
  obtain ⟨⟨bits', hvalid'⟩⟩ := y
  obtain rfl : bits = bits' := h
  rfl

/-- There are no more doubles in growing order than there are patterns of 64 bits. -/
theorem length_growing {x : ℕ → Float} {k : ℕ} (hgrows : ∀ i < k, x i < x (i + 1)) : k < 2 ^ 64 := by
  have hlt (i j : ℕ) (hij : i < j) (hj : j ≤ k) : x i < x j := by
    induction j, hij using Nat.le_induction with
    | base => exact hgrows i hj
    | succ j hij ih => exact Scalar.lt_trans (ih (by omega)) (hgrows j hj)
  let bits (i : Fin (k + 1)) : Fin (2 ^ 64) := ⟨(x i).toModel.toBits.toNat, UInt64.toNat_lt _⟩
  have hinjective : Function.Injective bits := by
    intro i j hij
    have hsame : x i = x j := eq_of_toBits (UInt64.toNat_inj.mp (congrArg Fin.val hij))
    rcases lt_trichotomy i j with hless | heq | hless
    · exact absurd (hsame ▸ hlt i j hless j.is_le) (Scalar.lt_irrefl _)
    · exact heq
    · exact absurd (hsame ▸ hlt j i hless i.is_le) (Scalar.lt_irrefl _)
  -- `k + 1` doubles are told apart by their bits
  have hcard := Fintype.card_le_of_injective bits hinjective
  rw [Fintype.card_fin, Fintype.card_fin] at hcard
  exact hcard

end Minima.Double
