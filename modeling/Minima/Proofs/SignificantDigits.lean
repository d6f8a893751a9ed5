import Minima.Digits.Rounding
import Minima.Proofs.FiniteDecimals

/-!
# Significant digits

How many digits a rounded number has, and how large it is: the exponent of the leading digit is found
from the length of a quotient, so the digits fill their places, and rounding adds no more than one. The
greatest double is rounded down to six digits, so that no double is carried beyond it.
-/

namespace Minima

/-! ## Lengths -/

theorem digitCount_pos (n : Nat) : 0 < digitCount n := Nat.length_repr_pos

theorem lt_ten_pow_digitCount (n : Nat) : n < 10 ^ digitCount n :=
  (Nat.length_repr_le_iff (digitCount_pos n)).mp le_rfl

theorem ten_pow_le_of_digitCount {n k : Nat} (hn : 0 < n) (h : digitCount n = k + 1) : 10 ^ k ≤ n := by
  rcases Nat.eq_zero_or_pos k with rfl | hk
  · exact hn
  · by_contra hlt
    have hle : digitCount n ≤ k := (Nat.length_repr_le_iff hk).mpr (Nat.lt_of_not_le hlt)
    omega

/-- The length of a number is known from the powers of ten that it lies between. -/
theorem digitCount_eq {n k : Nat} (hlower : 10 ^ k ≤ n) (hupper : n < 10 ^ (k + 1)) :
    digitCount n = k + 1 := by
  have hle : digitCount n ≤ k + 1 := (Nat.length_repr_le_iff (Nat.succ_pos k)).mpr hupper
  have hpos := digitCount_pos n
  rcases Nat.eq_zero_or_pos k with rfl | hk
  · omega
  · have hgt : ¬ digitCount n ≤ k := fun h =>
      Nat.not_lt.mpr hlower ((Nat.length_repr_le_iff hk).mp h)
    omega

/-! ## Rounding to a whole number -/

theorem div_le_roundDiv (num den : Nat) : num / den ≤ roundDiv num den := by
  simp only [roundDiv]
  split <;> omega

/-- What is below half way is not rounded up. -/
theorem roundDiv_le {num den a : Nat} (hden : 0 < den) (h : 2 * num < (2 * a + 1) * den) :
    roundDiv num den ≤ a := by
  have hsplit := Nat.div_add_mod num den
  have hquotient : num / den ≤ a := by
    rw [← Nat.lt_succ_iff, Nat.div_lt_iff_lt_mul hden]
    nlinarith
  simp only [roundDiv]
  split
  next hup =>
    have hhalf : den ≤ 2 * (num % den) := by
      simp only [Bool.or_eq_true, decide_eq_true_eq, Bool.and_eq_true, beq_iff_eq] at hup
      omega
    by_contra hgt
    obtain heq : num / den = a := by omega
    rw [heq] at hsplit
    nlinarith
  next => exact hquotient

theorem roundDiv_le_of_lt {num den a : Nat} (hden : 0 < den) (h : num < a * den) :
    roundDiv num den ≤ a :=
  roundDiv_le hden (by nlinarith)

namespace Decimal

variable {num den : Nat}

/-! ## The leading digit -/

/-- A number that is not below one lies between the powers of ten that its exponent says. -/
theorem leadingExponent_of_le (hden : 0 < den) (h : den ≤ num) :
    ∃ k : Nat, leadingExponent num den = k ∧ 10 ^ k * den ≤ num ∧ num < 10 ^ (k + 1) * den := by
  have hquotient : 0 < num / den := Nat.div_pos h hden
  obtain ⟨k, hk⟩ := Nat.exists_eq_succ_of_ne_zero (digitCount_pos (num / den)).ne'
  refine ⟨k, ?_, ?_, ?_⟩
  · rw [leadingExponent, if_pos h, hk]
    omega
  · exact (Nat.le_div_iff_mul_le hden).mp (ten_pow_le_of_digitCount hquotient hk)
  · refine (Nat.div_lt_iff_lt_mul hden).mp ?_
    rw [← Nat.succ_eq_add_one, ← hk]
    exact lt_ten_pow_digitCount _

/-- A number below one has an exponent below zero, and is below the power of ten after that. -/
theorem leadingExponent_of_lt (hnum : 0 < num) (h : num < den) :
    ∃ k : Nat, leadingExponent num den = -((k + 1 : Nat) : Int) ∧ num * 10 ^ k < den := by
  have hceil : 0 < (den + num - 1) / num - 1 := by
    have htwo : 2 ≤ (den + num - 1) / num := (Nat.le_div_iff_mul_le hnum).mpr (by omega)
    omega
  obtain ⟨k, hk⟩ := Nat.exists_eq_succ_of_ne_zero (digitCount_pos ((den + num - 1) / num - 1)).ne'
  refine ⟨k, ?_, ?_⟩
  · rw [leadingExponent, if_neg (Nat.not_le.mpr h), hk]
  · have hlower := ten_pow_le_of_digitCount hceil hk
    have hbelow : ((den + num - 1) / num - 1) * num < den := by
      have := Nat.div_mul_le_self (den + num - 1) num
      rw [Nat.sub_mul, Nat.one_mul]
      omega
    calc num * 10 ^ k ≤ num * ((den + num - 1) / num - 1) := Nat.mul_le_mul_left _ hlower
      _ = ((den + num - 1) / num - 1) * num := Nat.mul_comm ..
      _ < den := hbelow

/-! ## Rounding to significant digits -/

theorem digits_of_scaled {count p q k : Nat} (hden : 0 < den) (hscale : p + k = q + count)
    (hupper : num < 10 ^ (k + 1) * den) :
    roundDiv (num * 10 ^ p) (den * 10 ^ q) ≤ 10 ^ (count + 1) := by
  refine roundDiv_le_of_lt (by positivity) ?_
  calc num * 10 ^ p < 10 ^ (k + 1) * den * 10 ^ p := Nat.mul_lt_mul_of_pos_right hupper (by positivity)
    _ = 10 ^ (p + k) * (10 * den) := by ring
    _ = 10 ^ (count + 1) * (den * 10 ^ q) := by rw [hscale]; ring

theorem le_digits_of_scaled {count p q k : Nat} (hden : 0 < den) (hscale : p + k = q + count)
    (hlower : 10 ^ k * den ≤ num) :
    10 ^ count ≤ roundDiv (num * 10 ^ p) (den * 10 ^ q) := by
  refine le_trans ((Nat.le_div_iff_mul_le (by positivity)).mpr ?_) (div_le_roundDiv _ _)
  calc 10 ^ count * (den * 10 ^ q) = 10 ^ (q + count) * den := by ring
    _ = 10 ^ k * den * 10 ^ p := by rw [← hscale]; ring
    _ ≤ num * 10 ^ p := Nat.mul_le_mul_right _ hlower

/-- Digits of which there is one too many are ten times too large. -/
def carried (count digits : Nat) (exponent : Int) : Decimal :=
  if digits = 10 ^ (count + 1) then ⟨10 ^ count, exponent + 1⟩ else ⟨digits, exponent⟩

theorem ofRatio_eq (num den count : Nat) {k : Int} {p q : Nat} (hk : leadingExponent num den = k)
    (hp : ((count : Int) - k).toNat = p) (hq : (k - count).toNat = q) :
    ofRatio num den (count + 1) = carried count (roundDiv (num * 10 ^ p) (den * 10 ^ q)) k := by
  subst hk hp hq
  have hshift : ((count + 1 : Nat) : Int) - 1 - leadingExponent num den =
      count - leadingExponent num den := by omega
  have hback : -((count : Int) - leadingExponent num den) = leadingExponent num den - count := by
    omega
  simp only [ofRatio, scale, hshift, hback]
  rfl

/-- How a number that is not below one is rounded. -/
theorem ofRatio_of_le (hden : 0 < den) (h : den ≤ num) (count : Nat) :
    ∃ k p q : Nat, p + k = q + count ∧ (p = 0 ∨ q = 0) ∧ 10 ^ k * den ≤ num ∧
      num < 10 ^ (k + 1) * den ∧
      ofRatio num den (count + 1) = carried count (roundDiv (num * 10 ^ p) (den * 10 ^ q)) k := by
  obtain ⟨k, hk, hlower, hupper⟩ := leadingExponent_of_le hden h
  exact ⟨k, count - k, k - count, by omega, by omega, hlower, hupper,
    ofRatio_eq num den count hk (by omega) (by omega)⟩

/-- How a number below one is rounded. -/
theorem ofRatio_of_lt (hnum : 0 < num) (h : num < den) (count : Nat) :
    ∃ k : Nat, num * 10 ^ k < den ∧ ofRatio num den (count + 1) =
      carried count (roundDiv (num * 10 ^ (count + 1 + k)) den) (-((k + 1 : Nat) : Int)) := by
  obtain ⟨k, hk, hupper⟩ := leadingExponent_of_lt hnum h
  refine ⟨k, hupper, ?_⟩
  rw [ofRatio_eq num den count hk (p := count + 1 + k) (q := 0) (by omega) (by omega), pow_zero,
    Nat.mul_one]

theorem carried_digits_lt {count digits : Nat} (exponent : Int) (h : digits ≤ 10 ^ (count + 1)) :
    (carried count digits exponent).digits < 10 ^ (count + 1) := by
  rw [carried]
  split
  · exact Nat.pow_lt_pow_right (by decide) (Nat.lt_succ_self count)
  · exact Nat.lt_of_le_of_ne h ‹_›

/-- There are no more digits than asked for. -/
theorem ofRatio_digits_lt (hnum : 0 < num) (hden : 0 < den) (count : Nat) :
    (ofRatio num den (count + 1)).digits < 10 ^ (count + 1) := by
  rcases Nat.lt_or_ge num den with h | h
  · obtain ⟨k, hupper, heq⟩ := ofRatio_of_lt hnum h count
    rw [heq]
    refine carried_digits_lt _ (roundDiv_le_of_lt hden ?_)
    calc num * 10 ^ (count + 1 + k) = 10 ^ (count + 1) * (num * 10 ^ k) := by ring
      _ < 10 ^ (count + 1) * den := Nat.mul_lt_mul_of_pos_left hupper (by positivity)
  · obtain ⟨k, p, q, hscale, -, -, hupper, heq⟩ := ofRatio_of_le hden h count
    rw [heq]
    exact carried_digits_lt _ (digits_of_scaled hden hscale hupper)

/-- A number that is not below one has as many digits as asked for. -/
theorem le_ofRatio_digits (hden : 0 < den) (h : den ≤ num) (count : Nat) :
    10 ^ count ≤ (ofRatio num den (count + 1)).digits := by
  obtain ⟨k, p, q, hscale, -, hlower, -, heq⟩ := ofRatio_of_le hden h count
  rw [heq, carried]
  split
  · exact le_rfl
  · exact le_digits_of_scaled hden hscale hlower

/-! ## The greatest double -/

def greatestDouble : Nat := (2 ^ 53 - 1) * 2 ^ 971

theorem exponent_lt_of_le_greatest {k : Nat} (h : 10 ^ k ≤ greatestDouble) : k < 309 := by
  refine (Nat.pow_lt_pow_iff_right (show 1 < 10 by decide)).mp ?_
  calc 10 ^ k ≤ greatestDouble := h
    _ < 10 ^ 309 := by decide +kernel

/-- The seventh digit of the greatest double is not rounded up. -/
theorem greatestDouble_lt_half : 2 * greatestDouble < (2 * 179769 + 1) * 10 ^ 303 := by
  decide +kernel

theorem ten_pow_le_sixDigitLimit : 10 ^ 308 ≤ Double.sixDigitLimit := by decide +kernel

theorem sixDigitLimit_of_digits {digits : Nat} (h : digits ≤ 179769) :
    digits * 10 ^ 303 ≤ Double.sixDigitLimit := by
  have hlimit : 179769 * 10 ^ 303 ≤ Double.sixDigitLimit := by decide +kernel
  exact (Nat.mul_le_mul_right _ h).trans hlimit

/-- Digits that are moved when there is one too many stand for the same number. -/
theorem carried_le {count digits k e : Nat} (h : digits ≤ 10 ^ (count + 1))
    (he : (carried count digits k).exponent = e + (count + 1 : Nat)) :
    (carried count digits k).digits * 10 ^ (e + 1) ≤ 10 ^ (k + 1) := by
  rw [carried] at he ⊢
  split at he
  next hcarry =>
    have hk : k = e + count := by
      simp only at he
      omega
    rw [if_pos hcarry, hk, ← Nat.pow_add]
    exact le_of_eq (congrArg _ (by omega))
  next hcarry =>
    have hk : k = e + (count + 1) := by
      simp only at he
      omega
    rw [if_neg hcarry]
    calc digits * 10 ^ (e + 1) ≤ 10 ^ (count + 1) * 10 ^ (e + 1) := Nat.mul_le_mul_right _ h
      _ = 10 ^ (k + 1) := by rw [← Nat.pow_add]; congr 1; omega

/-- Rounded to six digits, what a double can hold is not beyond what a double can hold. -/
theorem ofRatio_six_le (hnum : 0 < num) (hden : 0 < den) (h : num ≤ greatestDouble * den) {e : Nat}
    (he : (ofRatio num den 6).exponent = e + 6) :
    den ≤ num ∧ (ofRatio num den 6).digits * 10 ^ (e + 1) ≤ Double.sixDigitLimit := by
  rcases Nat.lt_or_ge num den with hlt | hle
  · -- a number below one has no such exponent
    obtain ⟨k, -, heq⟩ := ofRatio_of_lt hnum hlt 5
    rw [heq, carried] at he
    split at he <;> simp only at he <;> omega
  refine ⟨hle, ?_⟩
  obtain ⟨k, p, q, hscale, hzero, hlower, hupper, heq⟩ := ofRatio_of_le hden hle 5
  have hdigits := digits_of_scaled hden hscale hupper
  have hk := exponent_lt_of_le_greatest (Nat.le_of_mul_le_mul_right (hlower.trans h) hden)
  rw [heq] at he ⊢
  rcases Nat.lt_or_ge k 308 with hsmall | hlarge
  · calc (carried 5 _ k).digits * 10 ^ (e + 1) ≤ 10 ^ (k + 1) := carried_le hdigits he
      _ ≤ 10 ^ 308 := pow_le_pow_right₀ (by decide) hsmall
      _ ≤ Double.sixDigitLimit := ten_pow_le_sixDigitLimit
  · obtain rfl : k = 308 := by omega
    obtain rfl : p = 0 := by omega
    obtain rfl : q = 303 := by omega
    have hround : roundDiv (num * 10 ^ 0) (den * 10 ^ 303) ≤ 179769 := by
      refine roundDiv_le (by positivity) ?_
      calc 2 * (num * 10 ^ 0) = 2 * num := by rw [pow_zero, Nat.mul_one]
        _ ≤ 2 * (greatestDouble * den) := Nat.mul_le_mul_left _ h
        _ = 2 * greatestDouble * den := (Nat.mul_assoc ..).symm
        _ < (2 * 179769 + 1) * 10 ^ 303 * den := Nat.mul_lt_mul_of_pos_right greatestDouble_lt_half hden
        _ = (2 * 179769 + 1) * (den * 10 ^ 303) := by rw [Nat.mul_assoc, Nat.mul_comm den]
    have hkept : carried 5 (roundDiv (num * 10 ^ 0) (den * 10 ^ 303)) (308 : Nat) =
        ⟨roundDiv (num * 10 ^ 0) (den * 10 ^ 303), (308 : Nat)⟩ := by
      rw [carried, if_neg]
      omega
    rw [hkept] at he ⊢
    have hplace : e + 1 = 303 := by
      simp only at he
      omega
    simpa only [hplace] using sixDigitLimit_of_digits hround

end Decimal

end Minima
