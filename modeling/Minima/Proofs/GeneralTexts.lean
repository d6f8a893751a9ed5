import Minima.Digits.Style
import Minima.Proofs.Numerals
import Minima.Proofs.SignificantDigits

/-!
# Numbers written with six digits

A finite double that is written with six significant digits is laid out as a numeral: a sign, digits
with a point if there are places, and an exponent if it is large or small. So it can be read, and what
is read is finite, because rounding to six digits never goes beyond the greatest double.
-/

namespace Minima

open Text (Numeral)
open Text.Numeral

theorem toList_pushn (s : String) (c : Char) (k : Nat) :
    (s.pushn c k).toList = s.toList ++ List.replicate k c := by
  induction k with
  | zero => simp [String.pushn, Nat.repeat]
  | succ k ih =>
      have hstep : s.pushn c (k + 1) = (s.pushn c k).push c := rfl
      rw [hstep, String.toList_push, ih, List.replicate_succ', List.append_assoc]

theorem toList_padZeros (width n : Nat) : (padZeros width n.repr).toList =
    List.replicate (width - n.repr.length) '0' ++ Nat.toDigits 10 n := by
  rw [padZeros, String.toList_append, toList_pushn, Nat.toList_repr]
  rfl

namespace Decimal

/-! ## Zeros at the end -/

theorem exists_strip_go (n fuel : Nat) : ∃ k, n = strip.go n fuel * 10 ^ k := by
  induction fuel generalizing n with
  | zero => exact ⟨0, by rw [strip.go, pow_zero, Nat.mul_one]⟩
  | succ fuel ih =>
      rw [strip.go]
      split
      next h =>
        obtain ⟨k, hk⟩ := ih (n / 10)
        refine ⟨k + 1, ?_⟩
        calc n = n / 10 * 10 := by omega
          _ = strip.go (n / 10) fuel * 10 ^ k * 10 := by rw [← hk]
          _ = strip.go (n / 10) fuel * 10 ^ (k + 1) := by ring
      next => exact ⟨0, by rw [pow_zero, Nat.mul_one]⟩

/-- Zeros that are dropped count in the place of the rest. -/
theorem exists_strip (d : Decimal) : ∃ k, d.digits = d.strip.digits * 10 ^ k :=
  exists_strip_go d.digits _

theorem strip_digits_le (d : Decimal) : d.strip.digits ≤ d.digits := by
  obtain ⟨k, hk⟩ := d.exists_strip
  rw [hk]
  exact Nat.le_mul_of_pos_right _ (by positivity)

/-- As many digits are dropped as there are zeros at the end. -/
theorem digitCount_strip {d : Decimal} {count k : Nat} (hlower : 10 ^ count ≤ d.digits)
    (hupper : d.digits < 10 ^ (count + 1)) (hk : d.digits = d.strip.digits * 10 ^ k) :
    digitCount d.strip.digits + k = count + 1 := by
  have hpos : 0 < d.strip.digits := by
    rcases Nat.eq_zero_or_pos d.strip.digits with hzero | hpos
    · have hten : 0 < 10 ^ count := by positivity
      rw [hk, hzero] at hlower
      omega
    · exact hpos
  have hle : k ≤ count := by
    refine Nat.lt_succ_iff.mp ((Nat.pow_lt_pow_iff_right (show 1 < 10 by decide)).mp ?_)
    calc 10 ^ k ≤ d.strip.digits * 10 ^ k := Nat.le_mul_of_pos_left _ hpos
      _ = d.digits := hk.symm
      _ < 10 ^ (count + 1) := hupper
  obtain ⟨j, rfl⟩ := Nat.exists_eq_add_of_le hle
  have hlength : digitCount d.strip.digits = j + 1 := by
    refine digitCount_eq ?_ ?_
    · refine Nat.le_of_mul_le_mul_right (c := 10 ^ k) ?_ (by positivity)
      rw [← hk, ← pow_add, Nat.add_comm j k]
      exact hlower
    · refine Nat.lt_of_mul_lt_mul_right (a := 10 ^ k) ?_
      rw [← hk, ← pow_add]
      exact hupper.trans_eq (congrArg _ (by omega))
  omega

/-! ## Layouts -/

theorem toList_text_one (d : Decimal) : (d.text 1).toList = Nat.toDigits 10 d.digits := by
  have hpos := digitCount_pos d.digits
  have hfull : 1 - d.digits.repr.length = 0 := by
    rw [digitCount] at hpos
    omega
  rw [text, toList_pushn, hfull, Nat.toList_repr]
  simp

end Decimal

/-! ## Numbers as they are written -/

/-- The characters are digits, maybe with a point and an exponent, and stand for `m * 10 ^ e`. -/
inductive Written : List Char → Nat → Int → Prop where
  | intro {whole places ending : List Char} {power : Int} (hne : whole ≠ [])
      (hwhole : ∀ c ∈ whole, c.isDigit = true) (hplaces : ∀ c ∈ places, c.isDigit = true)
      (hpower : exponent? ending = some power)
      (hending : ∀ c ∈ ending, c.isDigit = true ∨ c ∈ ['e', '+', '-']) :
      Written (whole ++ (fraction places ++ ending)) (digitsValue (whole ++ places))
        (power - places.length)

variable {cs : List Char} {m : Nat} {e : Int}

theorem plain_exponentMarks : ∀ c ∈ ['e', '+', '-'], Plain c := by
  simp only [List.forall_mem_cons]
  exact ⟨by decide, by decide, by decide, by simp⟩

/-- A number that is written is read. -/
theorem Written.ofText? (h : Written cs m e) (negative : Bool) :
    Numeral.ofText? (String.ofList ((if negative then ['-'] else []) ++ cs)) =
      some (.decimal negative m e) := by
  obtain ⟨hne, hwhole, hplaces, hpower, hending⟩ := h
  refine ofText?_layout hne hwhole hplaces hpower fun c hc => ?_
  rcases hending c hc with hdigit | hother
  · exact plain_of_isDigit hdigit
  · exact plain_exponentMarks c hother

/-- A number is written with digits and a few other characters. -/
theorem Written.mem (h : Written cs m e) :
    ∀ c ∈ cs, c.isDigit = true ∨ c ∈ ['.', 'e', '+', '-'] := by
  obtain ⟨-, hwhole, hplaces, -, hending⟩ := h
  simp only [List.mem_append, fraction]
  rintro c (hc | hc | hc)
  · exact .inl (hwhole c hc)
  · split at hc
    · cases hc
    · rcases List.mem_cons.mp hc with rfl | hc
      · exact .inr (by decide)
      · exact .inl (hplaces c hc)
  · exact (hending c hc).imp_right (List.mem_cons_of_mem _)

theorem Written.ne_nil (h : Written cs m e) : cs ≠ [] := by
  obtain ⟨hne, -⟩ := h
  simp [hne]

/-- Digits with no exponent stand for a number that is as long as they are. -/
theorem written_of_digits {whole places : List Char} (hne : whole ≠ [])
    (hwhole : ∀ c ∈ whole, c.isDigit = true) (hplaces : ∀ c ∈ places, c.isDigit = true) :
    ∃ m k : Nat, Written (whole ++ fraction places) m (-(k : Int)) ∧
      m < 10 ^ (whole.length + places.length) := by
  have hending : ∀ c ∈ ([] : List Char), c.isDigit = true ∨ c ∈ ['e', '+', '-'] := by simp
  have h := Written.intro hne hwhole hplaces rfl hending
  rw [List.append_nil, Int.zero_sub] at h
  refine ⟨_, _, h, ?_⟩
  rw [← List.length_append]
  exact digitsValue_lt (List.forall_mem_append.mpr ⟨hwhole, hplaces⟩)

namespace Decimal

theorem length_toDigits (n : Nat) : (Nat.toDigits 10 n).length = digitCount n := by
  rw [digitCount, ← String.length_toList, Nat.toList_repr]

theorem toList_withExponent {d : Decimal} {first : Char} {rest : List Char}
    (hdigits : Nat.toDigits 10 d.digits = first :: rest) :
    (d.withExponent 1 2).toList = [first] ++ (fraction rest ++
      'e' :: (if decide (d.exponent < 0) then '-' else '+') ::
        (List.replicate (2 - d.exponent.natAbs.repr.length) '0' ++
          Nat.toDigits 10 d.exponent.natAbs)) := by
  have hsign : (if d.exponent < 0 then "-" else "+").toList =
      [if decide (d.exponent < 0) then '-' else '+'] := by
    by_cases hneg : d.exponent < 0 <;> simp [hneg]
  have hfirst : ((d.text 1).take 1).toString.toList = [first] := by
    simp [String.Slice.toString_eq, String.toList_copy_take, toList_text_one, hdigits]
  have hrest : ((d.text 1).drop 1).toString.toList = rest := by
    simp [String.Slice.toString_eq, String.toList_copy_drop, toList_text_one, hdigits]
  have hmark : (if ((d.text 1).drop 1).toString.isEmpty then "" else ".").toList ++ rest =
      fraction rest := by
    rw [← String.ofList_toList (s := ((d.text 1).drop 1).toString), hrest, fraction]
    by_cases hempty : rest = [] <;> simp [hempty]
  simp only [withExponent, String.toList_append, toList_padZeros, hsign, hfirst, hrest]
  rw [← hmark]
  simp

/-- With an exponent the first digit stands before the point. -/
theorem written_withExponent (d : Decimal) : Written (d.withExponent 1 2).toList d.digits
    (d.exponent + 1 - digitCount d.digits) := by
  obtain ⟨first, rest, hdigits⟩ :=
    List.exists_cons_of_ne_nil (Nat.toDigits_ne_nil (b := 10) (n := d.digits))
  have hall : ∀ c ∈ first :: rest, c.isDigit = true := hdigits ▸ isDigit_toDigits d.digits
  have hcount : rest.length + 1 = digitCount d.digits := by
    rw [← length_toDigits, hdigits, List.length_cons]
  rw [toList_withExponent hdigits]
  generalize 2 - d.exponent.natAbs.repr.length = zeros
  have hpower : ∀ c ∈ List.replicate zeros '0' ++ Nat.toDigits 10 d.exponent.natAbs,
      c.isDigit = true :=
    List.forall_mem_append.mpr ⟨isDigit_zeros zeros, isDigit_toDigits _⟩
  have hvalue : digitsValue (List.replicate zeros '0' ++ Nat.toDigits 10 d.exponent.natAbs) =
      d.exponent.natAbs := by
    rw [digitsValue_zeros_append, digitsValue_toDigits]
  have hfirst : ∀ c ∈ [first], c.isDigit = true := by simpa using hall first (by simp)
  have hrest : ∀ c ∈ rest, c.isDigit = true := fun c hc => hall c (List.mem_cons_of_mem _ hc)
  have h := Written.intro (List.cons_ne_nil first []) hfirst hrest
    (exponent?_of_digits (decide (d.exponent < 0)) (by simp) hpower) (by
      refine List.forall_mem_cons.mpr ⟨.inr (by decide), List.forall_mem_cons.mpr ⟨.inr ?_, ?_⟩⟩
      · split <;> decide
      · exact fun c hc => .inl (hpower c hc))
  have hwhole : digitsValue ([first] ++ rest) = d.digits := by
    rw [List.singleton_append, ← hdigits, digitsValue_toDigits]
  rw [hwhole, hvalue] at h
  convert h using 1
  by_cases hneg : d.exponent < 0
  · simp only [hneg, decide_true, if_true]
    omega
  · simp only [hneg, decide_false, Bool.false_eq_true, if_false]
    omega

/-- A number below one begins with zeros. -/
theorem toList_positional_of_neg {d : Decimal} (h : d.exponent < 0) :
    (d.positional d.placesNeeded).toList = ['0'] ++ fraction
      (List.replicate (-(d.exponent + 1)).toNat '0' ++ Nat.toDigits 10 d.digits) := by
  have hpos := digitCount_pos d.digits
  have hplaces : d.placesNeeded = (-(d.exponent + 1)).toNat + digitCount d.digits := by
    rw [placesNeeded]
    omega
  have hsome : d.placesNeeded ≠ 0 := by omega
  generalize hk : (-(d.exponent + 1)).toNat = k at hplaces
  have hfull : d.placesNeeded - ("".pushn '0' k ++ d.digits.repr).length = 0 := by
    rw [← String.length_toList, String.toList_append, toList_pushn, Nat.toList_repr,
      List.length_append, length_toDigits]
    simp
    omega
  have hne : List.replicate k '0' ++ Nat.toDigits 10 d.digits ≠ [] := by simp
  simp only [positional, if_pos (show d.exponent + 1 ≤ 0 by omega), if_neg hsome, hk, hfull,
    String.toList_append, toList_pushn, Nat.toList_repr, fraction, if_neg hne]
  simp

/-- A number that is not below one has its point among its digits or after them. -/
theorem toList_positional_of_nonneg {d : Decimal} {k : Nat} (h : d.exponent = k)
    {padded : List Char} (hpadded : Nat.toDigits 10 d.digits ++
      List.replicate (k + 1 - digitCount d.digits) '0' = padded) :
    (d.positional d.placesNeeded).toList =
      padded.take (k + 1) ++ fraction (padded.drop (k + 1)) := by
  have hwhole : ¬ d.exponent + 1 ≤ 0 := by omega
  have hnat : (d.exponent + 1).toNat = k + 1 := by omega
  have hplaces : d.placesNeeded = digitCount d.digits - (k + 1) := by
    rw [placesNeeded]
    omega
  have htext : (d.digits.repr.pushn '0' (k + 1 - d.digits.repr.length)).toList = padded := by
    rw [toList_pushn, Nat.toList_repr, ← hpadded, digitCount]
  have hlength : padded.length = digitCount d.digits + (k + 1 - digitCount d.digits) := by
    rw [← hpadded, List.length_append, length_toDigits, List.length_replicate]
  have hdrop : (padded.drop (k + 1)).length = d.placesNeeded := by
    rw [List.length_drop]
    omega
  simp only [positional, if_neg hwhole, hnat]
  split
  next hnone =>
    rw [hnone, List.length_eq_zero_iff] at hdrop
    simp [String.Slice.toString_eq, String.toList_copy_take, htext, fraction, hdrop]
  next hsome =>
    have hne : padded.drop (k + 1) ≠ [] := by
      rintro hnil
      rw [hnil] at hdrop
      exact hsome hdrop.symm
    have hfull : d.placesNeeded - ((d.digits.repr.pushn '0'
        (k + 1 - d.digits.repr.length)).drop (k + 1)).copy.length = 0 := by
      rw [← String.length_toList, String.toList_copy_drop, htext, hdrop, Nat.sub_self]
    simp [toList_pushn, hfull, String.Slice.toString_eq, String.toList_copy_take,
      String.toList_copy_drop, htext, fraction, hne]

/-- Without an exponent there are about as many characters as digits and zeros. -/
theorem written_positional (d : Decimal) : ∃ m k : Nat,
    Written (d.positional d.placesNeeded).toList m (-(k : Int)) ∧
      m < 10 ^ (d.exponent.natAbs + digitCount d.digits) := by
  have hpos := digitCount_pos d.digits
  rcases lt_or_ge d.exponent 0 with hneg | hnonneg
  · have hzero : ∀ c ∈ ['0'], c.isDigit = true := by simp
    have hplaces : ∀ c ∈ List.replicate (-(d.exponent + 1)).toNat '0' ++ Nat.toDigits 10 d.digits,
        c.isDigit = true :=
      List.forall_mem_append.mpr ⟨isDigit_zeros _, isDigit_toDigits _⟩
    obtain ⟨m, k, hwritten, hm⟩ := written_of_digits (List.cons_ne_nil '0' []) hzero hplaces
    rw [← toList_positional_of_neg hneg] at hwritten
    refine ⟨m, k, hwritten, hm.trans_le (Nat.pow_le_pow_right (by decide) ?_)⟩
    simp only [List.length_append, List.length_replicate, length_toDigits, List.length_singleton]
    omega
  · obtain ⟨n, hn⟩ := Int.eq_ofNat_of_zero_le hnonneg
    obtain ⟨padded, hpadded⟩ : ∃ padded, Nat.toDigits 10 d.digits ++
      List.replicate (n + 1 - digitCount d.digits) '0' = padded := ⟨_, rfl⟩
    have hall : ∀ c ∈ padded, c.isDigit = true := by
      rw [← hpadded]
      exact List.forall_mem_append.mpr ⟨isDigit_toDigits _, isDigit_zeros _⟩
    have hlength : padded.length = digitCount d.digits + (n + 1 - digitCount d.digits) := by
      rw [← hpadded, List.length_append, length_toDigits, List.length_replicate]
    have hne : padded.take (n + 1) ≠ [] := by
      refine List.ne_nil_of_length_pos ?_
      rw [List.length_take]
      omega
    obtain ⟨m, k, hwritten, hm⟩ := written_of_digits hne
      (fun c hc => hall c (List.mem_of_mem_take hc)) (fun c hc => hall c (List.mem_of_mem_drop hc))
    rw [← toList_positional_of_nonneg hn hpadded] at hwritten
    refine ⟨m, k, hwritten, hm.trans_le (Nat.pow_le_pow_right (by decide) ?_)⟩
    rw [← List.length_append, List.take_append_drop]
    omega

/-! ## Six digits -/

/-- A positive number that a double can hold, rounded to six digits, is written as a number that a
double can hold. -/
theorem written_six {num den : Nat} (hnum : 0 < num) (hden : 0 < den)
    (h : num ≤ greatestDouble * den) {r : Decimal} (hr : ofRatio num den 6 = r) :
    ∃ m e, Written (if -4 ≤ r.exponent ∧ r.exponent < (6 : Nat) then
        r.strip.positional r.strip.placesNeeded else r.strip.withExponent 1 2).toList m e ∧
      Double.Fits m e := by
  have hexponent : r.strip.exponent = r.exponent := rfl
  have hupper : r.digits < 10 ^ 6 := hr ▸ ofRatio_digits_lt hnum hden 5
  have hstrip := r.strip_digits_le
  have hcount : digitCount r.strip.digits ≤ 6 :=
    (Nat.length_repr_le_iff (by decide)).mpr (hstrip.trans_lt hupper)
  split
  next hrange =>
    obtain ⟨m, k, hwritten, hm⟩ := r.strip.written_positional
    refine ⟨m, -k, hwritten, hm.trans ?_, fun hpos => by omega⟩
    calc 10 ^ (r.strip.exponent.natAbs + digitCount r.strip.digits) ≤ 10 ^ 11 :=
          Nat.pow_le_pow_right (by decide) (by omega)
      _ < 2 ^ 53 := by decide
  next hrange =>
    refine ⟨_, _, r.strip.written_withExponent, by omega, fun hpos => ?_⟩
    -- the place of the last digit is positive only if the number is large
    obtain ⟨e, he⟩ : ∃ e : Nat, r.exponent = e + 6 := ⟨(r.exponent - 6).toNat, by omega⟩
    obtain ⟨hle, hlimit⟩ := ofRatio_six_le hnum hden h (by rw [hr, he])
    rw [hr] at hlimit
    obtain ⟨k, hk⟩ := r.exists_strip
    have hsix := digitCount_strip (hr ▸ le_ofRatio_digits hden hle 5) hupper hk
    have hplace : (r.strip.exponent + 1 - digitCount r.strip.digits).toNat = k + (e + 1) := by omega
    have hmoved : r.strip.digits * 10 ^ (k + (e + 1)) = r.digits * 10 ^ (e + 1) := by
      rw [hk, Nat.pow_add, Nat.mul_assoc]
    rwa [hplace, hmoved]

end Decimal

/-! ## Finite doubles -/

open Float.Model Float.Model.UnpackedFloat in
/-- A finite double does not have the greatest field of the exponent. -/
theorem field_ne_of_isFinite {x : Float} (hx : x.isFinite = true) :
    x.toBits.toNat / twoTo 52 % twoTo 11 ≠ 2047 := by
  intro hfield
  have hones : @unpackExponent Format.binary64 x.toBits.toBitVec = -1#11 := by
    refine BitVec.eq_of_toNat_eq ?_
    rw [unpackExponent, BitVec.toNat_cast, BitVec.extractLsb_toNat, Nat.shiftRight_eq_div_pow]
    exact hfield
  have hnot : (UnpackedFloat.unpack Format.binary64 x.toBits.toBitVec).isFinite = false := by
    simp only [UnpackedFloat.unpack]
    rw [if_pos hones]
    split <;> rfl
  exact absurd (hx.symm.trans hnot) (by decide)

theorem le_greatestDouble {m k : Nat} (hm : m < 2 ^ 53) (hk : k ≤ 971) :
    m * 2 ^ k ≤ Decimal.greatestDouble := by
  rw [Decimal.greatestDouble]
  exact Nat.mul_le_mul (Nat.le_sub_one_of_lt hm) (pow_le_pow_right₀ (by decide) hk)

/-- A finite double is not beyond the greatest one. -/
theorem Dyadic.exists_ofFloat? {x : Float} (hx : x.isFinite = true) :
    ∃ d, Dyadic.ofFloat? x = some d ∧ d.numerator ≤ Decimal.greatestDouble * d.denominator := by
  have hfield := field_ne_of_isFinite hx
  have hfraction : x.toBits.toNat % twoTo 52 < twoTo 52 := Nat.mod_lt _ (Nat.two_pow_pos 52)
  have hbelow : x.toBits.toNat / twoTo 52 % twoTo 11 < twoTo 11 := Nat.mod_lt _ (Nat.two_pow_pos 11)
  have h52 : twoTo 52 = 2 ^ 52 := rfl
  have h11 : twoTo 11 = 2 ^ 11 := rfl
  obtain ⟨d, hd, hmantissa, hexponent⟩ : ∃ d, Dyadic.ofFloat? x = some d ∧
      d.mantissa < 2 ^ 53 ∧ d.exponent ≤ 971 := by
    simp only [ofFloat?]
    generalize x.toBits.toNat / twoTo 52 % twoTo 11 = field at *
    rw [if_neg hfield]
    split
    · exact ⟨_, rfl, by simp only; omega, by simp only; omega⟩
    · exact ⟨_, rfl, by simp only; omega, by simp only; omega⟩
  refine ⟨d, hd, ?_⟩
  have hnumerator : d.numerator ≤ Decimal.greatestDouble := le_greatestDouble hmantissa (by omega)
  exact hnumerator.trans (Nat.le_mul_of_pos_right _ (Nat.two_pow_pos _))

/-- A finite double is written as a number that a double can hold. -/
theorem exists_written {x : Float} (hx : x.isFinite = true) : ∃ (negative : Bool) (cs : List Char),
    ∃ m e, generalText 6 x = String.ofList ((if negative then ['-'] else []) ++ cs) ∧
      Written cs m e ∧ Double.Fits m e := by
  obtain ⟨d, hd, hle⟩ := Dyadic.exists_ofFloat? hx
  obtain ⟨r, hr⟩ : ∃ r, Decimal.ofRatio d.numerator d.denominator 6 = r := ⟨_, rfl⟩
  obtain ⟨body, hbody⟩ : ∃ body : String, (if d.mantissa = 0 then "0" else
      if -4 ≤ r.exponent ∧ r.exponent < (6 : Nat) then r.strip.positional r.strip.placesNeeded
      else r.strip.withExponent 1 2) = body := ⟨_, rfl⟩
  have htext : generalText 6 x =
      String.ofList ((if d.negative then ['-'] else []) ++ body.toList) := by
    simp only [generalText, layoutWith, hd, hr, hbody]
    cases d.negative <;> simp
  suffices h : ∃ m e, Written body.toList m e ∧ Double.Fits m e by
    obtain ⟨m, e, hwritten, hfits⟩ := h
    exact ⟨d.negative, body.toList, m, e, htext, hwritten, hfits⟩
  by_cases hzero : d.mantissa = 0
  · rw [if_pos hzero] at hbody
    subst hbody
    have hdigit : ∀ c ∈ ['0'], c.isDigit = true := by simp
    have hnone : ∀ c ∈ ([] : List Char), c.isDigit = true := by simp
    obtain ⟨m, k, hwritten, hm⟩ := written_of_digits (List.cons_ne_nil '0' []) hdigit hnone
    exact ⟨m, -k, hwritten, hm.trans (by decide), fun hpos => by omega⟩
  · have hnum : 0 < d.numerator := Nat.mul_pos (Nat.pos_of_ne_zero hzero) (Nat.two_pow_pos _)
    rw [if_neg hzero] at hbody
    subst hbody
    exact Decimal.written_six hnum (Nat.two_pow_pos _) hle hr

/-- A finite double is written with digits and a few other characters. -/
theorem mem_generalText {x : Float} (hx : x.isFinite = true) :
    ∀ c ∈ (generalText 6 x).toList, c.isDigit = true ∨ c ∈ ['.', 'e', '+', '-'] := by
  obtain ⟨negative, cs, m, e, htext, hwritten, -⟩ := exists_written hx
  rw [htext, String.toList_ofList]
  rintro c hc
  rcases List.mem_append.mp hc with hsign | hc
  · right
    cases negative with
    | true => rw [List.mem_singleton.mp hsign]; decide
    | false => cases hsign
  · exact hwritten.mem c hc

/-- A finite double is written with at least one character. -/
theorem generalText_ne_empty {x : Float} (hx : x.isFinite = true) : generalText 6 x ≠ "" := by
  obtain ⟨negative, cs, m, e, htext, hwritten, -⟩ := exists_written hx
  rw [htext]
  simp [hwritten.ne_nil]

/-- A finite double that is written is read, and what is read is finite. -/
theorem exists_ofText?_generalText {x : Float} (hx : x.isFinite = true) :
    ∃ y, Double.ofText? (generalText 6 x) = some y ∧ y.isFinite = true := by
  obtain ⟨negative, cs, m, e, htext, hwritten, hfits⟩ := exists_written hx
  refine ⟨Double.ofDecimal negative m e, ?_, Double.ofDecimal_isFinite negative hfits⟩
  rw [Double.ofText?, htext, hwritten.ofText?]
  rfl

end Minima
