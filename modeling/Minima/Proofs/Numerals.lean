import Minima.Proofs.Words
import Minima.Scalar.Double
import Minima.Text.Lowercase
import Mathlib.Data.List.Basic
import Mathlib.Algebra.Group.Nat.Defs

/-!
# Numerals

A numeral that stands for a number has a digit, and digits have no small letters, so that it is never
taken for a word. Conversely plain digits, with a sign, a point and an exponent, are read as what they
look like.
-/

namespace Minima.Text

/-! ## Digits -/

theorem digitValue?_of_isDigit {c : Char} (h : c.isDigit = true) :
    digitValue? c = some (c.toNat - 48) := by
  have hbounds : 48 ≤ c.toNat ∧ c.toNat ≤ 57 := Char.isDigit_iff_toNat.mp h
  have hzeros : digitZeros = 48 :: digitZeros.tail := rfl
  rw [digitValue?, hzeros, List.find?_cons_of_pos]
  · rfl
  · simp only [Bool.and_eq_true, decide_eq_true_eq]
    omega

theorem exists_zero_of_digit {c : Char} (h : (digitValue? c).isSome = true) :
    ∃ z ∈ digitZeros, z ≤ c.toNat ∧ c.toNat < z + 10 := by
  rw [digitValue?, Option.isSome_map, List.find?_isSome] at h
  simpa using h

/-- The runs of digits and the runs of capitals have nothing in common. -/
theorem digitZeros_apart : ∀ z ∈ digitZeros, ∀ r ∈ lowercaseRuns, r.2.1 < z ∨ z + 10 ≤ r.1 := by
  decide +kernel

theorem toLower_of_lt {c : Char} (h : c.toNat < 65) : c.toLower = c := by
  refine dif_neg ?_
  rintro ⟨hlower, -⟩
  have hcapital : 65 ≤ c.toNat := UInt32.le_iff_toNat_le.mp hlower
  omega

/-- Digits have no small letters. -/
theorem lowercaseChar_of_digit {c : Char} (h : (digitValue? c).isSome = true) :
    lowercaseChar c = [c] := by
  obtain ⟨z, hz, hlower, hupper⟩ := exists_zero_of_digit h
  rw [lowercaseChar]
  split
  · have hfirst : ∀ z ∈ digitZeros, z < 0x80 → z = 48 := by decide
    have hz48 := hfirst z hz (by omega)
    rw [toLower_of_lt (by omega)]
  · have hdotted : ∀ z ∈ digitZeros, ¬ (z ≤ 0x130 ∧ 0x130 < z + 10) := by decide
    rw [if_neg fun hc => hdotted z hz (by omega)]
    have hnone : (lowercaseRuns.find? fun r =>
        r.1 ≤ c.toNat && c.toNat ≤ r.2.1 && (c.toNat - r.1) % r.2.2.1 == 0) = none := by
      rw [List.find?_eq_none]
      intro r hr
      have hapart := digitZeros_apart z hz r hr
      simp only [Bool.and_eq_true, decide_eq_true_eq]
      omega
    rw [hnone]

namespace Numeral

/-! ## What is in a numeral -/

theorem isSome_digitValue?_of_plainChar {c : Char} (h : (plainChar c).isDigit = true) :
    (digitValue? c).isSome = true := by
  rw [plainChar] at h
  split at h
  · exact absurd h (by decide)
  · split at h
    next v hv => rw [hv]; rfl
    next hv => rw [digitValue?_of_isDigit h] at hv; cases hv

theorem subset_of_dropUnderscores? {previous : Char} {cs ds : List Char}
    (h : dropUnderscores? previous cs = some ds) : ds ⊆ cs := by
  induction cs generalizing previous ds with
  | nil =>
      rw [dropUnderscores?] at h
      split at h
      · cases h
      · cases h
        exact List.Subset.refl _
  | cons c cs ih =>
      rw [dropUnderscores?] at h
      split at h
      · split at h
        · exact List.subset_cons_of_subset _ (ih h)
        · cases h
      split at h
      · cases h
      · obtain ⟨rest, hrest, rfl⟩ := Option.map_eq_some_iff.mp h
        exact List.cons_subset_cons _ (ih hrest)

theorem subset_splitSign (cs : List Char) : (splitSign cs).2 ⊆ cs := by
  rw [splitSign.eq_def]
  split <;> simp

theorem stripChars_subset (p : Char → Bool) (cs : List Char) : stripChars p cs ⊆ cs := by
  intro c hc
  have hdrop := (List.dropWhile_sublist p).subset (List.mem_reverse.mp hc)
  exact (List.dropWhile_sublist p).subset (List.mem_reverse.mp hdrop)

/-- What is read as digits has one. -/
theorem exists_isDigit_of_unsigned? {negative : Bool} {cs : List Char} {n : Numeral}
    (h : unsigned? negative cs = some n) : ∃ c ∈ cs, c.isDigit = true := by
  by_contra hnone
  have hnot : ∀ c ∈ cs, c.isDigit = false := by simpa using hnone
  have hnil : ∀ l : List Char, l ⊆ cs → l.takeWhile Char.isDigit = [] := by
    intro l hl
    cases l with
    | nil => rfl
    | cons c l => exact List.takeWhile_cons_of_neg (by simp [hnot c (hl (by simp))])
  have hdrop : cs.dropWhile Char.isDigit = cs := by
    have hsplit := List.takeWhile_append_dropWhile (p := Char.isDigit) (l := cs)
    rwa [hnil cs (List.Subset.refl _), List.nil_append] at hsplit
  simp only [unsigned?, hnil cs (List.Subset.refl _), hdrop] at h
  cases cs with
  | nil => simp at h
  | cons c cs =>
      by_cases hc : c = '.'
      · subst hc
        simp [hnil cs (List.subset_cons_self _ _)] at h
      · simp [hc] at h

/-- A number is not written without a digit. -/
theorem exists_digit_of_decimal {s : String} {negative : Bool} {mantissa : Nat} {exponent : Int}
    (h : ofText? s = some (.decimal negative mantissa exponent)) :
    ∃ c ∈ s.toList, (digitValue? c).isSome = true := by
  obtain ⟨cs, hcs, h⟩ := Option.bind_eq_some_iff.mp h
  dsimp only at h
  split at h
  · cases h
  split at h
  · cases h
  obtain ⟨c, hc, hdigit⟩ := exists_isDigit_of_unsigned? h
  have hmem := stripChars_subset _ _ (subset_of_dropUnderscores? hcs (subset_splitSign _ hc))
  obtain ⟨d, hd, rfl⟩ := List.mem_map.mp hmem
  exact ⟨d, hd, isSome_digitValue?_of_plainChar hdigit⟩

/-! ## Reading plain digits -/

def Plain (c : Char) : Prop := plainChar c = c ∧ c ≠ ' ' ∧ c ≠ '_'

instance (c : Char) : Decidable (Plain c) := inferInstanceAs (Decidable (_ ∧ _))

theorem plain_of_isDigit {c : Char} (h : c.isDigit = true) : Plain c := by
  have hbounds : 48 ≤ c.toNat ∧ c.toNat ≤ 57 := Char.isDigit_iff_toNat.mp h
  refine ⟨?_, ?_, ?_⟩
  · have hblank : isBlank c = false := by
      simp only [isBlank, Bool.or_eq_false_iff, Bool.and_eq_false_iff, decide_eq_false_iff_not,
        beq_eq_false_iff_ne]
      omega
    have hsum : 48 + (c.toNat - 48) = c.toNat := by omega
    simp only [plainChar, hblank, digitValue?_of_isDigit h, hsum, Char.ofNat_toNat]
    rfl
  · rintro rfl
    exact absurd h (by decide)
  · rintro rfl
    exact absurd h (by decide)

theorem dropUnderscores?_of_not {previous : Char} {cs : List Char} (hprevious : previous ≠ '_')
    (h : ∀ c ∈ cs, c ≠ '_') : dropUnderscores? previous cs = some cs := by
  induction cs generalizing previous with
  | nil => simp [dropUnderscores?, hprevious]
  | cons c cs ih =>
      have hc := h c (by simp)
      simp [dropUnderscores?, hc, hprevious, ih hc fun d hd => h d (by simp [hd])]

/-- Plain characters are read as they stand. -/
theorem cleaned_of_plain {cs : List Char} (h : ∀ c ∈ cs, Plain c) :
    dropUnderscores? ' ' (stripChars (· == ' ') (cs.map plainChar)) = some cs := by
  have hmap : cs.map plainChar = cs :=
    (List.map_congr_left fun c hc => (h c hc).1).trans (List.map_id cs)
  have hstrip : stripChars (· == ' ') cs = cs := by
    have hinner : stripChars (· == ' ') ([] ++ (cs ++ [])) = cs :=
      stripChars_append (by simp) (fun c hc => by simp [(h c hc).2.1]) (by simp)
    simpa using hinner
  rw [hmap, hstrip]
  exact dropUnderscores?_of_not (by decide) fun c hc => (h c hc).2.2

/-- A point with the digits after it, if there are any. -/
def fraction (places : List Char) : List Char := if places = [] then [] else '.' :: places

def layout (negative : Bool) (whole places ending : List Char) : List Char :=
  (if negative then ['-'] else []) ++ (whole ++ (fraction places ++ ending))

theorem head_of_exponent? {ending : List Char} {e : Int} (h : exponent? ending = some e) :
    ∀ c ∈ ending.head?, c.isDigit = false ∧ c ≠ '.' := by
  cases ending with
  | nil => simp
  | cons c cs =>
      rw [exponent?] at h
      split at h
      next hc =>
        simp only [Bool.or_eq_true, beq_iff_eq] at hc
        rintro d ⟨⟩
        obtain rfl | rfl := hc <;> decide
      next => cases h

theorem takeWhile_digits {digits rest : List Char} (hdigits : ∀ c ∈ digits, c.isDigit = true)
    (hrest : ∀ c ∈ rest.head?, c.isDigit = false) :
    (digits ++ rest).takeWhile Char.isDigit = digits ∧
      (digits ++ rest).dropWhile Char.isDigit = rest := by
  rw [List.takeWhile_append_of_pos hdigits, List.dropWhile_append_of_pos hdigits]
  cases rest with
  | nil => simp
  | cons c rest => simp [hrest c rfl]

theorem unsigned?_layout {whole places ending : List Char} {e : Int} (negative : Bool)
    (hne : whole ≠ []) (hwhole : ∀ c ∈ whole, c.isDigit = true)
    (hplaces : ∀ c ∈ places, c.isDigit = true) (hending : exponent? ending = some e) :
    unsigned? negative (whole ++ (fraction places ++ ending)) =
      some (.decimal negative (digitsValue (whole ++ places)) (e - places.length)) := by
  have hhead := head_of_exponent? hending
  by_cases hnone : places = []
  · subst hnone
    obtain ⟨htake, hdrop⟩ := takeWhile_digits hwhole fun c hc => (hhead c hc).1
    have hpoint : (ending.head? == some '.') = false := by
      rw [beq_eq_false_iff_ne]
      exact fun hc => (hhead '.' hc).2 rfl
    simp [unsigned?, fraction, htake, hdrop, hpoint, hne, hending]
  · have hpoint : fraction places ++ ending = '.' :: (places ++ ending) := by
      simp [fraction, hnone]
    have hmark : ∀ c ∈ ('.' :: (places ++ ending)).head?, c.isDigit = false := by simp
    obtain ⟨htake, hdrop⟩ := takeWhile_digits hwhole hmark
    obtain ⟨htake', hdrop'⟩ := takeWhile_digits hplaces fun c hc => (hhead c hc).1
    rw [hpoint]
    simp [unsigned?, htake, hdrop, htake', hdrop', hne, hending]

theorem plain_layout {negative : Bool} {whole places ending : List Char}
    (hwhole : ∀ c ∈ whole, c.isDigit = true) (hplaces : ∀ c ∈ places, c.isDigit = true)
    (hending : ∀ c ∈ ending, Plain c) : ∀ c ∈ layout negative whole places ending, Plain c := by
  have hminus : Plain '-' := by decide
  have hsign : ∀ c ∈ (if negative then ['-'] else []), Plain c := by
    cases negative <;> simp [hminus]
  have hfraction : ∀ c ∈ fraction places, Plain c := by
    rw [fraction]
    split
    · simp
    · exact List.forall_mem_cons.mpr ⟨by decide, fun c hc => plain_of_isDigit (hplaces c hc)⟩
  simp only [layout, List.mem_append]
  rintro c (hc | hc | hc | hc)
  · exact hsign c hc
  · exact plain_of_isDigit (hwhole c hc)
  · exact hfraction c hc
  · exact hending c hc

theorem splitSign_layout {negative : Bool} {whole places ending : List Char} (hne : whole ≠ [])
    (hwhole : ∀ c ∈ whole, c.isDigit = true) :
    splitSign (layout negative whole places ending) =
      (negative, whole ++ (fraction places ++ ending)) := by
  obtain ⟨c, whole, rfl⟩ := List.exists_cons_of_ne_nil hne
  have hdigit := hwhole c (by simp)
  cases negative with
  | true => rfl
  | false =>
      simp only [layout, Bool.false_eq_true, if_false, List.nil_append, List.cons_append]
      rw [splitSign.eq_def]
      split
      next hc => cases hc; exact absurd hdigit (by decide)
      next hc => cases hc; exact absurd hdigit (by decide)
      next => rfl

/-- What has a digit is not a word of letters, however it is written. -/
theorem map_toLower_ne {c : Char} {cs word : List Char} (hmem : c ∈ cs) (hc : c.isDigit = true)
    (hword : word.any Char.isDigit = false) : (cs.map Char.toLower == word) = false := by
  have hbounds : 48 ≤ c.toNat ∧ c.toNat ≤ 57 := Char.isDigit_iff_toNat.mp hc
  rw [beq_eq_false_iff_ne]
  rintro rfl
  have hlower := List.any_eq_false.mp hword _ (List.mem_map_of_mem hmem)
  rw [toLower_of_lt (by omega), hc] at hlower
  exact hlower rfl

/-- What is laid out as a number is read as that number. -/
theorem ofText?_layout {negative : Bool} {whole places ending : List Char} {e : Int}
    (hne : whole ≠ []) (hwhole : ∀ c ∈ whole, c.isDigit = true)
    (hplaces : ∀ c ∈ places, c.isDigit = true) (hending : exponent? ending = some e)
    (hplain : ∀ c ∈ ending, Plain c) :
    ofText? (String.ofList (layout negative whole places ending)) =
      some (.decimal negative (digitsValue (whole ++ places)) (e - places.length)) := by
  obtain ⟨c, hc⟩ := List.exists_mem_of_ne_nil whole hne
  have hword : ∀ word : List Char, word.any Char.isDigit = false →
      ((whole ++ (fraction places ++ ending)).map Char.toLower == word) = false := fun word =>
    map_toLower_ne (List.mem_append_left _ hc) (hwhole c hc)
  rw [ofText?, String.toList_ofList, cleaned_of_plain (plain_layout hwhole hplaces hplain)]
  simp only [Option.bind_eq_bind, Option.bind_some, splitSign_layout hne hwhole]
  rw [hword "inf".toList (by decide), hword "infinity".toList (by decide),
    hword "nan".toList (by decide)]
  exact unsigned?_layout negative hne hwhole hplaces hending

/-! ## What digits stand for -/

theorem digitsValue_eq (cs : List Char) : digitsValue cs = Nat.ofDigitChars 10 cs 0 := by
  simp only [digitsValue, Nat.ofDigitChars, Nat.mul_comm]
  rfl

/-- The digits of a number stand for that number. -/
theorem digitsValue_toDigits (n : Nat) : digitsValue (Nat.toDigits 10 n) = n := by
  rw [digitsValue_eq, Nat.ofDigitChars_ten_toDigits]

/-- Zeros in front of the digits stand for nothing. -/
theorem digitsValue_zeros_append (k : Nat) (cs : List Char) :
    digitsValue (List.replicate k '0' ++ cs) = digitsValue cs := by
  rw [digitsValue_eq, digitsValue_eq, Nat.ofDigitChars_append, Nat.ofDigitChars_replicate_zero,
    Nat.mul_zero]

/-- A number is below the power of ten that its places say. -/
theorem digitsValue_lt {cs : List Char} (h : ∀ c ∈ cs, c.isDigit = true) :
    digitsValue cs < 10 ^ cs.length := by
  induction cs with
  | nil => decide
  | cons c cs ih =>
      have hdigit : 48 ≤ c.toNat ∧ c.toNat ≤ 57 := Char.isDigit_iff_toNat.mp (h c (by simp))
      have hrest := ih fun d hd => h d (by simp [hd])
      have hzero : '0'.toNat = 48 := rfl
      rw [digitsValue_eq] at hrest
      rw [digitsValue_eq, Nat.ofDigitChars_cons, Nat.ofDigitChars_eq_ofDigitChars_zero,
        List.length_cons, Nat.pow_succ, Nat.mul_zero, Nat.zero_add, hzero]
      have hfirst : 10 ^ cs.length * (c.toNat - 48) ≤ 10 ^ cs.length * 9 :=
        Nat.mul_le_mul_left _ (by omega)
      omega

theorem isDigit_toDigits (n : Nat) : ∀ c ∈ Nat.toDigits 10 n, c.isDigit = true :=
  fun _ => Nat.isDigit_of_mem_toDigits (by decide) (by decide)

theorem isDigit_zeros (k : Nat) : ∀ c ∈ List.replicate k '0', c.isDigit = true := by
  intro c hc
  rw [List.eq_of_mem_replicate hc]
  decide

/-- An exponent is read as the number that its digits say. -/
theorem exponent?_of_digits {digits : List Char} (negative : Bool) (hne : digits ≠ [])
    (h : ∀ c ∈ digits, c.isDigit = true) :
    exponent? ('e' :: (if negative then '-' else '+') :: digits) =
      some (if negative then -(digitsValue digits : Int) else digitsValue digits) := by
  have hall : digits.all Char.isDigit = true := List.all_eq_true.mpr h
  cases negative <;> simp [exponent?, splitSign, hne, hall]

end Numeral

end Minima.Text
