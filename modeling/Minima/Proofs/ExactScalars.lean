import Minima.Proofs.Unimodality
import Minima.Proofs.ScalarOrder
import Minima.Scalar.Extended

/-!
# Exact scalars

Among exact scalars the reals are found again, with their order and their arithmetic; what else there is
lies below, above or beside all of them. So a search whose interval has real ends works at reals, however
undefined or infinite the values may be that it is answered, and what it computes there is what it
computes over the reals.
-/

namespace Minima

/-- Scalars among which the reals are found, with exact arithmetic. -/
class Scalar.Exact (R : Type) [Scalar R] extends Scalar.Ordered R where
  ofReal : ℝ → R
  ofReal_lt : ∀ {x y : ℝ}, ofReal x < ofReal y ↔ x < y
  ofReal_le : ∀ {x y : ℝ}, ofReal x ≤ ofReal y ↔ x ≤ y
  ofReal_beq : ∀ {x y : ℝ}, (ofReal x == ofReal y) = decide (x = y)
  real_between : ∀ {x y : ℝ} {a : R}, ofReal x < a → a < ofReal y → ∃ z, a = ofReal z
  literal : ∀ {m : Nat} {negative : Bool} {e : Nat},
    (OfScientific.ofScientific m negative e : R) = ofReal (OfScientific.ofScientific m negative e)
  add_ofReal : ∀ {x y : ℝ}, ofReal x + ofReal y = ofReal (x + y)
  sub_ofReal : ∀ {x y : ℝ}, ofReal x - ofReal y = ofReal (x - y)
  neg_ofReal : ∀ {x : ℝ}, -ofReal x = ofReal (-x)
  mul_ofReal : ∀ {x y : ℝ}, ofReal x * ofReal y = ofReal (x * y)
  div_ofReal : ∀ {x y : ℝ}, y ≠ 0 → ofReal x / ofReal y = ofReal (x / y)
  abs_ofReal : ∀ {x : ℝ}, Scalar.abs (ofReal x) = ofReal |x|
  sqrt_ofReal : ∀ {x : ℝ}, 0 ≤ x → Scalar.sqrt (ofReal x) = ofReal √x

/-! ## Reals -/

noncomputable instance : Scalar.Exact ℝ where
  ofReal x := x
  ofReal_lt := Iff.rfl
  ofReal_le := Iff.rfl
  ofReal_beq := rfl
  real_between _ _ := ⟨_, rfl⟩
  literal := rfl
  add_ofReal := rfl
  sub_ofReal := rfl
  neg_ofReal := rfl
  mul_ofReal := rfl
  div_ofReal _ := rfl
  abs_ofReal := rfl
  sqrt_ofReal _ := rfl

/-! ## Reals with infinities -/

namespace Extended

variable {a b : Extended}

theorem rank_injective (ha : a.isNaN = false) (hb : b.isNaN = false) (h : a.rank = b.rank) :
    a = b := by
  rcases a with _ | (_ | _) | x <;> rcases b with _ | (_ | _) | y <;>
    simp_all [isNaN, rank]

theorem beq_iff : (a == b) = true ↔ a = b ∧ a.isNaN = false := by
  show (!a.isNaN && !b.isNaN && decide (a.rank = b.rank)) = true ↔ _
  simp only [Bool.and_eq_true, Bool.not_eq_true', decide_eq_true_eq]
  constructor
  · rintro ⟨⟨ha, hb⟩, h⟩
    exact ⟨rank_injective ha hb h, ha⟩
  · rintro ⟨rfl, ha⟩
    exact ⟨⟨ha, ha⟩, rfl⟩

theorem number_lt {x y : ℝ} : (x : Extended) < y ↔ x < y := by
  show false = false ∧ false = false ∧ (x : EReal) < y ↔ x < y
  simp

theorem number_le {x y : ℝ} : (x : Extended) ≤ y ↔ x ≤ y := by
  show false = false ∧ false = false ∧ (x : EReal) ≤ y ↔ x ≤ y
  simp

end Extended

open Extended in
noncomputable instance : Scalar.Lawful Extended where
  beq_symm h := by
    obtain ⟨rfl, ha⟩ := beq_iff.mp h
    exact beq_iff.mpr ⟨rfl, ha⟩
  beq_trans h h' := by
    obtain ⟨rfl, -⟩ := beq_iff.mp h
    exact h'
  le_of_lt h := ⟨h.1, h.2.1, h.2.2.le⟩
  le_of_not_lt ha hb h := ⟨hb, ha, not_lt.mp fun hless => h ⟨ha, hb, hless⟩⟩
  defined_of_finite := by
    rintro (_ | _ | _) h
    · cases h
    · cases h
    · rfl
  add_congr := by
    rintro a b (_ | _ | c) hc h
    · cases hc
    · cases hc
    · obtain ⟨rfl, ha⟩ := beq_iff.mp h
      refine beq_iff.mpr ⟨rfl, ?_⟩
      cases a with
      | undefined => cases ha
      | infinite s => rfl
      | number x => rfl
  sub_congr := by
    rintro a b (_ | _ | c) hc h
    · cases hc
    · cases hc
    · obtain ⟨rfl, ha⟩ := beq_iff.mp h
      refine beq_iff.mpr ⟨rfl, ?_⟩
      cases a with
      | undefined => cases ha
      | infinite s => rfl
      | number x => rfl
  finite_zero := rfl
  finite_gradientStep := rfl
  finite_ahead := rfl
  finite_beside := rfl

instance : Scalar.Ordered Extended where
  defined_of_le h := ⟨h.1, h.2.1⟩
  le_trans h h' := ⟨h.1, h'.2.1, h.2.2.trans h'.2.2⟩
  not_le_of_lt h h' := h.2.2.not_ge h'.2.2
  beq_self h := Extended.beq_iff.mpr ⟨rfl, h⟩

noncomputable instance : Scalar.Exact Extended where
  ofReal := Extended.number
  ofReal_lt := Extended.number_lt
  ofReal_le := Extended.number_le
  ofReal_beq {x y} := by
    rw [Bool.eq_iff_iff, Extended.beq_iff, decide_eq_true_iff, Extended.number.injEq]
    exact and_iff_left rfl
  real_between {x y a} hlow hhigh := by
    rcases a with _ | (_ | _) | z
    · cases hlow.2.1
    · exact absurd hhigh.2.2 not_top_lt
    · exact absurd hlow.2.2 not_lt_bot
    · exact ⟨z, rfl⟩
  literal := rfl
  add_ofReal := rfl
  sub_ofReal {x y} := congrArg Extended.number (sub_eq_add_neg x y).symm
  neg_ofReal := rfl
  mul_ofReal := rfl
  div_ofReal h := if_pos h
  abs_ofReal := rfl
  sqrt_ofReal h := if_neg (not_lt.mpr h)

/-! ## Sources of answers -/

namespace Scalar.Exact

variable {R : Type} [Scalar R] [Exact R]

/-- The source answers with the values of the function wherever it is asked at a real. -/
def Answers (answer : R → Attempt R R) (phi : ℝ → R) : Prop :=
  ∀ x, answer (ofReal x) = .ok (phi x)

theorem lesser_ofReal (x y : ℝ) : lesser (ofReal x : R) (ofReal y) = ofReal (lesser x y) := by
  simp only [lesser, ofReal_lt, apply_ite (ofReal : ℝ → R)]

theorem greater_ofReal (x y : ℝ) : greater (ofReal x : R) (ofReal y) = ofReal (greater x y) := by
  simp only [greater, ofReal_lt, apply_ite (ofReal : ℝ → R)]

end Scalar.Exact

theorem LineSearch.answers_answering (phi : ℝ → ℝ) :
    Scalar.Exact.Answers (LineSearch.answering phi) phi := fun _ => rfl

/-- The function as a source of answers. Beside the numbers it is undefined. -/
def Extended.graph (phi : ℝ → Extended) : Extended → Attempt Extended Extended
  | number x => .ok (phi x)
  | infinite _ | undefined => .ok undefined

theorem Extended.answers_graph (phi : ℝ → Extended) : Scalar.Exact.Answers (graph phi) phi :=
  fun _ => rfl

/-! ## Intervals with real ends -/

namespace LineSearch

open Scalar Scalar.Exact

variable {R : Type} [Scalar R] [Exact R]

def Span.ofReal (s : Span ℝ) : Span R := ⟨Exact.ofReal s.left, Exact.ofReal s.right⟩

namespace Span

variable (s : Span ℝ)

theorem width_ofReal : (ofReal s : Span R).width = Exact.ofReal s.width := sub_ofReal

theorem middle_ofReal : (ofReal s : Span R).middle = Exact.ofReal s.middle := by
  simp only [middle, ofReal, literal (R := R), add_ofReal, mul_ofReal]

theorem confine_ofReal (x : ℝ) :
    (ofReal s : Span R).confine (Exact.ofReal x) = Exact.ofReal (s.confine x) := by
  simp only [confine, ofReal, greater_ofReal, lesser_ofReal]

theorem between_ofReal (x y : ℝ) :
    between (Exact.ofReal x : R) (Exact.ofReal y) = ofReal (between x y) := by
  simp only [between, ofReal_lt]
  split <;> rfl

end Span

theorem golden_ofReal : (golden : R) = Exact.ofReal golden := by
  have hroot : (0 : ℝ) ≤ 5.0 := by norm_num
  have htwo : (2.0 : ℝ) ≠ 0 := by norm_num
  simp only [golden, literal (R := R), sqrt_ofReal hroot, sub_ofReal, div_ofReal htwo]
  rfl

theorem goldenSquare_ofReal : (goldenSquare : R) = Exact.ofReal goldenSquare := by
  have hroot : (0 : ℝ) ≤ 5.0 := by norm_num
  have htwo : (2.0 : ℝ) ≠ 0 := by norm_num
  simp only [goldenSquare, literal (R := R), sqrt_ofReal hroot, sub_ofReal, div_ofReal htwo]
  rfl

theorem innerLeft_ofReal (s : Span ℝ) :
    innerLeft (Span.ofReal s : Span R) = Exact.ofReal (innerLeft s) := by
  rw [innerLeft, goldenSquare_ofReal, Span.width_ofReal, mul_ofReal]
  exact add_ofReal

theorem innerRight_ofReal (s : Span ℝ) :
    innerRight (Span.ofReal s : Span R) = Exact.ofReal (innerRight s) := by
  rw [innerRight, golden_ofReal, Span.width_ofReal, mul_ofReal]
  exact add_ofReal

end LineSearch

end Minima
