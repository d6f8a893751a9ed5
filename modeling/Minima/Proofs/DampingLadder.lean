import Minima.Proofs.MethodSteps
import Mathlib.Data.Nat.Find
import Mathlib.Logic.Function.Iterate

/-!
# The ladder of dampings

A rung of the ladder is refused if it lies within the limit and the damped matrix has no Cholesky
factor. The ladder ends on the first rung that is not refused: without a direction if the rung lies
beyond the limit, and otherwise with the solution for the factor that was found there. It is cut off
exactly if all the rungs that it may climb are refused.
-/

namespace Minima.Newton

open Linear

variable {R : Type} [Scalar R] {n : Nat} {h : Square R n} {g : Vector R n} {options : Options R}
  {first scale limit damping : R} {fuel k : Nat}

def raised (first damping : R) : R := if damping == 0.0 then first else damping * 10.0

/-- The dampings in the order in which they are looked at. -/
def rung (first : R) (k : Nat) : R := (raised first)^[k] 0.0

def damped (h : Square R n) (damping : R) : Square R n :=
  h.add (Square.scale damping (Square.identity n))

def symmetrized (h : Square R n) : Square R n := Square.scale (0.5 : R) (h.add h.transpose)

structure Refused (h : Square R n) (limit damping : R) : Prop where
  within : damping ≤ limit
  indefinite : cholesky? n (damped h damping) = none

/-! ## Single rungs -/

theorem ladder_past (hlimit : ¬ damping ≤ limit) :
    ladder h g first limit fuel damping = .ok (none, damping) := by
  unfold ladder
  exact if_pos hlimit

theorem ladder_found {l : Square R n} (hlimit : damping ≤ limit)
    (hl : cholesky? n (damped h damping) = some l) :
    ladder h g first limit fuel damping =
      solveFactored l (-g) >>= fun p => pure (some p, damping) := by
  unfold ladder
  rw [if_neg (not_not.mpr hlimit)]
  rw [damped] at hl
  rw [hl]

theorem ladder_refused_zero (hrefused : Refused h limit damping) :
    ladder h g first limit 0 damping = .error .cutOff := by
  have hnone := hrefused.indefinite
  rw [damped] at hnone
  rw [ladder, if_neg (not_not.mpr hrefused.within), hnone]
  rfl

theorem ladder_refused_succ (hrefused : Refused h limit damping) :
    ladder h g first limit (fuel + 1) damping =
      ladder h g first limit fuel (raised first damping) := by
  have hnone := hrefused.indefinite
  rw [damped] at hnone
  rw [ladder, if_neg (not_not.mpr hrefused.within), hnone, raised]

/-! ## Climbing -/

/-- Refused rungs are passed. -/
theorem ladder_climb (hrefused : ∀ j < k, Refused h limit ((raised first)^[j] damping))
    (fuel : Nat) :
    ladder h g first limit (fuel + k) damping =
      ladder h g first limit fuel ((raised first)^[k] damping) := by
  -- on the number of refused rungs, the first of which is the one that the ladder is on
  induction k generalizing damping with
  | zero => rfl
  | succ k ih =>
      have hnow : Refused h limit damping := hrefused 0 (Nat.succ_pos k)
      have hlater : ∀ j < k, Refused h limit ((raised first)^[j] (raised first damping)) := by
        intro j hj
        have hnext := hrefused (j + 1) (Nat.succ_lt_succ hj)
        rwa [Function.iterate_succ_apply] at hnext
      rw [← Nat.add_assoc, ladder_refused_succ hnow, ih hlater, Function.iterate_succ_apply]

/-- On a rung that is not refused the ladder is not cut off. -/
theorem ladder_ne_cutOff (hlands : ¬ Refused h limit damping) :
    ladder h g first limit fuel damping ≠ .error .cutOff := by
  intro hcut
  by_cases hlimit : damping ≤ limit
  · cases hl : cholesky? n (damped h damping) with
    | none => exact hlands ⟨hlimit, hl⟩
    | some l =>
        rw [ladder_found hlimit hl] at hcut
        obtain hcut | ⟨p, -, hcut⟩ := Attempt.bind_eq_error.mp hcut
        · exact nomatch numerical_of_solveFactored hcut
        · cases hcut
  · rw [ladder_past hlimit] at hcut
    cases hcut

/-- If some rung is not refused, the ladder comes to the first such rung. -/
theorem ladder_lands (hends : ∃ k ≤ fuel, ¬ Refused h limit ((raised first)^[k] damping)) :
    ∃ k, ¬ Refused h limit ((raised first)^[k] damping) ∧
      (∀ j < k, Refused h limit ((raised first)^[j] damping)) ∧
      ladder h g first limit fuel damping =
        ladder h g first limit (fuel - k) ((raised first)^[k] damping) := by
  classical
  obtain ⟨k, hk, hlands⟩ := hends
  have hexists : ∃ k, ¬ Refused h limit ((raised first)^[k] damping) := ⟨k, hlands⟩
  have hbefore : ∀ j < Nat.find hexists, Refused h limit ((raised first)^[j] damping) :=
    fun j hj => not_not.mp (Nat.find_min hexists hj)
  have hle : Nat.find hexists ≤ fuel := Nat.le_trans (Nat.find_min' hexists hlands) hk
  refine ⟨Nat.find hexists, Nat.find_spec hexists, hbefore, ?_⟩
  rw [← ladder_climb hbefore, Nat.sub_add_cancel hle]

/-- The ladder is cut off exactly if all the rungs that it may climb are refused. -/
theorem ladder_eq_cutOff_iff :
    ladder h g first limit fuel damping = .error .cutOff ↔
      ∀ k ≤ fuel, Refused h limit ((raised first)^[k] damping) := by
  constructor
  · -- a rung that is not refused would have ended the ladder in another way
    intro hcut
    by_contra hnot
    push Not at hnot
    obtain ⟨k, hlands, -, hladder⟩ := ladder_lands (g := g) hnot
    exact ladder_ne_cutOff hlands (hladder.symm.trans hcut)
  · intro hrefused
    have hclimb := ladder_climb (g := g) (fun j hj => hrefused j (Nat.le_of_lt hj)) 0
    rw [Nat.zero_add] at hclimb
    rw [hclimb]
    exact ladder_refused_zero (hrefused fuel (Nat.le_refl fuel))

/-! ## Directions -/

theorem direction_eq_ladder (hfirst : options.real "reg_lambda" = .ok first)
    (hscale : options.real "max_reg_scale" = .ok scale) (g : Vector R n) (h : Square R n) :
    direction options g h =
      ladder (symmetrized h) g first (first * scale) (Scalar.decades scale + 2) 0.0 := by
  rw [direction, hfirst, Attempt.ok_bind, hscale, Attempt.ok_bind, symmetrized]

end Minima.Newton
