import Minima.Proofs.DampingLadder
import Minima.Proofs.SearchBudgets
import Minima.Scalar.Double
import Minima.Scalar.Real
import Mathlib.Tactic.NormNum
import Mathlib.Tactic.Positivity

/-!
# Steps end

A step asks for no more than its search does, for one value and one gradient where it lands, and for
two values and another one for each variable where there is no search. A method that counts its steps
reports the last one that it may make. The ladder of dampings ends when a damping is beyond the
limit, however many of the damped matrices are refused; with the defaults that takes a dozen rungs,
over the reals as over the doubles.
-/

namespace Minima

open Dialogue Attempt

variable {R : Type} [Scalar R] {n : Nat} {s : Situation R n} {turns : Nat}

theorem Iterate.start_halts (x : Vector R n) : (Iterate.start x).Halts 2 :=
  within_question_bind fun _ => within_question_bind fun _ => within_pure trivial

/-! ## Steps along a line -/

namespace LineStep

/-- The options that limit the turns of a search: of one that backtracks, and of the others. -/
def limitKeys : List String := ["max_backtracking", "line_search_max_iter"]

/-- The limits of the searches are positive, and no greater than `turns`. -/
def Limited (turns : Nat) (options : Options R) : Prop :=
  ∀ key ∈ limitKeys, ∀ limit, options.whole key = .ok limit → 0 < limit ∧ limit ≤ turns

theorem backtrackingOptions_halts (options : Options R) (it : Iterate R n) (p : Vector R n) :
    (backtrackingOptions options it p).Halts := by
  refine halts_bind (options.get_halts _) fun alpha0 => ?_
  refine halts_bind (options.get_halts _) fun tau => ?_
  refine halts_bind (options.get_halts _) fun c1 => ?_
  refine halts_bind (options.get_halts _) fun tries => ?_
  exact halts_bind (options.get_halts _) fun least => halts_pure _

theorem searchAlong_halts (h : Limited turns s.options) (it : Iterate R n) (p : Vector R n) :
    (searchAlong s it p).Halts (3 * turns + 7) := by
  have hinline {request : LineSearch.Request R} (hlimit : 0 < request.limit ∧ request.limit ≤ turns)
      (options : Options R) :
      ((LineSearch.search request options).inline fun alpha =>
        Consult.value (along s.region it.point p alpha)).Halts (3 * turns + 7) := by
    have hsearch := (LineSearch.search_halts request hlimit.1 options).weaken
      (show 3 * request.limit.toNat + 7 ≤ 3 * turns + 7 by omega)
    exact within_inline hsearch fun alpha => within_question_bind fun _ => within_pure trivial
  have hname : (searchName s.options).Halts := by
    refine halts_bind (s.options.get_halts _) fun given => ?_
    cases given with
    | text name => exact halts_pure name
    | _ => exact halts_throw nofun
  refine within_lift_bind (fun name _ => ?_) hname
  refine within_ite (fun _ => ?_) fun _ => ?_
  · refine within_lift_bind (fun given _ => ?_) (backtrackingOptions_halts s.options it p)
    refine within_lift_bind (fun limit hlimit => ?_) (s.options.whole_halts _)
    refine within_lift_bind (fun right _ => ?_) (s.options.real_halts _)
    refine within_lift_bind (fun tol _ => ?_) (s.options.real_halts _)
    exact hinline (h "max_backtracking" (by simp [limitKeys]) limit hlimit) given
  · refine within_lift_bind (fun limit hlimit => ?_) (s.options.whole_halts _)
    refine within_lift_bind (fun right _ => ?_) (s.options.real_halts _)
    refine within_lift_bind (fun tol _ => ?_) (s.options.real_halts _)
    exact hinline (h "line_search_max_iter" (by simp [limitKeys]) limit hlimit) _

theorem stagnates_halts (options : Options R) (it : Iterate R n) (x : Vector R n) (value : R) :
    (stagnates options it x value).Halts := by
  refine halts_bind (options.real_halts _) fun stepTol => ?_
  exact halts_bind (options.real_halts _) fun valueTol => halts_pure _

theorem descend_halts (h : Limited turns s.options) (it : Iterate R n) (p : Vector R n) :
    (descend s it p).Halts (3 * turns + 9) := by
  have hlength : (liftM (s.options.real "fallback_alpha") : Consult R n R).Halts 0 :=
    within_lift (fun _ _ => trivial) (s.options.real_halts _)
  refine within_bind (l := 2) (searchAlong_halts h it p) (fun outcome _ => ?_) (by omega)
  refine within_join (l := 2) (within_pure trivial) hlength (fun alpha _ => ?_) (by omega)
  refine within_question_bind fun value => ?_
  refine within_ite (fun _ => within_pure trivial) fun _ => ?_
  refine within_ite (fun _ => within_pure trivial) fun _ => ?_
  refine within_lift_bind (fun stalled _ => ?_) (stagnates_halts s.options it _ value)
  exact within_question_bind fun gradient => within_pure trivial

end LineStep

namespace SteepestDescent

theorem step_halts (h : LineStep.Limited turns s.options) (it : Iterate R n) :
    (step s it).Halts (3 * turns + 9) :=
  within_bind (LineStep.descend_halts h it (-it.gradient)) (fun _ _ => within_pure trivial)
    (Nat.le_of_eq (Nat.add_zero _))

end SteepestDescent

namespace ConjugateGradient

theorem factor_halts (options : Options R) (new old : Vector R n) :
    (factor options new old).Halts := by
  refine halts_ite (fun _ => halts_pure _) fun _ => ?_
  refine halts_bind (options.get_halts _) fun formula => ?_
  exact halts_ite (fun _ => halts_pure _) fun _ => halts_pure _

theorem step_halts (h : LineStep.Limited turns s.options) (count : Nat) (st : State R n) :
    (step s count st).Halts (3 * turns + 9) := by
  refine within_bind (LineStep.descend_halts h st.iterate (downhill st)) ?_
    (Nat.le_of_eq (Nat.add_zero _))
  rintro ⟨_ | next, status⟩ -
  · exact within_pure trivial
  · have hperiod : (period s.options n).Halts :=
      halts_bind (s.options.whole_halts _) fun given => halts_pure _
    have hfactor := factor_halts s.options next.gradient st.iterate.gradient
    refine within_lift_bind (fun every _ => ?_) hperiod
    exact within_join (k := 0) (l := 0) (within_pure trivial) (within_lift (fun _ _ => trivial) hfactor)
      (fun beta _ => within_pure trivial) (Nat.le_refl 0)

end ConjugateGradient

namespace QuasiNewton

theorem step_halts (h : LineStep.Limited turns s.options) (count : Nat) (st : State R n) :
    (step s count st).Halts (3 * turns + 9) := by
  refine within_bind (LineStep.descend_halts h st.iterate (direction st).1) ?_
    (Nat.le_of_eq (Nat.add_zero _))
  rintro ⟨_ | next, status⟩ -
  · exact within_pure trivial
  · refine within_lift_bind (fun eps _ => ?_) (s.options.real_halts _)
    refine within_join (k := 0) (l := 0) (within_lift (fun _ _ => trivial) fun e he => ?_)
      (within_pure trivial) (fun inverse _ => within_pure trivial) (Nat.le_refl 0)
    exact Failure.uncut_of_numerical (numerical_of_correction he)

end QuasiNewton

/-! ## The ladder of dampings -/

namespace Newton

open Linear

/-- A damping beyond the limit is reached before the ladder is cut off. -/
def LadderEnds (options : Options R) : Prop :=
  ∀ first scale, options.real "reg_lambda" = .ok first → options.real "max_reg_scale" = .ok scale →
    ∃ rungs ≤ Scalar.decades scale + 2, ¬ (raised first)^[rungs] 0.0 ≤ first * scale

/-- A damping beyond the default limit is reached before the ladder is cut off. -/
class Climbs (R : Type) [Scalar R] : Prop where
  passes : ∃ rungs ≤ Scalar.decades (1e10 : R) + 2,
    ¬ (raised (1e-6 : R))^[rungs] 0.0 ≤ (1e-6 : R) * 1e10

instance : Climbs Float where
  passes := ⟨12, by decide, by decide +kernel⟩

theorem iterate_raised_real {first x : ℝ} (hx : 0 < x) (rungs : Nat) :
    (raised first)^[rungs] x = x * 10 ^ rungs := by
  induction rungs generalizing x with
  | zero => simp
  | succ rungs ih =>
      have hraised : raised first x = x * 10 := by
        have hzero : ¬ (x == (0.0 : ℝ)) = true := by
          rw [RealScalar.beq_iff]
          norm_num
          exact hx.ne'
        rw [raised, if_neg hzero]
        norm_num
      rw [Function.iterate_succ_apply, hraised, ih (by positivity)]
      ring

instance : Climbs ℝ where
  passes := by
    refine ⟨12, ?_, ?_⟩
    · have hten : (10 : ℝ) ≤ ⌈(1e10 : ℝ)⌉₊ := le_trans (by norm_num) (Nat.le_ceil (1e10 : ℝ))
      have hceil : 10 ≤ Scalar.decades (1e10 : ℝ) := by exact_mod_cast hten
      omega
    · have hfirst : raised (1e-6 : ℝ) 0.0 = 1e-6 := if_pos ((RealScalar.beq_iff _ _).mpr rfl)
      rw [Function.iterate_succ_apply, hfirst, iterate_raised_real (by norm_num)]
      norm_num

theorem ladder_halts (h : Square R n) (g : Vector R n) {first limit : R} {fuel rungs : Nat}
    {damping : R} (hrungs : rungs ≤ fuel) (hpast : ¬ (raised first)^[rungs] damping ≤ limit) :
    (ladder h g first limit fuel damping).Halts := by
  intro e he
  rcases ladder_eq_error he with hnumerical | rfl
  · exact Failure.uncut_of_numerical hnumerical
  · exact absurd (ladder_eq_cutOff_iff.mp he rungs hrungs).within hpast

theorem direction_halts {options : Options R} (hends : LadderEnds options) (g : Vector R n)
    (h : Square R n) : (direction options g h).Halts := by
  intro e he
  rcases bind_eq_error.mp he with he | ⟨first, hfirst, he⟩
  · exact options.real_halts _ e he
  rcases bind_eq_error.mp he with he | ⟨scale, hscale, he⟩
  · exact options.real_halts _ e he
  obtain ⟨rungs, hrungs, hpast⟩ := hends first scale hfirst hscale
  exact ladder_halts _ g hrungs hpast e he

theorem step_halts (h : LineStep.Limited turns s.options) (hends : LadderEnds s.options)
    (st : State R n) : (step s st).Halts (3 * turns + 10) := by
  refine within_question_bind fun hessian => ?_
  refine within_lift_bind (fun found _ => ?_) (direction_halts hends _ hessian)
  refine within_bind (LineStep.descend_halts h st.iterate _) ?_ (Nat.le_of_eq (Nat.add_zero _))
  rintro ⟨_ | next, status⟩ -
  · exact within_pure trivial
  · exact within_pure trivial

end Newton

/-! ## Methods that count their steps -/

namespace GradientDescent

theorem judge_halts (options : Options R) (count : Nat) (old new : Iterate R n) :
    (judge options count old new).Halts := by
  refine halts_bind (options.real_halts _) fun tol => ?_
  refine halts_ite (fun _ => halts_pure _) fun _ => ?_
  refine halts_ite (fun _ => halts_pure _) fun _ => ?_
  refine halts_bind (options.whole_halts _) fun limit => ?_
  exact halts_ite (fun _ => halts_pure _) fun _ => halts_pure _

theorem lt_limit_of_judge {options : Options R} {count : Nat} {old new : Iterate R n} {limit : Int}
    (hlimit : options.whole "max_iter" = .ok limit)
    (h : judge options count old new = .ok .running) : ((count + 1 : Nat) : Int) < limit := by
  obtain ⟨tol, -, h⟩ := bind_eq_ok.mp h
  by_cases hshort : Linear.norm new.gradient < tol
  · rw [if_pos hshort] at h
    cases h
  rw [if_neg hshort] at h
  by_cases hstuck : ¬ new.value < old.value ∧ Scalar.isFinite new.value
  · rw [if_pos hstuck] at h
    cases h
  rw [if_neg hstuck, hlimit, ok_bind] at h
  by_cases hcount : limit ≤ (count + 1 : Nat)
  · rw [if_pos hcount] at h
    cases h
  · omega

theorem step_within {limit : Int} (hlimit : s.options.whole "max_iter" = .ok limit) (count : Nat)
    (it : Iterate R n) :
    (step s count it).Within (fun r => r.2 = .running → ((count + 1 : Nat) : Int) < limit)
      Failure.Uncut 2 := by
  refine within_lift_bind (fun h _ => ?_) (s.options.real_halts _)
  refine within_question_bind fun value => within_question_bind fun gradient => ?_
  refine within_lift_bind (fun status hstatus => within_pure fun hrun => ?_)
    (judge_halts s.options count it _)
  dsimp only at hrun
  subst hrun
  exact lt_limit_of_judge hlimit hstatus

end GradientDescent

namespace HookeJeeves

theorem baseAt_halts (s : Situation R n) (x : Vector R n) : (baseAt s x).Halts 1 :=
  within_question_bind fun _ => within_pure trivial

theorem exploreAxis_halts (s : Situation R n) (h : R) (b : Base R n) (i : Fin n) :
    (exploreAxis s h b i).Halts 2 := by
  refine within_bind (l := 1) (baseAt_halts s _) (fun ahead _ => ?_) (by omega)
  refine within_ite (fun _ => within_pure trivial) fun _ => ?_
  exact within_bind (baseAt_halts s _) (fun behind _ => within_pure trivial)
    (Nat.le_of_eq (Nat.add_zero 1))

theorem explore_halts (s : Situation R n) (h : R) (b : Base R n) : (explore s h b).Halts (2 * n) :=
  (within_foldlM (exploreAxis_halts s h) (List.finRange n) b).weaken (by
    rw [List.length_finRange]
    omega)

theorem move_halts (s : Situation R n) (st : State R n) : (move s st).Halts (2 * n + 1) := by
  refine within_bind (l := 1) (explore_halts s st.stepSize st.base) (fun explored _ => ?_)
    (by omega)
  refine within_ite (fun _ => ?_) fun _ => ?_
  · refine within_bind (baseAt_halts s _) (fun further _ => ?_) (Nat.le_of_eq (Nat.add_zero 1))
    exact within_ite (fun _ => within_pure trivial) fun _ => within_pure trivial
  · exact within_lift_bind (fun reduction _ => within_pure trivial) (s.options.real_halts _)

theorem step_within {limit : Int} (hlimit : s.options.whole "max_iter" = .ok limit) (count : Nat)
    (st : State R n) :
    (step s count st).Within (fun r => r.2 = .running → ((count + 1 : Nat) : Int) < limit)
      Failure.Uncut (2 * n + 1) := by
  refine within_bind (move_halts s st) (fun next _ => ?_) (Nat.le_of_eq (Nat.add_zero _))
  refine within_lift_bind (fun least _ => ?_) (s.options.real_halts _)
  refine within_ite (fun _ => within_pure nofun) fun _ => ?_
  refine within_lift_bind (fun given hgiven => ?_) (s.options.whole_halts _)
  obtain rfl : limit = given := Except.ok.inj (hlimit.symm.trans hgiven)
  refine within_ite (fun _ => within_pure nofun) fun hcount => within_pure fun _ => ?_
  omega

end HookeJeeves

/-! ## The simplex method -/

namespace NelderMead

theorem factor_halts (options : Options R) (key : String) : (factor options key).Halts := by
  refine halts_bind (options.get_halts key) fun given => ?_
  cases given with
  | text text => exact halts_throw nofun
  | _ => exact Setting.toReal_halts _

theorem vertexAt_halts (s : Situation R n) (x : Vector R n) : (vertexAt s x).Halts 1 :=
  within_question_bind fun _ => within_pure trivial

theorem start_halts (s : Situation R n) (x : Vector R n) : (start s x).Halts (n + 1) := by
  refine within_lift_bind (fun scale _ => ?_) (s.options.real_halts _)
  refine within_question_bind fun value => ?_
  exact within_bind (l := 0) (within_ofFnM fun i => vertexAt_halts s (corner scale x i))
    (fun rest _ => within_pure trivial) (by omega)

theorem shrink_halts (s : Situation R n) (simplex : Simplex R n) : (shrink s simplex).Halts n := by
  refine within_bind (l := 0) (within_ofFnM (k := 1) fun i => ?_) (fun rest _ => within_pure trivial)
    (by omega)
  exact within_lift_bind (fun sigma _ => vertexAt_halts s _) (factor_halts s.options "sigma")

theorem move_halts (s : Situation R n) (simplex : Simplex R n) :
    (move s simplex).Halts (n + 2) := by
  refine within_lift_bind (fun alpha _ => ?_) (factor_halts s.options "alpha")
  refine within_bind (l := n + 1) (vertexAt_halts s _) (fun reflected _ => ?_) (by omega)
  refine within_ite (fun _ => within_pure trivial) fun _ => ?_
  refine within_ite (fun _ => ?_) fun _ => ?_
  · refine within_lift_bind (fun gamma _ => ?_) (factor_halts s.options "gamma")
    refine within_bind (l := n) (vertexAt_halts s _) (fun expanded _ => ?_) (by omega)
    exact within_ite (fun _ => within_pure trivial) fun _ => within_pure trivial
  · refine within_lift_bind (fun rho _ => ?_) (factor_halts s.options "rho")
    refine within_bind (l := n) (vertexAt_halts s _) (fun contracted _ => ?_) (by omega)
    refine within_ite (fun _ => within_pure trivial) fun _ => ?_
    exact within_bind (shrink_halts s simplex) (fun _ _ => within_pure trivial)
      (Nat.le_of_eq (Nat.add_zero n))

theorem step_halts (s : Situation R n) (st : State R n) : (step s st).Halts (n + 2) := by
  refine within_bind (move_halts s st.simplex) (fun moved _ => ?_) (Nat.le_of_eq (Nat.add_zero _))
  exact within_lift_bind (fun least _ => within_pure trivial) (s.options.real_halts _)

end NelderMead

end Minima
