import Minima.Offer
import Minima.Proofs.Acceptance

/-!
# What the methods check

Every method checks its options once, before a run. For each of them there is one equivalence: the
check passes exactly if the options are as it asks. What it does not ask stays unchecked.
-/

namespace Minima

variable {R : Type} [Scalar R] {options : Options R} {owner : String}

namespace LineStep

/-- Options for which the checks of a line search pass. The other options of the search and of the
test for stagnation are not looked at. -/
structure Checked (options : Options R) : Prop where
  search : ∃ name, options.get "line_search" = .ok (.text name) ∧ isSearchName name = true
  positive : ∀ key ∈ ["alpha0", "line_search_max_step", "fallback_alpha", "line_search_tol"],
    options.InRange .positive key
  tau : options.InRange .betweenZeroAndOne "tau"

def checkedKeys : List String :=
  ["line_search", "alpha0", "line_search_max_step", "fallback_alpha", "line_search_tol", "tau"]

/-- The checks do not see options with other names. -/
theorem Checked.update (h : Checked options) {more : Options R}
    (hmore : ∀ key ∈ checkedKeys, key ∉ more.keys) : Checked (options.update more) := by
  have hrange : ∀ {range : OptionRange}, ∀ key ∈ checkedKeys, options.InRange range key →
      (options.update more).InRange range key := by
    rintro range key hkey ⟨x, hx, hcovers⟩
    refine ⟨x, ?_, hcovers⟩
    rw [Options.real, Options.get_update_of_not_mem (hmore key hkey)]
    exact hx
  obtain ⟨name, hname, hsearch⟩ := h.search
  refine ⟨⟨name, ?_, hsearch⟩, fun key hkey => ?_, hrange "tau" (by decide) h.tau⟩
  · rw [Options.get_update_of_not_mem (hmore "line_search" (by decide))]
    exact hname
  · refine hrange key ?_ (h.positive key hkey)
    simp only [List.mem_cons, List.not_mem_nil, or_false] at hkey
    rcases hkey with rfl | rfl | rfl | rfl <;> decide

theorem validate_eq_ok_iff : validate owner options = .ok () ↔ Checked options := by
  have hrest : (do
      for key in ["alpha0", "line_search_max_step", "fallback_alpha", "line_search_tol"] do
        options.require owner key .positive
      options.require owner "tau" .betweenZeroAndOne) = .ok () ↔
      (∀ key ∈ ["alpha0", "line_search_max_step", "fallback_alpha", "line_search_tol"],
        options.InRange .positive key) ∧ options.InRange .betweenZeroAndOne "tau" := by
    rw [Attempt.check_eq_ok, Options.requireAll_eq_ok_iff, Options.require_eq_ok_iff]
  rw [validate, Attempt.bind_eq_ok]
  constructor
  · rintro ⟨given, hgiven, h⟩
    cases given with
    | text name =>
        by_cases hname : isSearchName name = true
        · simp only [hname, Bool.not_true, Bool.false_eq_true, if_false] at h
          obtain ⟨hpositive, htau⟩ := hrest.mp h
          exact ⟨⟨name, hgiven, hname⟩, hpositive, htau⟩
        · simp [hname, Attempt.throw_bind, Attempt.throw_eq_ok] at h
    | _ => simp [Attempt.throw_bind, Attempt.throw_eq_ok] at h
  · rintro ⟨⟨name, hgiven, hname⟩, hpositive, htau⟩
    refine ⟨.text name, hgiven, ?_⟩
    simp only [hname, Bool.not_true, Bool.false_eq_true, if_false]
    exact hrest.mpr ⟨hpositive, htau⟩

end LineStep

namespace GradientDescent

theorem validate_eq_ok_iff :
    validate owner options = .ok () ↔
      options.InRange .positive "step_size" ∧ options.InRange .positive "grad_tol" ∧
        options.IsCount "max_iter" := by
  simp only [validate, Attempt.check_eq_ok, Options.require_eq_ok_iff,
    Options.requireCount_eq_ok_iff]

end GradientDescent

namespace HookeJeeves

theorem validate_eq_ok_iff :
    validate owner options = .ok () ↔
      options.InRange .positive "initial_step" ∧
        options.InRange .betweenZeroAndOne "reduction_factor" ∧
        options.InRange .positive "min_step" ∧ options.IsCount "max_iter" := by
  simp only [validate, Attempt.check_eq_ok, Options.require_eq_ok_iff,
    Options.requireCount_eq_ok_iff]

end HookeJeeves

namespace NelderMead

theorem validate_eq_ok_iff :
    validate owner options = .ok () ↔
      options.InRange .positive "alpha" ∧ options.InRange .aboveOne "gamma" ∧
        options.InRange .betweenZeroAndOne "rho" ∧ options.InRange .betweenZeroAndOne "sigma" ∧
        options.InRange .positive "initial_simplex_scale" := by
  simp only [validate, Attempt.check_eq_ok, Options.require_eq_ok_iff]

end NelderMead

namespace Newton

theorem validate_eq_ok_iff :
    validate owner options = .ok () ↔
      LineStep.Checked options ∧ options.InRange .positive "reg_lambda" ∧
        options.InRange .atLeastOne "max_reg_scale" := by
  simp only [validate, Attempt.check_eq_ok, Options.require_eq_ok_iff, LineStep.validate_eq_ok_iff]

end Newton

namespace QuasiNewton

theorem validate_eq_ok_iff :
    validate owner options = .ok () ↔
      LineStep.Checked options ∧ options.InRange .notNegative "curvature_eps" := by
  simp only [validate, Attempt.check_eq_ok, Options.require_eq_ok_iff, LineStep.validate_eq_ok_iff]

end QuasiNewton

namespace ConjugateGradient

theorem validate_eq_ok_iff :
    validate owner options = .ok () ↔
      LineStep.Checked options ∧
        (∃ formula, options.get "beta_formula" = .ok formula ∧
          (formula.isText fletcherReeves || formula.isText polakRibiere) = true) ∧
        ∃ i, options.whole "restart_every" = .ok i ∧ 0 ≤ i := by
  rw [validate, Attempt.check_eq_ok, LineStep.validate_eq_ok_iff, Attempt.bind_eq_ok]
  refine and_congr_right fun _ => ?_
  constructor
  · rintro ⟨formula, hformula, h⟩
    by_cases hknown : (formula.isText fletcherReeves || formula.isText polakRibiere) = true
    · simp only [hknown, Bool.not_true, Bool.false_eq_true, if_false] at h
      obtain ⟨i, hi, h⟩ := Attempt.bind_eq_ok.mp h
      refine ⟨⟨formula, hformula, hknown⟩, i, hi, ?_⟩
      by_contra hneg
      simp [Int.not_le.mp hneg, Attempt.throw_eq_ok] at h
    · simp [hknown, Attempt.throw_bind, Attempt.throw_eq_ok] at h
  · rintro ⟨⟨formula, hformula, hknown⟩, i, hi, hpos⟩
    refine ⟨formula, hformula, ?_⟩
    simp only [hknown, Bool.not_true, Bool.false_eq_true, if_false]
    refine Attempt.bind_eq_ok.mpr ⟨i, hi, ?_⟩
    simp [Int.not_lt.mpr hpos, Attempt.pure_eq_ok]

end ConjugateGradient

end Minima
