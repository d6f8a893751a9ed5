import Minima.Proofs.ExactRuns
import Minima.Proofs.Validation
import Minima.Scalar.Double

/-!
# Every default passes its own check

The defaults of the methods on offer, read as doubles or over the reals, pass the checks that the
methods make of options, so that every method can be run without setting anything.
-/

namespace Minima

open Solver

namespace OptionRange

theorem covers_positive {x : ℝ} (h : 0 < x) : positive.covers x = true := by
  have hx : (0.0 : ℝ) < x := by norm_num; exact h
  simpa [covers] using hx

end OptionRange

open OptionRange

/-- The numbers that stand as defaults lie in the ranges that they are checked for. -/
class Presets (R : Type) [Scalar R] : Prop where
  positive : ∀ x ∈ [(1e12 : R), 1e100, 1.0, 0.1, 1e-3, 1e-6, 0.05], positive.covers x = true
  shrinking : betweenZeroAndOne.covers (0.5 : R) = true
  expanding : aboveOne.covers (2.0 : R) = true
  scale : atLeastOne.covers (1e10 : R) = true
  curvature : notNegative.covers (1e-10 : R) = true

instance : Presets ℝ where
  positive := by
    intro x hx
    simp only [List.mem_cons, List.not_mem_nil, or_false] at hx
    refine covers_positive ?_
    rcases hx with rfl | rfl | rfl | rfl | rfl | rfl | rfl <;> norm_num
  shrinking := by
    rw [covers, Bool.and_eq_true_iff, decide_eq_true_iff, decide_eq_true_iff]
    norm_num
  expanding := by
    rw [covers, decide_eq_true_iff]
    norm_num
  scale := by
    rw [covers, Bool.not_eq_true', decide_eq_false_iff_not]
    norm_num
  curvature := by
    rw [covers, Bool.not_eq_true', decide_eq_false_iff_not]
    norm_num

instance : Presets Float where
  positive := by decide +kernel
  shrinking := by decide +kernel
  expanding := by decide +kernel
  scale := by decide +kernel
  curvature := by decide +kernel

variable {R : Type}

namespace Options

theorem put_of_fresh {options : Options R} {key : String} (h : key ∉ options.keys)
    (value : Setting R) : options.put key value = options ++ [(key, value)] := by
  rw [put, if_neg fun hhas => h (has_eq_true_iff.mp hhas)]

/-- Options with new names are put after the others. -/
theorem update_of_fresh {options more : Options R}
    (hfresh : ∀ key ∈ more.keys, key ∉ options.keys) (hdistinct : more.keys.Nodup) :
    options.update more = options ++ more := by
  induction more generalizing options with
  | nil => exact (List.append_nil options).symm
  | cons o more ih =>
      obtain ⟨hhead, hrest⟩ := List.forall_mem_cons.mp hfresh
      obtain ⟨hapart, hdistinct⟩ := List.nodup_cons.mp hdistinct
      show (options.put o.1 o.2).update more = options ++ o :: more
      rw [put_of_fresh hhead, ih ?_ hdistinct, List.append_assoc]
      · rfl
      · intro key hkey hset
        rw [keys, List.map_append, List.mem_append, List.map_singleton, List.mem_singleton] at hset
        rcases hset with hset | rfl
        · exact hrest key hkey hset
        · exact hapart hkey

end Options

variable [Scalar R]

/-- The bounds beyond which a run diverges are positive by default, whatever stands after them. -/
theorem Method.bounds_append [Presets R] (more : Options R) :
    ∀ key ∈ ["max_x_norm", "max_abs_f"], (commonDefaults ++ more).InRange .positive key := by
  intro key hkey
  simp only [List.mem_cons, List.not_mem_nil, or_false] at hkey
  rcases hkey with rfl | rfl
  · exact ⟨1e12, rfl, Presets.positive _ (by simp)⟩
  · exact ⟨1e100, rfl, Presets.positive _ (by simp)⟩

namespace LineStep

theorem update_defaults : (Method.commonDefaults.update defaults : Options R) =
    Method.commonDefaults ++ defaults := by
  refine Options.update_of_fresh ?_ ?_
  · simp [Options.keys, defaults, Method.commonDefaults]
  · simp [Options.keys, defaults]

/-- The options of a line search, at their defaults, pass its checks, whatever stands after them. -/
theorem checked_append [Presets R] (more : Options R) :
    Checked (Method.commonDefaults ++ defaults ++ more) := by
  refine ⟨⟨_, rfl, by decide⟩, fun key hkey => ?_, ⟨0.5, rfl, Presets.shrinking⟩⟩
  simp only [List.mem_cons, List.not_mem_nil, or_false] at hkey
  rcases hkey with rfl | rfl | rfl | rfl
  · exact ⟨1.0, rfl, Presets.positive _ (by simp)⟩
  · exact ⟨1.0, rfl, Presets.positive _ (by simp)⟩
  · exact ⟨1e-3, rfl, Presets.positive _ (by simp)⟩
  · exact ⟨1e-6, rfl, Presets.positive _ (by simp)⟩

theorem checked_defaults [Presets R] :
    Checked (Method.commonDefaults.update defaults : Options R) := by
  rw [update_defaults, ← List.append_nil (_ ++ _)]
  exact checked_append []

end LineStep

namespace Offer

/-- The options that a method knows, with their defaults, in order. -/
def listing : Offer → Options R
  | .gradientDescent => Method.commonDefaults ++ GradientDescent.defaults
  | .steepestDescent => Method.commonDefaults ++ LineStep.defaults
  | .conjugateGradient =>
      Method.commonDefaults ++ LineStep.defaults ++
        ConjugateGradient.defaults (.text ConjugateGradient.polakRibiere)
  | .fletcherReeves =>
      Method.commonDefaults ++ LineStep.defaults ++
        ConjugateGradient.defaults (.text ConjugateGradient.fletcherReeves)
  | .polakRibiere =>
      Method.commonDefaults ++ LineStep.defaults ++
        ConjugateGradient.defaults (.text ConjugateGradient.polakRibiere)
  | .newton => Method.commonDefaults ++ LineStep.defaults ++ Newton.defaults
  | .quasiNewton => Method.commonDefaults ++ LineStep.defaults ++ QuasiNewton.defaults
  | .nelderMead => Method.commonDefaults ++ NelderMead.defaults
  | .hookeJeeves => Method.commonDefaults ++ HookeJeeves.defaults

/-- The defaults are put together from options with different names. -/
theorem method_defaults (o : Offer) : (o.method : Method R).defaults = o.listing := by
  have hsearching : ∀ more : Options R,
      (∀ key ∈ more.keys, key ∉ (Method.commonDefaults ++ LineStep.defaults : Options R).keys) →
        more.keys.Nodup → (Method.commonDefaults.update LineStep.defaults).update more =
          Method.commonDefaults ++ LineStep.defaults ++ more := by
    intro more hfresh hdistinct
    rw [LineStep.update_defaults, Options.update_of_fresh hfresh hdistinct]
  cases o with
  | steepestDescent => simp only [method, SteepestDescent.method, listing, LineStep.update_defaults]
  | gradientDescent =>
      simp only [method, GradientDescent.method, listing]
      refine Options.update_of_fresh ?_ ?_ <;>
        simp [Options.keys, Method.commonDefaults, GradientDescent.defaults]
  | nelderMead =>
      simp only [method, NelderMead.method, listing]
      refine Options.update_of_fresh ?_ ?_ <;>
        simp [Options.keys, Method.commonDefaults, NelderMead.defaults]
  | hookeJeeves =>
      simp only [method, HookeJeeves.method, listing]
      refine Options.update_of_fresh ?_ ?_ <;>
        simp [Options.keys, Method.commonDefaults, HookeJeeves.defaults]
  | newton =>
      simp only [method, Newton.method, listing]
      refine hsearching _ ?_ ?_ <;>
        simp [Options.keys, Method.commonDefaults, LineStep.defaults, Newton.defaults]
  | quasiNewton =>
      simp only [method, QuasiNewton.method, listing]
      refine hsearching _ ?_ ?_ <;>
        simp [Options.keys, Method.commonDefaults, LineStep.defaults, QuasiNewton.defaults]
  | _ =>
      simp only [method, ConjugateGradient.method, listing]
      refine hsearching _ ?_ ?_ <;>
        simp [Options.keys, Method.commonDefaults, LineStep.defaults, ConjugateGradient.defaults]

variable [Presets R]

/-- Every default passes its own check. -/
theorem validate_defaults (o : Offer) (owner : String) :
    (o.method : Method R).validate owner (o.method : Method R).defaults = .ok () := by
  have hpositive := Presets.positive (R := R)
  rw [o.method_defaults]
  cases o with
  | gradientDescent =>
      exact GradientDescent.validate_eq_ok_iff.mpr
        ⟨⟨0.1, rfl, hpositive _ (by simp)⟩, ⟨1e-6, rfl, hpositive _ (by simp)⟩,
          ⟨100000, rfl, by decide⟩⟩
  | steepestDescent => exact LineStep.validate_eq_ok_iff.mpr (LineStep.checked_append [])
  | newton =>
      exact Newton.validate_eq_ok_iff.mpr
        ⟨LineStep.checked_append _, ⟨1e-6, rfl, hpositive _ (by simp)⟩, ⟨1e10, rfl, Presets.scale⟩⟩
  | quasiNewton =>
      exact QuasiNewton.validate_eq_ok_iff.mpr
        ⟨LineStep.checked_append _, ⟨1e-10, rfl, Presets.curvature⟩⟩
  | nelderMead =>
      exact NelderMead.validate_eq_ok_iff.mpr
        ⟨⟨1.0, rfl, hpositive _ (by simp)⟩, ⟨2.0, rfl, Presets.expanding⟩,
          ⟨0.5, rfl, Presets.shrinking⟩, ⟨0.5, rfl, Presets.shrinking⟩,
          ⟨0.05, rfl, hpositive _ (by simp)⟩⟩
  | hookeJeeves =>
      exact HookeJeeves.validate_eq_ok_iff.mpr
        ⟨⟨1.0, rfl, hpositive _ (by simp)⟩, ⟨0.5, rfl, Presets.shrinking⟩,
          ⟨1e-6, rfl, hpositive _ (by simp)⟩, ⟨100000, rfl, by decide⟩⟩
  | _ =>
      exact ConjugateGradient.validate_eq_ok_iff.mpr
        ⟨LineStep.checked_append _, ⟨_, rfl, rfl⟩, ⟨0, rfl, by decide⟩⟩

end Offer

/-- Every method on offer can be run without setting anything. -/
theorem Offer.presettable (o : Offer) : Presettable (o.method : Method ℝ) where
  norm := ⟨1e12, by cases o <;> rfl, by norm_num⟩
  value := ⟨1e100, by cases o <;> rfl, by norm_num⟩
  valid := o.validate_defaults

end Minima
