import Minima.Proofs.Memory
import Minima.Proofs.ScalarLaws

/-!
# Equal points

Points that compare as equal may differ in the signs of their zeros. An objective is congruent if the
functions that it was made of do not tell such points apart. Then neither do the derivatives that are
found by differences: a finite step from equal points leads to equal points, and these are all the
points at which differences take values.
-/

namespace Minima

variable {R : Type} [Scalar R] {n : Nat}

/-- The functions of the objective, those that it has, take equal points to the same outcome. -/
structure Objective.Congruent (f : Objective R n) : Prop where
  value : ∀ {x y : Vector R n}, Linear.same x y = true → f.value x = f.value y
  gradient : ∀ {g}, f.gradient? = some g → ∀ {x y : Vector R n}, Linear.same x y = true → g x = g y
  hessian : ∀ {h}, f.hessian? = some h → ∀ {x y : Vector R n}, Linear.same x y = true → h x = h y
  guarded : ∀ {x y : Vector R n}, Linear.same x y = true → f.guarded x = f.guarded y

theorem Linear.same_iff {x y : Vector R n} :
    same x y = true ↔ ∀ (i : Nat) (hi : i < n), (x[i] == y[i]) = true :=
  Vector.isEqv_iff_rel

variable [Scalar.Lawful R]

namespace Linear

theorem same_symm {x y : Vector R n} (h : same x y = true) : same y x = true := by
  rw [same_iff] at h ⊢
  exact fun i hi => Scalar.Lawful.beq_symm (h i hi)

theorem same_trans {x y z : Vector R n} (h : same x y = true) (h' : same y z = true) :
    same x z = true := by
  rw [same_iff] at h h' ⊢
  exact fun i hi => Scalar.Lawful.beq_trans (h i hi) (h' i hi)

/-- Equal points are equal to the same points. -/
theorem same_congr {x y : Vector R n} (h : same x y = true) (z : Vector R n) :
    same x z = same y z := by
  rw [Bool.eq_iff_iff]
  exact ⟨same_trans (same_symm h), same_trans h⟩

/-- A step with finite components. -/
def Short (d : Vector R n) : Prop := ∀ (i : Nat) (hi : i < n), Scalar.isFinite d[i] = true

variable {x y d : Vector R n}

theorem same_add (hd : Short d) (h : same x y = true) : same (x + d) (y + d) = true := by
  rw [same_iff] at h ⊢
  intro i hi
  rw [Vector.getElem_add, Vector.getElem_add]
  exact Scalar.Lawful.add_congr (hd i hi) (h i hi)

theorem same_sub (hd : Short d) (h : same x y = true) : same (x - d) (y - d) = true := by
  rw [same_iff] at h ⊢
  intro i hi
  rw [Vector.getElem_sub, Vector.getElem_sub]
  exact Scalar.Lawful.sub_congr (hd i hi) (h i hi)

theorem short_axis (i : Nat) : Short (axis i Ledger.gradientStep : Vector R n) := by
  intro j hj
  simp only [axis, Vector.getElem_ofFn]
  by_cases h : j = i
  · rw [if_pos h]
    exact Scalar.Lawful.finite_gradientStep
  · rw [if_neg h]
    exact Scalar.Lawful.finite_zero

theorem short_stride (i : Fin n) : Short (Objective.stride Ledger.hessianStep i : Vector R n) := by
  intro j hj
  simp only [Objective.stride, Vector.getElem_ofFn]
  by_cases h : (⟨j, hj⟩ : Fin n) = i
  · rw [if_pos h]
    exact Scalar.Lawful.finite_ahead
  · rw [if_neg h]
    exact Scalar.Lawful.finite_beside

end Linear

namespace Objective.Congruent

variable {f : Objective R n} {x y : Vector R n}

theorem slope (hf : f.Congruent) (h : Linear.same x y = true) (i : Fin n) :
    f.slope x Ledger.gradientStep i = f.slope y Ledger.gradientStep i := by
  have hahead := Linear.same_add (Linear.short_axis i.val) h
  have hbehind := Linear.same_sub (Linear.short_axis i.val) h
  simp only [Objective.slope, hf.value hahead, hf.value hbehind, hf.guarded hahead,
    hf.guarded hbehind]

theorem curvature (hf : f.Congruent) (h : Linear.same x y = true) (centre : R) (i : Fin n) :
    f.curvature x Ledger.hessianStep centre i = f.curvature y Ledger.hessianStep centre i := by
  have hahead := Linear.same_add (Linear.short_stride i) h
  have hbehind := Linear.same_sub (Linear.short_stride i) h
  simp only [Objective.curvature, hf.value hahead, hf.value hbehind, hf.guarded hahead,
    hf.guarded hbehind, hf.guarded h]

theorem mixed (hf : f.Congruent) (h : Linear.same x y = true) (i j : Fin n) :
    f.mixed x Ledger.hessianStep i j = f.mixed y Ledger.hessianStep i j := by
  have hp := Linear.same_add (Linear.short_stride i) h
  have hm := Linear.same_sub (Linear.short_stride i) h
  have hpp := Linear.same_add (Linear.short_stride j) hp
  have hpm := Linear.same_sub (Linear.short_stride j) hp
  have hmp := Linear.same_add (Linear.short_stride j) hm
  have hmm := Linear.same_sub (Linear.short_stride j) hm
  simp only [Objective.mixed, hf.value hpp, hf.value hpm, hf.value hmp, hf.value hmm,
    hf.guarded hpp, hf.guarded hpm, hf.guarded hmp, hf.guarded hmm]

/-- A congruent objective respects equality, whether its derivatives are formulas or differences. -/
theorem respectsEquality (hf : f.Congruent) : f.RespectsEquality where
  value h := hf.value h
  gradient h := by
    unfold Ledger.rawGradient
    cases hg : f.gradient? with
    | some g => exact hf.gradient hg h
    | none => simp only [Objective.differenceGradient, hf.slope h]
  hessian h := by
    unfold Ledger.rawHessian
    cases hh : f.hessian? with
    | some g => simp only [hf.hessian hh h]
    | none =>
        simp only [Objective.differenceHessian, hf.value h, hf.curvature h, hf.mixed h]

end Objective.Congruent

end Minima
