import Minima.Proofs.StepContracts

/-!
# Starts and steps of the methods on offer

Every method converts options inside its steps. With options that pass the checks of the method a
start does not fail, a step that goes on has used all of them, and a step that fails although its
options can be used fails numerically or is cut off. The simplex method is an exception: a factor
given as a text passes its check, and a step that comes to it later fails.
-/

namespace Minima

open Dialogue Failure

variable {R : Type} [Scalar R] {n : Nat} {options : Options R} {owner : String} {e : Failure R}
  {fails : Failure R → Prop}

def Question.IsValue : Question R n → Prop
  | .value _ => True
  | .gradient _ | .hessian _ => False

/-- The computation asks for values only, and whatever it is told, there is no other failure. -/
abbrev Consult.Valued {α : Type} (fails : Failure R → Prop) (d : Consult R n α) : Prop :=
  d.Meets Question.IsValue (fun _ => True) fails

/-! ## Methods along a line -/

theorem Iterate.start_failsOnly (x : Vector R n) : (Iterate.start x).FailsOnly fails :=
  meets_question_bind trivial fun _ => meets_question_bind trivial fun _ => meets_pure trivial

theorem numerical_of_divide {a b : R} (h : divide a b = .error e) : e.isNumerical = true := by
  unfold divide at h
  by_cases hb : (b == 0.0) = true
  · rw [if_pos hb] at h
    cases h
    rfl
  · rw [if_neg hb] at h
    cases h

namespace SteepestDescent

theorem step_meets {s : Situation R n} (h : LineStep.Checked s.options) (it : Iterate R n) :
    (step s it).Meets (fun _ => True) (fun r => r.2 = .running → LineStep.Usable s.options)
      (Excused (LineStep.Usable s.options)) :=
  meets_bind (LineStep.descend_meets h it (-it.gradient)) fun _ hr => meets_pure hr

end SteepestDescent

namespace ConjugateGradient

theorem factor_returns {formula : Setting R} (h : options.get "beta_formula" = .ok formula)
    (new old : Vector R n) : ∃ x, factor options new old = .ok x := by
  unfold factor
  by_cases hden : Linear.dot old old ≤ (1e-300 : R)
  · rw [if_pos hden]
    exact ⟨0.0, rfl⟩
  rw [if_neg hden, h, Attempt.ok_bind]
  by_cases hformula : formula.isText fletcherReeves = true
  · rw [if_pos hformula]
    exact ⟨_, rfl⟩
  · rw [if_neg hformula]
    exact ⟨_, rfl⟩

theorem step_meets {s : Situation R n} (h : validate owner s.options = .ok ()) (count : Nat)
    (st : State R n) :
    (step s count st).Meets (fun _ => True) (fun r => r.2 = .running → LineStep.Usable s.options)
      (Excused (LineStep.Usable s.options)) := by
  obtain ⟨hchecked, ⟨formula, hformula, -⟩, i, hi, -⟩ := validate_eq_ok_iff.mp h
  refine meets_bind (LineStep.descend_meets hchecked st.iterate (downhill st)) ?_
  rintro ⟨next?, status⟩ hr
  cases next? with
  | none => exact meets_pure hr
  | some next =>
      have hperiod : period s.options n = .ok (if i = 0 then (n : Int) else i) := by
        rw [period, hi]
        rfl
      obtain ⟨beta, hbeta⟩ := factor_returns hformula next.gradient st.iterate.gradient
      have hfactor : (liftM (factor s.options next.gradient st.iterate.gradient) :
          Consult R n R).Meets (fun _ => True) (fun _ => True)
          (Excused (LineStep.Usable s.options)) := by
        rw [hbeta]
        exact meets_pure trivial
      refine meets_known_bind hperiod ?_
      exact meets_join (meets_pure trivial) hfactor fun _ _ => meets_pure hr

end ConjugateGradient

namespace QuasiNewton

open Linear

theorem numerical_of_correction {count : Nat} {b : Square R n} {s y : Vector R n}
    (h : correction count b s y = .error e) : e.isNumerical = true := by
  have hcorrected : ∀ b : Square R n, corrected b s y = .error e → e.isNumerical = true := by
    intro b h
    obtain h | ⟨rho, -, h⟩ := Attempt.bind_eq_error.mp h
    · exact numerical_of_divide h
    · cases h
  unfold correction at h
  by_cases hc : count = 0
  · rw [if_pos hc] at h
    obtain h | ⟨b', -, h⟩ := Attempt.bind_eq_error.mp h
    · obtain h | ⟨x, -, h⟩ := Attempt.bind_eq_error.mp h
      · exact numerical_of_divide h
      · cases h
    · exact hcorrected b' h
  · rw [if_neg hc] at h
    exact hcorrected b h

theorem step_meets {s : Situation R n} (h : validate owner s.options = .ok ()) (count : Nat)
    (st : State R n) :
    (step s count st).Meets (fun _ => True) (fun r => r.2 = .running → LineStep.Usable s.options)
      (Excused (LineStep.Usable s.options)) := by
  obtain ⟨hchecked, eps, heps, -⟩ := validate_eq_ok_iff.mp h
  refine meets_bind (LineStep.descend_meets hchecked st.iterate (direction st).1) ?_
  rintro ⟨next?, status⟩ hr
  cases next? with
  | none => exact meets_pure hr
  | some next =>
      refine meets_known_bind heps ?_
      refine meets_join (meets_lift (fun _ _ => trivial) fun e he => ?_) (meets_pure trivial)
        fun _ _ => meets_pure hr
      exact excused_of_numerical (numerical_of_correction he)

end QuasiNewton

namespace Newton

open Linear

theorem numerical_of_solveFactored {l : Square R n} {b : Vector R n}
    (h : solveFactored l b = .error e) : e.isNumerical = true := by
  unfold solveFactored at h
  cases hy : solve? l b with
  | none =>
      rw [hy] at h
      cases h
      rfl
  | some y =>
      rw [hy] at h
      dsimp only at h
      cases hp : solve? l.transpose y with
      | none =>
          rw [hp] at h
          cases h
          rfl
      | some p =>
          rw [hp] at h
          cases h

theorem ladder_eq_error {h : Square R n} {g : Vector R n} {first limit : R} {fuel : Nat}
    {damping : R} (he : ladder h g first limit fuel damping = .error e) :
    e.isNumerical = true ∨ e = .cutOff := by
  fun_induction ladder h g first limit fuel damping with
  | case1 => cases he
  | case2 fuel damping hlimit l hl =>
      obtain he | ⟨p, -, he⟩ := Attempt.bind_eq_error.mp he
      · exact .inl (numerical_of_solveFactored he)
      · cases he
  | case3 =>
      cases he
      exact .inr rfl
  | case4 damping hlimit hnone fuel ih => exact ih he

theorem step_meets {s : Situation R n} (h : validate owner s.options = .ok ()) (st : State R n) :
    (step s st).Meets (fun _ => True) (fun r => r.2 = .running → LineStep.Usable s.options)
      (Excused (LineStep.Usable s.options)) := by
  obtain ⟨hchecked, ⟨first, hfirst, -⟩, scale, hscale, -⟩ := validate_eq_ok_iff.mp h
  refine meets_question_bind trivial fun hessian => ?_
  refine meets_lift_bind (fun found hfound => ?_) fun e he => ?_
  · refine meets_bind (LineStep.descend_meets hchecked st.iterate _) ?_
    rintro ⟨next?, status⟩ hr
    cases next? with
    | none => exact meets_pure hr
    | some next => exact meets_pure hr
  · rw [direction, hfirst, Attempt.ok_bind, hscale, Attempt.ok_bind] at he
    exact fun _ => ladder_eq_error he

end Newton

/-! ## Methods with a criterion of their own -/

namespace GradientDescent

theorem judge_returns (h : validate owner options = .ok ()) (count : Nat) (old new : Iterate R n) :
    ∃ status, judge options count old new = .ok status := by
  obtain ⟨-, ⟨tol, htol, -⟩, limit, hlimit, -⟩ := validate_eq_ok_iff.mp h
  unfold judge
  rw [htol, Attempt.ok_bind, hlimit]
  by_cases hshort : Linear.norm new.gradient < tol
  · rw [if_pos hshort]
    exact ⟨.success, rfl⟩
  rw [if_neg hshort]
  by_cases hstuck : ¬ new.value < old.value ∧ Scalar.isFinite new.value
  · rw [if_pos hstuck]
    exact ⟨.noProgress, rfl⟩
  rw [if_neg hstuck, Attempt.ok_bind]
  by_cases hcount : limit ≤ (count + 1 : Nat)
  · rw [if_pos hcount]
    exact ⟨.noProgress, rfl⟩
  · rw [if_neg hcount]
    exact ⟨.running, rfl⟩

theorem step_failsOnly {s : Situation R n} (h : validate owner s.options = .ok ()) (count : Nat)
    (it : Iterate R n) : (step s count it).FailsOnly fails := by
  obtain ⟨⟨size, hsize, -⟩, -⟩ := validate_eq_ok_iff.mp h
  refine meets_known_bind hsize ?_
  refine meets_question_bind trivial fun value => meets_question_bind trivial fun gradient => ?_
  obtain ⟨status, hstatus⟩ := judge_returns h count it _
  exact meets_known_bind hstatus (meets_pure trivial)

end GradientDescent

namespace HookeJeeves

theorem baseAt_valued (s : Situation R n) (x : Vector R n) : (baseAt s x).Valued fails :=
  meets_question_bind trivial fun _ => meets_pure trivial

theorem exploreAxis_valued (s : Situation R n) (h : R) (b : Base R n) (i : Fin n) :
    (exploreAxis s h b i).Valued fails := by
  refine meets_bind (baseAt_valued s _) fun ahead _ => ?_
  refine meets_ite (fun _ => meets_pure trivial) fun _ => ?_
  exact meets_bind (baseAt_valued s _) fun behind _ => meets_pure trivial

theorem move_valued {s : Situation R n} {reduction : R}
    (h : s.options.real "reduction_factor" = .ok reduction) (st : State R n) :
    (move s st).Valued fails := by
  refine meets_bind (meets_foldlM (exploreAxis_valued s st.stepSize) _ st.base)
    fun explored _ => ?_
  refine meets_ite (fun _ => ?_) fun _ => meets_known_bind h (meets_pure trivial)
  refine meets_bind (baseAt_valued s _) fun further _ => ?_
  exact meets_ite (fun _ => meets_pure trivial) fun _ => meets_pure trivial

theorem step_valued {s : Situation R n} (h : validate owner s.options = .ok ()) (count : Nat)
    (st : State R n) : (step s count st).Valued fails := by
  obtain ⟨-, ⟨reduction, hreduction, -⟩, ⟨least, hleast, -⟩, limit, hlimit, -⟩ :=
    validate_eq_ok_iff.mp h
  refine meets_bind (move_valued hreduction st) fun next _ => ?_
  refine meets_known_bind hleast (meets_ite (fun _ => meets_pure trivial) fun _ => ?_)
  refine meets_known_bind hlimit ?_
  exact meets_ite (fun _ => meets_pure trivial) fun _ => meets_pure trivial

end HookeJeeves

/-! ## The simplex method -/

namespace NelderMead

/-- The factors that not every step comes to are not given as texts. -/
def Plain (options : Options R) : Prop :=
  ∀ key ∈ ["gamma", "rho", "sigma"], ∀ text, options.get key ≠ .ok (.text text)

/-- What every step reads can be used: the factor of a reflection, and the least diameter, which no
check has looked at. -/
structure Usable (options : Options R) : Prop where
  reflection : (factor options "alpha").Serves
  diameter : (options.real "min_simplex_diameter").Serves

theorem factor_returns {range : OptionRange} {key : String} (h : options.InRange range key)
    (hplain : ∀ text, options.get key ≠ .ok (.text text)) :
    ∃ x, factor options key = .ok x := by
  obtain ⟨given, x, hgiven, hx, -⟩ := h.given
  refine ⟨x, ?_⟩
  rw [factor, hgiven, Attempt.ok_bind]
  cases given with
  | text text => exact absurd hgiven (hplain text)
  | _ => exact hx

theorem vertexAt_failsOnly (s : Situation R n) (x : Vector R n) : (vertexAt s x).FailsOnly fails :=
  meets_question_bind trivial fun _ => meets_pure trivial

theorem start_failsOnly {s : Situation R n} (h : validate owner s.options = .ok ())
    (x : Vector R n) : (start s x).FailsOnly fails := by
  obtain ⟨-, -, -, -, scale, hscale, -⟩ := validate_eq_ok_iff.mp h
  refine meets_known_bind hscale (meets_question_bind trivial fun value => ?_)
  exact meets_bind (meets_ofFnM fun i => vertexAt_failsOnly s _) fun rest _ => meets_pure trivial

theorem shrink_failsOnly {s : Situation R n} {sigma : R} (h : factor s.options "sigma" = .ok sigma)
    (simplex : Simplex R n) : (shrink s simplex).FailsOnly fails := by
  refine meets_bind (meets_ofFnM fun i => ?_) fun rest _ => meets_pure trivial
  exact meets_known_bind h (vertexAt_failsOnly s _)

/-- A move fails only over the factor of its reflection. -/
theorem move_meets {s : Situation R n} (h : validate owner s.options = .ok ())
    (hplain : Plain s.options) (simplex : Simplex R n) :
    (move s simplex).Meets (fun _ => True) (fun _ => (factor s.options "alpha").Serves)
      (Excused (factor s.options "alpha").Serves) := by
  obtain ⟨-, hgamma, hrho, hsigma, -⟩ := validate_eq_ok_iff.mp h
  obtain ⟨gamma, hgamma⟩ := factor_returns hgamma (hplain "gamma" (by simp))
  obtain ⟨rho, hrho⟩ := factor_returns hrho (hplain "rho" (by simp))
  obtain ⟨sigma, hsigma⟩ := factor_returns hsigma (hplain "sigma" (by simp))
  refine meets_lift_bind (fun alpha halpha => ?_) fun e he => excused_of_serves he id
  -- the reflection comes first, so whatever the move comes to has read its factor
  have hserves := Attempt.serves_of_ok halpha
  refine meets_bind (vertexAt_failsOnly s _) fun reflected _ => ?_
  refine meets_ite (fun _ => meets_pure hserves) fun _ => ?_
  refine meets_ite (fun _ => ?_) fun _ => ?_
  · refine meets_known_bind hgamma (meets_bind (vertexAt_failsOnly s _) fun expanded _ => ?_)
    exact meets_ite (fun _ => meets_pure hserves) fun _ => meets_pure hserves
  · refine meets_known_bind hrho (meets_bind (vertexAt_failsOnly s _) fun contracted _ => ?_)
    refine meets_ite (fun _ => meets_pure hserves) fun _ => ?_
    exact meets_bind (shrink_failsOnly hsigma simplex) fun _ _ => meets_pure hserves

theorem step_meets {s : Situation R n} (h : validate owner s.options = .ok ())
    (hplain : Plain s.options) (st : State R n) :
    (step s st).Meets (fun _ => True) (fun _ => Usable s.options) (Excused (Usable s.options)) := by
  have hmove : (move s st.simplex).Meets (fun _ => True)
      (fun _ => (factor s.options "alpha").Serves) (Excused (Usable s.options)) :=
    (move_meets h hplain st.simplex).mono (fun _ h => h) (fun _ h => h) fun e he =>
      he.mono Usable.reflection
  refine meets_bind hmove fun moved hreflection => ?_
  refine meets_lift_bind (fun least hleast => ?_) fun e he => excused_of_serves he Usable.diameter
  exact meets_pure ⟨hreflection, Attempt.serves_of_ok hleast⟩

end NelderMead

/-! ## All methods -/

namespace Offer

/-- The options that a step of the method reads and no check has looked at can be used. -/
def Usable (o : Offer) (options : Options R) : Prop :=
  match o with
  | .gradientDescent | .hookeJeeves => True
  | .nelderMead => NelderMead.Usable options
  | .steepestDescent | .conjugateGradient | .fletcherReeves | .polakRibiere | .newton
  | .quasiNewton => LineStep.Usable options

/-- No option is given in a form that passes the check of the method and fails in some steps only. -/
def Plain (o : Offer) (options : Options R) : Prop := o = .nelderMead → NelderMead.Plain options

/-- A method on offer makes a first state of options that it has checked. -/
theorem start_meets {o : Offer} {s : Situation R n}
    (h : (o.method : Method R).validate owner s.options = .ok ()) (x : Vector R n) :
    ((o.method : Method R).start s x).Meets (fun _ => True) (fun p => ∃ st, p = .state st)
      fails := by
  cases o with
  | nelderMead =>
      exact meets_bind (NelderMead.start_failsOnly h x) fun st _ => meets_pure ⟨st, rfl⟩
  | hookeJeeves =>
      obtain ⟨⟨size, hsize, -⟩, -⟩ := HookeJeeves.validate_eq_ok_iff.mp h
      refine meets_question_bind trivial fun value => meets_known_bind hsize ?_
      exact meets_pure ⟨_, rfl⟩
  | _ => exact meets_bind (Iterate.start_failsOnly x) fun it _ => meets_pure ⟨_, rfl⟩

/-- What a step of a method on offer comes to, with options that the method has checked. -/
theorem step_meets {o : Offer} {s : Situation R n}
    (h : (o.method : Method R).validate owner s.options = .ok ()) (hplain : o.Plain s.options)
    (count : Nat) (st : (o.method : Method R).State n) :
    ((o.method : Method R).step s count st).Meets (fun _ => True)
      (fun r => (∃ next, r.1 = .state next) ∧ (r.2 = .running → o.Usable s.options))
      (Excused (o.Usable s.options)) := by
  cases o with
  | gradientDescent =>
      refine meets_bind (GradientDescent.step_failsOnly h count st) fun r _ => ?_
      exact meets_pure ⟨⟨_, rfl⟩, fun _ => trivial⟩
  | steepestDescent =>
      have hchecked := LineStep.validate_eq_ok_iff.mp h
      refine meets_bind (SteepestDescent.step_meets hchecked st) fun r hr => ?_
      exact meets_pure ⟨⟨_, rfl⟩, hr⟩
  | conjugateGradient =>
      refine meets_bind (ConjugateGradient.step_meets h count st) fun r hr => ?_
      exact meets_pure ⟨⟨_, rfl⟩, hr⟩
  | fletcherReeves =>
      refine meets_bind (ConjugateGradient.step_meets h count st) fun r hr => ?_
      exact meets_pure ⟨⟨_, rfl⟩, hr⟩
  | polakRibiere =>
      refine meets_bind (ConjugateGradient.step_meets h count st) fun r hr => ?_
      exact meets_pure ⟨⟨_, rfl⟩, hr⟩
  | newton =>
      refine meets_bind (Newton.step_meets h st) fun r hr => ?_
      exact meets_pure ⟨⟨_, rfl⟩, hr⟩
  | quasiNewton =>
      refine meets_bind (QuasiNewton.step_meets h count st) fun r hr => ?_
      exact meets_pure ⟨⟨_, rfl⟩, hr⟩
  | nelderMead =>
      refine meets_bind (NelderMead.step_meets h (hplain rfl) st) fun r hr => ?_
      exact meets_pure ⟨⟨_, rfl⟩, fun _ => hr⟩
  | hookeJeeves =>
      have hstep : (HookeJeeves.step s count st).FailsOnly (Excused True) :=
        (HookeJeeves.step_valued h count st).mono (fun _ _ => trivial) (fun _ h => h) fun _ h => h
      exact meets_bind hstep fun r _ => meets_pure ⟨⟨_, rfl⟩, fun _ => trivial⟩

/-- A method on offer shows points of the dimension of its objective. -/
theorem point_size (o : Offer) (st : (o.method : Method R).State n) :
    ((o.method : Method R).view st).point.size = n := by
  cases o with
  | nelderMead => exact Vector.size_toArray (NelderMead.Simplex.best st.simplex).point
  | hookeJeeves => exact Vector.size_toArray st.base.point
  | gradientDescent | steepestDescent => exact Vector.size_toArray st.point
  | _ => exact Vector.size_toArray st.iterate.point

end Offer

end Minima
