import Minima.Proofs.QuadraticForms
import Minima.Proofs.EvaluationCounts
import Minima.Proofs.RestingStarts

/-!
# Newton's method is exact on a quadratic

The Hessian of a convex quadratic is positive definite, so the direction is the whole way to the
minimum. Along it the value falls by half of the slope, so backtracking that begins with the full step
and asks for no more than that takes it. One step leads to the minimum from anywhere else, for one
evaluation of each kind. Unless it is too short or leaves the bounds, a run succeeds with it.
-/

namespace Minima

open Dialogue Linear Matrix

variable {n : Nat} {a : Square ℝ n} {b x p y : Vector ℝ n} {name : String}

/-! ## The way to the minimum -/

namespace Quadratic

theorem mulVec_minimum (hp : a.mulVec p = -gradient a b x) : a.mulVec (x + p) = b := by
  refine ext_get ?_
  have hsolves := congrArg Vector.get hp
  rw [Square.get_mulVec, get_neg, get_gradient] at hsolves
  rw [Square.get_mulVec, get_add, mulVec_add, hsolves, neg_sub, add_sub_cancel]

/-- Along the way to the minimum the value falls by half of the slope. -/
theorem value_minimum (ha : a.toMatrix.IsSymm) (hp : a.mulVec p = -gradient a b x) :
    value a b (x + p) = value a b x + 1 / 2 * dot (gradient a b x) p := by
  have hform : p.get ⬝ᵥ a.toMatrix *ᵥ p.get = -((gradient a b x).get ⬝ᵥ p.get) := by
    rw [← Square.get_mulVec, hp, get_neg, dotProduct_neg, dotProduct_comm]
  rw [value_add ha, hform, dot_real]
  ring

theorem gradient_ne_zero (hx : a.mulVec x ≠ b) : gradient a b x ≠ 0 := by
  intro hflat
  have hzero := congrArg Vector.get hflat
  rw [get_gradient, get_zero, sub_eq_zero, ← Square.get_mulVec] at hzero
  exact hx (ext_get hzero)

theorem eq_of_mulVec (ha : a.toMatrix.PosDef) (hx : a.mulVec x = b) (hy : a.mulVec y = b) :
    x = y := by
  refine ext_get (mulVec_injective_of_isUnit ha.isUnit ?_)
  rw [← Square.get_mulVec, ← Square.get_mulVec, hx, hy]

/-! ## Books -/

noncomputable def opened (a : Square ℝ n) (b x : Vector ℝ n) : Ledger ℝ n where
  values := 1
  gradients := 1
  lastValue := some (x, value a b x)
  lastGradient := some (x, (gradient a b x).toArray)

noncomputable def carriedOn (a : Square ℝ n) (b x y : Vector ℝ n) : Ledger ℝ n where
  values := 2
  gradients := 2
  hessians := 1
  lastValue := some (y, value a b y)
  lastGradient := some (y, (gradient a b y).toArray)
  lastHessian := some (x, a)

theorem through_opened (name : String) (a : Square ℝ n) (b x : Vector ℝ n) :
    Ledger.through (objective name a b) [.value x, .gradient x] {} = opened a b x := rfl

/-- The second value at a point is remembered. -/
theorem through_carriedOn (hxy : x ≠ y) (name : String) (a : Square ℝ n) (b : Vector ℝ n) :
    (opened a b x).through (objective name a b) [.hessian x, .value y, .value y, .gradient y] =
      carriedOn a b x y := by
  have hother : Linear.same x y = false := by
    rw [Bool.eq_false_iff]
    exact mt Linear.same_iff_eq.mp hxy
  have hself : Linear.same y y = true := Linear.same_iff_eq.mpr rfl
  have hessian : Ledger.rawHessian (objective name a b) x = .ok a := plainAnswer_hessian name a b x
  have hvalue : (objective name a b).value y = .ok (value a b y) := rfl
  have hgradient : Ledger.rawGradient (objective name a b) y = .ok (gradient a b y).toArray := rfl
  simp only [Ledger.through, List.foldl_cons, List.foldl_nil, Ledger.answer, Ledger.value,
    Ledger.gradient, Ledger.hessian, Ledger.remembered?, opened, hessian, hvalue, hgradient, hother,
    hself, Bool.false_eq_true, if_false, if_true]
  rfl

theorem opened_truthful (name : String) (a : Square ℝ n) (b x : Vector ℝ n) :
    (opened a b x).Truthful (objective name a b) := by
  rw [← through_opened name]
  exact Ledger.through_truthful (Objective.respectsEquality_real _) (Ledger.truthful_empty _) _

theorem carriedOn_truthful (hxy : x ≠ y) (name : String) (a : Square ℝ n) (b : Vector ℝ n) :
    (carriedOn a b x y).Truthful (objective name a b) := by
  rw [← through_carriedOn hxy name]
  exact Ledger.through_truthful (Objective.respectsEquality_real _) (opened_truthful name a b x) _

end Quadratic

/-! ## Full steps -/

namespace LineStep

/-- With these options the first trial is the full step, and it is taken if the value falls by half of
the slope. -/
structure FullStep (options : Options ℝ) : Prop where
  search : ∃ name, options.get "line_search" = .ok (.text name) ∧ isBacktracking name = true
  alpha : options.real "alpha0" = .ok 1
  slope : ∃ c, options.real "c1" = .ok c ∧ c ≤ 1 / 2
  least : ∃ least, options.real "min_alpha" = .ok least
  tries : ∃ tries, options.whole "max_backtracking" = .ok tries
  stepTol : ∃ tol, options.real "step_tol" = .ok tol
  valueTol : ∃ tol, options.real "f_tol" = .ok tol

/-- The defaults of a line search ask for full steps. -/
theorem fullStep_defaults : FullStep (Newton.method : Method ℝ).defaults where
  search := ⟨_, rfl, by decide⟩
  alpha := congrArg Except.ok RealScalar.one_literal
  slope := ⟨1e-4, rfl, by norm_num⟩
  least := ⟨1e-12, rfl⟩
  tries := ⟨30, rfl⟩
  stepTol := ⟨1e-12, rfl⟩
  valueTol := ⟨1e-14, rfl⟩

variable {s : Situation ℝ n}

theorem FullStep.stagnates_returns {options : Options ℝ} (h : FullStep options) (it : Iterate ℝ n)
    (x : Vector ℝ n) (v : ℝ) : ∃ stalled, stagnates options it x v = .ok stalled := by
  obtain ⟨stepTol, hstep⟩ := h.stepTol
  obtain ⟨valueTol, hvalue⟩ := h.valueTol
  rw [stagnates, hstep, Attempt.ok_bind, hvalue, Attempt.ok_bind]
  exact ⟨_, rfl⟩

/-- A step along the way to the minimum goes there. -/
theorem FullStep.descend_follows (h : FullStep s.options) (it : Iterate ℝ n)
    (hchecked : Checked s.options) (hfree : s.region = .everywhere) (ha : a.toMatrix.IsSymm)
    (hvalue : it.value = Quadratic.value a b it.point)
    (hgradient : it.gradient = Quadratic.gradient a b it.point)
    (hp : a.mulVec p = -Quadratic.gradient a b it.point) (hdown : dot it.gradient p < 0)
    {stalled : Bool}
    (hstalled : stagnates s.options it (it.point + p) (Quadratic.value a b (it.point + p)) =
      .ok stalled) :
    (descend s it p).Follows (Ledger.plainAnswer (Quadratic.objective name a b))
      [.value (it.point + p), .value (it.point + p), .gradient (it.point + p)]
      (some
        { value := Quadratic.value a b (it.point + p), point := it.point + p, gradient := 0
          alpha := 1, step := Linear.norm (it.point + p - it.point) },
        if stalled then .noProgress else .running) := by
  obtain ⟨key, hkey, hback⟩ := h.search
  obtain ⟨c, hc, hhalf⟩ := h.slope
  obtain ⟨least, hleast⟩ := h.least
  obtain ⟨tries, htries⟩ := h.tries
  have hend : along s.region it.point p 1 = it.point + p := by
    rw [along, hfree]
    exact ext_get (by simp [Region.project])
  have hfalls := Quadratic.value_minimum ha hp
  rw [← hvalue, ← hgradient] at hfalls
  have hgradient' := Quadratic.plainAnswer_gradient name a b (it.point + p)
  rw [Quadratic.gradient_minimum (Quadratic.mulVec_minimum hp)] at hgradient'
  -- half of the slope is at least what is asked for
  have hsmall : Quadratic.value a b (it.point + p) ≤ it.value + c * 1 * dot it.gradient p := by
    have hslope := mul_le_mul_of_nonpos_right hhalf hdown.le
    linarith
  have hvalue' : Ledger.plainAnswer (Quadratic.objective name a b)
      (.value (along s.region it.point p 1)) = .ok (Quadratic.value a b (it.point + p)) := by
    rw [hend]
    rfl
  obtain ⟨outcome, hsearch, halpha, -⟩ :=
    searchAlong_follows hchecked hkey hback h.alpha hc hleast htries hvalue' hsmall
  have hfollows := LineStep.descend_follows hsearch rfl (by rw [halpha, hend]; rfl) rfl (by linarith)
    (by rw [halpha, hend]; exact hstalled) (by rw [halpha, hend]; exact hgradient')
  rw [halpha, hend] at hfollows
  exact hfollows

end LineStep

/-! ## Steps of the method -/

namespace Newton

open LineStep

/-- The Hessian is not damped. -/
theorem direction_posDef {owner : String} {options : Options ℝ}
    (hvalid : validate owner options = .ok ()) (ha : a.toMatrix.PosDef) (g : Vector ℝ n) :
    ∃ p, direction options g a = .ok (some p, 0) ∧ a.mulVec p = -g ∧ (g ≠ 0 → dot g p < 0) := by
  obtain ⟨-, ⟨first, hfirst, hpositive⟩, scale, hscale, hone⟩ := validate_eq_ok_iff.mp hvalid
  have hpos : 0 < first := by
    simpa [OptionRange.covers, RealScalar.zero_literal] using hpositive
  have hscale_pos : 0 ≤ scale := by
    have hge : 1 ≤ scale := by
      simpa [OptionRange.covers, RealScalar.one_literal] using hone
    linarith
  have hwhole : dampedPart a (tried first 0) = a.toMatrix := by
    have hsymmetric : a.toMatrixᵀ = a.toMatrix := ha.isHermitian
    rw [dampedPart, tried, hsymmetric, zero_smul, add_zero, ← two_smul ℝ a.toMatrix, smul_smul]
    norm_num
  obtain ⟨⟨p?, damping⟩, hladder, hfinds⟩ := ladder_finds hpos scale g a
  have hdampable : Dampable first (first * scale) a :=
    ⟨0, mul_nonneg hpos.le hscale_pos, hwhole ▸ ha⟩
  obtain ⟨p, rfl⟩ := Option.isSome_iff_exists.mp (hfinds.isSome_iff.mpr hdampable)
  obtain ⟨k, rfl, hk⟩ := hfinds.first p rfl
  -- no damping is the first that is tried
  obtain rfl : k = 0 := by
    by_contra hne
    exact hk.earlier 0 (Nat.pos_of_ne_zero hne) (hwhole ▸ ha)
  have hsolves := (hfinds.solution p rfl p).mpr rfl
  rw [hwhole] at hsolves
  refine ⟨p, (direction_eq_ladder hfirst hscale g a).trans hladder, ?_, hfinds.downhill p rfl⟩
  exact ext_get (by rw [Square.get_mulVec, hsolves, get_neg])

noncomputable def begun (a : Square ℝ n) (b x : Vector ℝ n) : State ℝ n where
  iterate :=
    { value := Quadratic.value a b x, point := x, gradient := Quadratic.gradient a b x
      alpha := 0.0, step := 0.0 }
  found? := none

/-- Where a full step from `x` to `y` ends, if the gradient vanishes at `y`. -/
noncomputable def landed (a : Square ℝ n) (b x y : Vector ℝ n) : State ℝ n where
  iterate :=
    { value := Quadratic.value a b y, point := y, gradient := 0, alpha := 1
      step := Linear.norm (y - x) }
  found? := some (0, false)

theorem start_follows (s : Situation ℝ n) (name : String) (a : Square ℝ n) (b x : Vector ℝ n) :
    ((method : Method ℝ).start s x).Follows (Ledger.plainAnswer (Quadratic.objective name a b))
      [.value x, .gradient x] (.state (begun a b x)) := by
  have hstart : (Iterate.start x).Follows (Ledger.plainAnswer (Quadratic.objective name a b))
      [.value x, .gradient x] (begun a b x).iterate :=
    follows_question_bind rfl (follows_question_bind (Quadratic.plainAnswer_gradient name a b x)
      (follows_pure _))
  exact follows_bind hstart (follows_pure _)

/-- The first step goes to the minimum. -/
theorem step_follows {s : Situation ℝ n} {owner : String} (h : FullStep s.options)
    (hvalid : validate owner s.options = .ok ()) (hfree : s.region = .everywhere)
    (ha : a.toMatrix.PosDef) (hx : a.mulVec x ≠ b) (hy : a.mulVec y = b) {stalled : Bool}
    (hstalled : stagnates s.options (begun a b x).iterate y (Quadratic.value a b y) = .ok stalled)
    (name : String) (count : Nat) :
    ((method : Method ℝ).step s count (begun a b x)).Follows
      (Ledger.plainAnswer (Quadratic.objective name a b)) [.hessian x, .value y, .value y, .gradient y]
      (.state (landed a b x y), if stalled then .noProgress else .running) := by
  obtain ⟨p, hdirection, hp, hdown⟩ := direction_posDef hvalid ha (Quadratic.gradient a b x)
  have hslope := hdown (Quadratic.gradient_ne_zero hx)
  obtain rfl : y = x + p := Quadratic.eq_of_mulVec ha hy (Quadratic.mulVec_minimum hp)
  have hdescend : (LineStep.descend s (begun a b x).iterate p).Follows
      (Ledger.plainAnswer (Quadratic.objective name a b)) _ _ :=
    h.descend_follows (begun a b x).iterate (validate_eq_ok_iff.mp hvalid).1 hfree ha.isHermitian rfl
      rfl hp hslope hstalled
  have hgood : (some p).filter (pointsDownhill (Quadratic.gradient a b x)) = some p :=
    Option.filter_some_pos (pointsDownhill_iff.mpr hslope)
  have hstep : (step s (begun a b x)).Follows (Ledger.plainAnswer (Quadratic.objective name a b))
      [.hessian x, .value (x + p), .value (x + p), .gradient (x + p)]
      (landed a b x (x + p), if stalled then .noProgress else .running) := by
    refine follows_question_bind (Quadratic.plainAnswer_hessian name a b x) ?_
    refine follows_lift_bind hdirection ?_
    dsimp only [begun]
    rw [hgood]
    exact follows_bind hdescend (follows_pure _)
  exact follows_bind hstep (follows_pure _)

end Newton

/-! ## Runs -/

namespace Solver

section

variable {R : Type} [Scalar R] {m : Method R} {s : Solver m} {f : Subject R} {acc : Accepted R f.n}
  {l : Ledger R f.n} {st : m.State f.n}

def counts? (s : Solver m) : Option (Nat × Nat × Nat) := s.task?.map fun t => t.ledger.counts

theorem StandsWith.task?_eq (hs : StandsWith f acc l st s) : s.task? = some (acc.task l) := by
  obtain ⟨⟨_, rfl, htask⟩, -⟩ := hs
  exact htask

theorem StandsWith.counts?_eq (hs : StandsWith f acc l st s) : s.counts? = some l.counts := by
  rw [counts?, hs.task?_eq]
  rfl

theorem StandsWith.state?_eq (hs : StandsWith f acc l st s) : s.state? = some ⟨f.n, st⟩ := by
  obtain ⟨-, _, rfl, hstate⟩ := hs
  exact hstate

end

open Newton

variable {s s₁ : Solver (Newton.method : Method ℝ)} {acc : Accepted ℝ n} {eps : ℝ} {σ : Type}

theorem exec_launch_begun (hfree : acc.region = .everywhere) (name : String) (a : Square ℝ n)
    (b : Vector ℝ n) (s : Solver (Newton.method : Method ℝ)) :
    ∃ s₀, exec (launch (Quadratic.subject name a b {}) acc) s =
        (.ok (begun a b acc.start).view, s₀) ∧
      StandsWith (Quadratic.subject name a b {}) acc (Quadratic.opened a b acc.start)
        (begun a b acc.start) s₀ := by
  have hstart : ((Newton.method : Method ℝ).start (acc.situation name)
      (acc.region.project acc.start)).Follows (Ledger.plainAnswer (Quadratic.objective name a b))
      [.value acc.start, .gradient acc.start] (.state (begun a b acc.start)) := by
    rw [hfree]
    exact start_follows _ name a b acc.start
  exact exec_launch_of_follows (f := Quadratic.subject name a b {})
    (Objective.respectsEquality_real _) hstart s

theorem exec_iterate_landed {s₀ : Solver (Newton.method : Method ℝ)} {owner : String}
    {stalled : Bool} {status : Status} (hfull : LineStep.FullStep acc.options)
    (hvalid : validate owner acc.options = .ok ()) (hfree : acc.region = .everywhere)
    (ha : a.toMatrix.PosDef) (hx : a.mulVec acc.start ≠ b) (hy : a.mulVec y = b)
    (hs : StandsWith (Quadratic.subject name a b {}) acc (Quadratic.opened a b acc.start)
      (begun a b acc.start) s₀) (hrun : s₀.status = .running)
    (hstalled : LineStep.stagnates acc.options (begun a b acc.start).iterate y
      (Quadratic.value a b y) = .ok stalled)
    (hclass : classify acc.options (landed a b acc.start y).view
      (if stalled then .noProgress else .running) = .ok status) :
    ∃ s₁, exec iterate s₀ = (.ok status, s₁) ∧
      StandsWith (Quadratic.subject name a b {}) acc (Quadratic.carriedOn a b acc.start y)
        (landed a b acc.start y) s₁ := by
  have hother : acc.start ≠ y := by
    rintro rfl
    exact hx hy
  have hstep := step_follows (s := acc.situation name) hfull hvalid hfree ha hx hy hstalled name
    s₀.iterations
  obtain ⟨s₁, hi, hs₁⟩ := exec_iterate_of_follows (Objective.respectsEquality_real _)
    (Quadratic.opened_truthful name a b acc.start) hs hrun hstep hclass
  have hbooks := Quadratic.through_carriedOn hother name a b
  exact ⟨s₁, hi, hbooks ▸ hs₁⟩

/-- Where the gradient is remembered to vanish, a run is ended by the criterion, for nothing. -/
theorem exec_solve_of_landed {order : Order ℝ} {s₀ : Solver (Newton.method : Method ℝ)}
    {first : Snapshot ℝ} {l : Ledger ℝ n} (hy : a.mulVec y = b)
    (hcriterion : order.criterion? = some (.gradientNorm eps)) (heps : 0 < eps)
    (hhorizon : 0 < order.horizon) (hacc : s.acceptOrder n order = .ok acc)
    (hl : exec (launch (Quadratic.subject name a b {}) acc) s = (.ok first, s₀))
    (hi : exec iterate s₀ = (.ok .running, s₁))
    (htrue : l.Truthful (Quadratic.objective name a b))
    (hs : StandsWith (Quadratic.subject name a b {}) acc l (landed a b x y) s₁)
    (hgradient : l.lastGradient = some (y, (Quadratic.gradient a b y).toArray))
    (visit : Snapshot ℝ → Nat → σ → σ) (seen : σ) :
    ∃ r final, exec (solve (Quadratic.subject name a b {}) order visit) (s, seen) = (.ok r, final) ∧
      r.status = .success ∧ r.iterations = 1 ∧
      r.evaluations = ⟨l.values, l.gradients, l.hessians⟩ ∧ r.measured? = some 0 ∧
      r.final = (landed a b x y).view := by
  have hf := Objective.respectsEquality_real (Quadratic.objective name a b)
  have hremembered : Ledger.remembered? l.lastGradient y =
      some (Quadratic.gradient a b y).toArray := by
    rw [hgradient, Ledger.remembered?, if_pos (Linear.same_iff_eq.mpr rfl)]
  have hlength : Linear.norm (Quadratic.gradient a b y).toArray.toVector = 0 := by
    rw [norm_toVector, Quadratic.gradient_minimum hy, Linear.norm_zero]
  have hbundled : (Criterion.gradientNorm eps).Bundled := .gradientNorm eps
  obtain ⟨s₂, hholds, hs₂⟩ := exec_gauge_remembered hf htrue hs (v := (landed a b x y).view) rfl
    hremembered (hbundled.holds_looksAt (k := 1))
  obtain ⟨s₃, hmeasure, hs₃⟩ := exec_gauge_remembered hf htrue hs₂ (v := (landed a b x y).view) rfl
    hremembered (hbundled.measure_looksAt (k := 1))
  rw [read_holds_gradientNorm (x := y) rfl rfl, hlength, decide_eq_true heps] at hholds
  rw [read_measure_gradientNorm (x := y) rfl rfl, hlength] at hmeasure
  have hasked : asked? (Newton.method : Method ℝ) order = some (.gradientNorm eps) := hcriterion
  obtain ⟨r, final, hrun, hstatus, -, hmeasured, hcount, hfinal, hevaluations⟩ :=
    exec_solve_of_stop hasked hacc hhorizon hl hi (snapshot?_of_state hs.state?_eq) hholds
      hmeasure visit seen
  exact ⟨r, final, hrun, hstatus, hcount, hevaluations _ hs₃.task?_eq, hmeasured, hfinal⟩

/-- On the problem of a positive definite matrix, without constraints and with full steps, Newton's
method goes to the minimum in its first step, from wherever the gradient does not vanish. The Hessian is
not damped, and the step takes one evaluation of each kind. Unless it is judged too short or leads out
of the bounds, a run that waits for a short gradient succeeds with it, and has evaluated nothing
else. -/
theorem quadratic_solved_in_one_step {c : Configuration ℝ} (hacc : s.accept n c = .ok acc)
    (hfree : c.constraints = .free) (hfull : LineStep.FullStep acc.options) (ha : a.toMatrix.PosDef)
    (hx : a.mulVec acc.start ≠ b) (start? : Option (Tensor ℝ)) (key : String) :
    ∃ p y stalled status s₀ s₁,
      Quadratic.problem? (Tensor.ofRows n (a.toArray.map Vector.toArray)) (some (Tensor.ofVector b))
        start? key = .ok p ∧
      p.subject? = .ok (Quadratic.subject key a b {}) ∧ p.minimum? = some (Tensor.ofVector y) ∧
      a.mulVec y = b ∧
      exec (setUp (Quadratic.subject key a b {}) c) s = (.ok (begun a b acc.start).view, s₀) ∧
      s₀.counts? = some (1, 1, 0) ∧
      exec iterate s₀ = (.ok status, s₁) ∧ s₁.state? = some ⟨n, landed a b acc.start y⟩ ∧
      s₁.counts? = some (2, 2, 1) ∧
      LineStep.stagnates acc.options (begun a b acc.start).iterate y (Quadratic.value a b y) =
        .ok stalled ∧
      classify acc.options (landed a b acc.start y).view
        (if stalled then .noProgress else .running) = .ok status ∧
      ∀ (order : Order ℝ) (eps : ℝ) (σ : Type) (visit : Snapshot ℝ → Nat → σ → σ) (seen : σ),
        order.toConfiguration = c → order.criterion? = some (.gradientNorm eps) → 0 < eps →
        0 < order.horizon → stalled = false →
        (landed a b acc.start y).view.WithinBounds acc.options →
        ∃ r final, exec (solve (Quadratic.subject key a b {}) order visit) (s, seen) =
            (.ok r, final) ∧
          r.status = .success ∧ r.iterations = 1 ∧ r.evaluations = ⟨2, 2, 1⟩ ∧
          r.measured? = some 0 ∧ r.final = (landed a b acc.start y).view := by
  have heverywhere := everywhere_of_accept hacc hfree
  have hbounds := bounds_of_accept hacc
  have hvalid := validate_of_accept hacc
  have hn : n ≠ 0 := by
    rintro rfl
    exact hx (ext_get (Subsingleton.elim _ _))
  obtain ⟨y, p, hp, hy, hminimum, hsubject⟩ := Quadratic.problem?_posDef hn ha b start? key
  have hother : acc.start ≠ y := by
    rintro rfl
    exact hx hy
  obtain ⟨stalled, hstalled⟩ := hfull.stagnates_returns (begun a b acc.start).iterate y
    (Quadratic.value a b y)
  obtain ⟨status, hclass⟩ := classify_returns hbounds (landed a b acc.start y).view
    (if stalled then .noProgress else .running)
  obtain ⟨s₀, hl, hs₀⟩ := exec_launch_begun heverywhere key a b s
  obtain ⟨-, -, -, hrunning, -⟩ := exec_launch_ok hl
  obtain ⟨s₁, hi, hs₁⟩ := exec_iterate_landed hfull hvalid heverywhere ha hx hy hs₀
    (hrunning.trans (if_pos (Snapshot.isFinite_real _))) hstalled hclass
  have hset : exec (setUp (Quadratic.subject key a b {}) c) s =
      (.ok (begun a b acc.start).view, s₀) := (exec_setUp_of_accept hacc).trans hl
  refine ⟨p, y, stalled, status, s₀, s₁, hp, hsubject, hminimum, hy, hset, hs₀.counts?_eq, hi,
    hs₁.state?_eq, hs₁.counts?_eq, hstalled, hclass, ?_⟩
  rintro order eps σ visit seen rfl hcriterion heps hhorizon rfl hwithin
  obtain rfl : status = .running := by
    have hruns := classify_of_within hwithin
    exact Except.ok.inj (hclass.symm.trans hruns)
  have hordered : s.acceptOrder n order = .ok acc :=
    acceptOrder_eq_ok_iff.mpr ⟨fun _ => by rw [hcriterion]; rfl, hacc⟩
  exact exec_solve_of_landed hy hcriterion heps hhorizon hordered hl hi
    (Quadratic.carriedOn_truthful hother key a b) hs₁ rfl visit seen

theorem doubled_mulVec_ne (hx : x ≠ 0) : (doubled n).mulVec x ≠ 0 := fun hzero =>
  hx (Quadratic.eq_of_mulVec (doubled_posDef n) hzero (doubled n).mulVec_zero)

theorem norm_three_four : norm (#v[3, 4] : Vector ℝ 2) = 5 := by
  have hdot : dot (#v[3, 4] : Vector ℝ 2) #v[3, 4] = 5 ^ 2 := by
    rw [dot_real]
    norm_num [get_eq_getElem, dotProduct, Fin.sum_univ_two]
  rw [Linear.norm, hdot]
  exact Real.sqrt_sq (by norm_num)

/-- To the origin is not too short a step. -/
theorem not_stagnates_bowl (it : Iterate ℝ 2) (hpoint : it.point = #v[3, 4]) (v : ℝ) :
    LineStep.stagnates (Newton.method : Method ℝ).defaults it 0 v = .ok false := by
  have hlength : Linear.norm it.point = 5 := by rw [hpoint, norm_three_four]
  have hstep : Linear.norm (0 - it.point) = 5 := by
    rw [Linear.norm, dot_real, get_sub, get_zero, zero_sub, neg_dotProduct_neg, ← dot_real]
    exact hlength
  have hlong : ¬ (5 : ℝ) ≤ 1e-12 * Scalar.greater 1.0 5 := by
    norm_num [RealScalar.greater_eq_max]
  have hstepTol : (Newton.method : Method ℝ).defaults.real "step_tol" = .ok 1e-12 := rfl
  have hvalueTol : (Newton.method : Method ℝ).defaults.real "f_tol" = .ok 1e-14 := rfl
  rw [LineStep.stagnates, hstepTol, Attempt.ok_bind, hvalueTol, Attempt.ok_bind, hstep, hlength,
    decide_eq_false hlong]
  rfl

theorem doubled_within (x : Vector ℝ n) :
    (landed (doubled n) 0 x 0).view.WithinBounds (Newton.method : Method ℝ).defaults := by
  refine ⟨Snapshot.isFinite_real _, ⟨1e12, rfl, ?_⟩, ⟨1e100, rfl, ?_⟩⟩
  · have hlength : (landed (doubled n) 0 x 0).view.pointNorm = 0 :=
      (norm_toVector 0).trans Linear.norm_zero
    rw [hlength]
    norm_num
  · have hvalue : (landed (doubled n) 0 x 0).view.value = 0 := by
      show Quadratic.value (doubled n) 0 0 = 0
      rw [Quadratic.value_real, get_zero, zero_dotProduct, zero_dotProduct]
      norm_num
    rw [hvalue]
    norm_num [Scalar.abs]

/-- The sum of two squares, from the distance five. -/
theorem bowl_solved_in_one_step :
    (new (Newton.method : Method ℝ) none).accept 2
        (freeRun #v[3, 4] (.gradientNorm 1e-3)).toConfiguration =
      .ok (freeAccepted .newton #v[3, 4]) ∧
    (freeRun (#v[3, 4] : Vector ℝ 2) (.gradientNorm 1e-3)).constraints = .free ∧
    LineStep.FullStep (freeAccepted .newton (#v[3, 4] : Vector ℝ 2)).options ∧
    (doubled 2).toMatrix.PosDef ∧ (doubled 2).mulVec #v[3, 4] ≠ 0 ∧
    ∃ r final, exec (solve (Quadratic.subject "sphere2" (doubled 2) 0 {})
        (freeRun #v[3, 4] (.gradientNorm 1e-3)) fun _ _ _ => ())
          (new (Newton.method : Method ℝ) none, ()) = (.ok r, final) ∧
      r.status = .success ∧ r.iterations = 1 ∧ r.evaluations = ⟨2, 2, 1⟩ ∧ r.measured? = some 0 := by
  have hacc := accept_of_acceptOrder (freeRun_accepted (o := .newton)
    (new (Newton.method : Method ℝ) none) #v[3, 4] (.gradientNorm 1e-3))
  have hstart : (doubled 2).mulVec #v[3, 4] ≠ 0 := by
    apply doubled_mulVec_ne
    intro hzero
    have hlength := norm_three_four
    rw [hzero, norm_zero] at hlength
    norm_num at hlength
  obtain ⟨p, y, stalled, status, s₀, s₁, -, -, -, hy, -, -, -, -, -, hstalled, -, hruns⟩ :=
    quadratic_solved_in_one_step hacc rfl LineStep.fullStep_defaults (doubled_posDef 2) hstart none
      "sphere2"
  obtain rfl : y = 0 := Quadratic.eq_of_mulVec (doubled_posDef 2) hy (doubled 2).mulVec_zero
  have hgoes : stalled = false :=
    Except.ok.inj (hstalled.symm.trans (not_stagnates_bowl _ rfl _))
  obtain ⟨r, final, hrun, hstatus, hcount, hevaluations, hmeasured, -⟩ :=
    hruns (freeRun #v[3, 4] (.gradientNorm 1e-3)) 1e-3 Unit (fun _ _ _ => ()) () rfl rfl (by norm_num)
      (by simp [freeRun]) hgoes (doubled_within _)
  exact ⟨hacc, rfl, LineStep.fullStep_defaults, doubled_posDef 2, hstart, r, final, hrun, hstatus,
    hcount, hevaluations, hmeasured⟩

end Solver

end Minima
