import Minima.Scalar.Real
import Minima.Proofs.DampedDirections
import Minima.Proofs.LimitedRuns
import Minima.Proofs.Quadratics
import Minima.Proofs.SuccessfulRuns

/-!
# Starts without a slope

A method along a line that stands where the gradient vanishes tries the point where it stands, finds
no smaller value, and reports that it makes no progress. The criterion is asked after a step that goes
on, so a run from the minimum of a convex quadratic ends without success, though the gradient there is
shorter than any threshold. Nor is a run from any other start with a short gradient a success by that:
it succeeds exactly if its last step goes on, and then the gradient is short at the last point, or the
limit of steps is reached.
-/

namespace Minima

open Dialogue Linear

variable {n : Nat}

/-! ## Steps where the gradient vanishes -/

namespace LineStep

variable {s : Situation ℝ n} {it : Iterate ℝ n}
  {answer : (q : Question ℝ n) → Attempt ℝ (Answer q)}

/-- The options of a line search are the defaults, and there are no constraints. -/
structure Preset (s : Situation ℝ n) : Prop where
  checked : Checked s.options
  region : s.region = .everywhere
  search : s.options.get "line_search" = .ok (.text LineSearch.Kind.armijo.key)
  alpha : s.options.real "alpha0" = .ok 1.0
  slope : s.options.real "c1" = .ok 1e-4
  least : s.options.real "min_alpha" = .ok 1e-12
  tries : s.options.whole "max_backtracking" = .ok 30

/-- Without a direction, the first trial is where the iterate is, and it is rejected. -/
theorem read_descend_still (h : Preset s) (hvalue : answer (.value it.point) = .ok it.value) :
    (descend s it 0).read answer = .ok (none, .noProgress) := by
  have hstays (alpha : ℝ) : along s.region it.point 0 alpha = it.point := by
    rw [along, h.region]
    refine ext_get (funext fun i => ?_)
    simp [Region.project, get_eq_getElem]
  have hsmall : it.value ≤ it.value + 1e-4 * 1.0 * Linear.dot it.gradient 0 := by
    rw [dot_zero, mul_zero, add_zero]
  have htrial (alpha : ℝ) : answer (.value (along s.region it.point 0 alpha)) = .ok it.value := by
    rw [hstays]
    exact hvalue
  obtain ⟨outcome, hsearch, -, -⟩ := read_searchAlong h.checked h.search (by decide) h.alpha h.slope
    h.least h.tries (htrial 1.0) hsmall
  exact read_descend_rejected hsearch rfl (htrial outcome.alpha) rfl (lt_irrefl it.value)

end LineStep

section

variable {s : Situation ℝ n} {it : Iterate ℝ n} {x : Vector ℝ n}
  {answer : (q : Question ℝ n) → Attempt ℝ (Answer q)}

theorem SteepestDescent.read_step_still (h : LineStep.Preset s)
    (hvalue : answer (.value it.point) = .ok it.value) (hflat : it.gradient = 0) :
    (step s it).read answer = .ok (it, .noProgress) := by
  rw [step, hflat, neg_zero_vector]
  exact read_bind_of_ok (LineStep.read_descend_still h hvalue)

/-- Any direction prepared before is given up. -/
theorem ConjugateGradient.read_step_still {st : ConjugateGradient.State ℝ n}
    (h : LineStep.Preset s) (hvalue : answer (.value st.iterate.point) = .ok st.iterate.value)
    (hflat : st.iterate.gradient = 0) (count : Nat) :
    (step s count st).read answer = .ok (st, .noProgress) := by
  have hdirection : downhill st = 0 := by
    have hlevel : (0.0 : ℝ) ≤ dot st.direction st.iterate.gradient := by
      rw [hflat, dot_zero]
      norm_num
    rw [downhill, if_pos hlevel, hflat, neg_zero_vector]
  rw [step, hdirection]
  exact read_bind_of_ok (LineStep.read_descend_still h hvalue)

/-- Any approximation of the inverse is given up. -/
theorem QuasiNewton.read_step_still {st : QuasiNewton.State ℝ n} (h : LineStep.Preset s)
    (hvalue : answer (.value st.iterate.point) = .ok st.iterate.value)
    (hflat : st.iterate.gradient = 0) (count : Nat) :
    (step s count st).read answer = .ok (st, .noProgress) := by
  rw [step, direction_of_flat hflat]
  exact read_bind_of_ok (LineStep.read_descend_still h hvalue)

/-- Any direction that is found for the Hessian is given up. -/
theorem Newton.read_step_still {st : Newton.State ℝ n} {a : Square ℝ n}
    {found : Option (Vector ℝ n) × ℝ} (h : LineStep.Preset s)
    (hfound : direction s.options st.iterate.gradient a = .ok found)
    (hvalue : answer (.value st.iterate.point) = .ok st.iterate.value)
    (hhessian : answer (.hessian st.iterate.point) = .ok a) (hflat : st.iterate.gradient = 0) :
    (step s st).read answer = .ok (st, .noProgress) := by
  have hgood : (found.1.filter (pointsDownhill st.iterate.gradient)).getD (-st.iterate.gradient) = 0 := by
    rw [filter_pointsDownhill_of_flat hflat, hflat, neg_zero_vector]
    rfl
  have hstays := LineStep.read_descend_still h hvalue
  rw [← hgood] at hstays
  refine (read_question_bind hhessian).trans ((read_lift_bind hfound).trans ?_)
  exact read_bind_of_ok hstays

end

/-! ## The methods along a line -/

namespace Offer

variable {o : Offer} {label : String}

theorem preset (ho : (o.method : Method ℝ).usesLineSearch = true) (label : String) :
    LineStep.Preset
      ({ label, options := (o.method : Method ℝ).defaults, region := .everywhere } : Situation ℝ n) := by
  have hvalid := o.validate_defaults (R := ℝ) o.label
  cases o with
  | steepestDescent =>
      exact ⟨LineStep.validate_eq_ok_iff.mp hvalid, rfl, rfl, rfl, rfl, rfl, rfl⟩
  | conjugateGradient =>
      exact ⟨(ConjugateGradient.validate_eq_ok_iff.mp hvalid).1, rfl, rfl, rfl, rfl, rfl, rfl⟩
  | fletcherReeves =>
      exact ⟨(ConjugateGradient.validate_eq_ok_iff.mp hvalid).1, rfl, rfl, rfl, rfl, rfl, rfl⟩
  | polakRibiere =>
      exact ⟨(ConjugateGradient.validate_eq_ok_iff.mp hvalid).1, rfl, rfl, rfl, rfl, rfl, rfl⟩
  | newton => exact ⟨(Newton.validate_eq_ok_iff.mp hvalid).1, rfl, rfl, rfl, rfl, rfl, rfl⟩
  | quasiNewton => exact ⟨(QuasiNewton.validate_eq_ok_iff.mp hvalid).1, rfl, rfl, rfl, rfl, rfl, rfl⟩
  | gradientDescent => cases ho
  | nelderMead => cases ho
  | hookeJeeves => cases ho

/-- Where the gradient vanishes, a method with its defaults begins in a state that it cannot leave. -/
theorem rests (ho : (o.method : Method ℝ).usesLineSearch = true) (label : String)
    {x : Vector ℝ n} {v : ℝ} {a : Square ℝ n}
    {answer : (q : Question ℝ n) → Attempt ℝ (Answer q)} (hvalue : answer (.value x) = .ok v)
    (hflat : answer (.gradient x) = .ok 0) (hhessian : answer (.hessian x) = .ok a) :
    let s : Situation ℝ n :=
      { label, options := (o.method : Method ℝ).defaults, region := .everywhere }
    ∃ st : (o.method : Method ℝ).State n,
      ((o.method : Method ℝ).start s x).read answer = .ok (.state st) ∧
      ((o.method : Method ℝ).step s 0 st).read answer = .ok (.state st, .noProgress) ∧
      (o.method.view st).point = x.toArray ∧ (o.method.view st).value = v := by
  intro s
  have hpreset : LineStep.Preset s := preset ho label
  have hstart : (Iterate.start x).read answer = .ok ⟨v, x, 0, 0.0, 0.0⟩ :=
    (read_question_bind hvalue).trans (read_question_bind hflat)
  cases o with
  | steepestDescent =>
      exact ⟨_, read_bind_of_ok hstart,
        read_bind_of_ok (SteepestDescent.read_step_still hpreset hvalue rfl), rfl, rfl⟩
  | conjugateGradient =>
      exact ⟨_, read_bind_of_ok hstart,
        read_bind_of_ok (ConjugateGradient.read_step_still hpreset hvalue rfl 0), rfl, rfl⟩
  | fletcherReeves =>
      exact ⟨_, read_bind_of_ok hstart,
        read_bind_of_ok (ConjugateGradient.read_step_still hpreset hvalue rfl 0), rfl, rfl⟩
  | polakRibiere =>
      exact ⟨_, read_bind_of_ok hstart,
        read_bind_of_ok (ConjugateGradient.read_step_still hpreset hvalue rfl 0), rfl, rfl⟩
  | newton =>
      have hdirection : Newton.direction s.options 0 a = _ := Newton.direction_eq_ladder rfl rfl 0 a
      obtain ⟨found, hladder, -⟩ := Newton.ladder_finds (by norm_num : (0 : ℝ) < 1e-6) 1e10 0 a
      have hfound := hdirection.trans hladder
      exact ⟨_, read_bind_of_ok hstart, read_bind_of_ok
        (Newton.read_step_still hpreset hfound hvalue hhessian rfl), rfl, rfl⟩
  | quasiNewton =>
      exact ⟨_, read_bind_of_ok hstart,
        read_bind_of_ok (QuasiNewton.read_step_still hpreset hvalue rfl 0), rfl, rfl⟩
  | gradientDescent => cases ho
  | nelderMead => cases ho
  | hookeJeeves => cases ho

end Offer

/-! ## Steps that count -/

theorem norm_toVector (x : Vector ℝ n) : norm x.toArray.toVector = norm x := by
  obtain ⟨entries, rfl⟩ := x
  rfl

/-- From `z` to `y` the function goes down, by so much or over such a distance that a run goes on by
default, and `y` is not so far away, and the function not so large there, that the run would be given
up. -/
structure MakesProgress (q : Vector ℝ n → ℝ) (z y : Vector ℝ n) : Prop where
  falls : q y < q z
  counts : 1e-12 * max 1 (norm z) < norm (y - z) ∨ 1e-14 * max 1 |q z| < |q z - q y|
  near : norm y ≤ 1e12
  bounded : |q y| ≤ 1e100

/-- What the bounds of a run and the tolerances of a step are by default. -/
structure LineStep.Tolerances (options : Options ℝ) : Prop where
  stepTol : options.real "step_tol" = .ok 1e-12
  valueTol : options.real "f_tol" = .ok 1e-14
  maxNorm : options.real "max_x_norm" = .ok 1e12
  maxValue : options.real "max_abs_f" = .ok 1e100

theorem Offer.tolerances {o : Offer} (ho : (o.method : Method ℝ).usesLineSearch = true) :
    LineStep.Tolerances (o.method : Method ℝ).defaults := by
  cases o with
  | gradientDescent => cases ho
  | nelderMead => cases ho
  | hookeJeeves => cases ho
  | _ => exact ⟨rfl, rfl, rfl, rfl⟩

namespace LineStep.Tolerances

variable {options : Options ℝ}

theorem stagnates_iff (h : Tolerances options) (it : Iterate ℝ n) (y : Vector ℝ n) (v : ℝ) :
    stagnates options it y v = .ok false ↔
      1e-12 * max 1 (norm it.point) < norm (y - it.point) ∨
        1e-14 * max 1 |it.value| < |it.value - v| := by
  have hone : (1.0 : ℝ) = 1 := RealScalar.one_literal
  rw [stagnates, h.stepTol, Attempt.ok_bind, h.valueTol, Attempt.ok_bind,
    RealScalar.greater_eq_max, RealScalar.greater_eq_max, hone]
  simp only [pure, Except.pure, Except.ok.injEq, Bool.and_eq_false_iff, decide_eq_false_iff_not,
    not_le]
  exact Iff.rfl

/-- A step leads on by default exactly if it makes progress with the function whose values its snapshots show. -/
theorem leadsOn_iff (h : Tolerances options) {q : Vector ℝ n → ℝ} {u v : Snapshot ℝ}
    {z y : Vector ℝ n} (hu : u.point = z.toArray) (hv : v.point = y.toArray)
    (hqz : u.value = q z) (hqy : v.value = q y) : u.LeadsOn options n v ↔ MakesProgress q z y := by
  have hnorm : v.pointNorm = norm y := by
    rw [Snapshot.pointNorm, hv]
    exact norm_toVector y
  constructor
  · rintro ⟨it, next, hit, hnext, hfalls, hmoves, -, ⟨bound, hbound, hnear⟩, bound', hbound', hlow⟩
    obtain rfl : it.point = z := Vector.toArray_inj.mp (hit.point.symm.trans hu)
    obtain rfl : next.point = y := Vector.toArray_inj.mp (hnext.point.symm.trans hv)
    obtain rfl := Except.ok.inj (h.maxNorm.symm.trans hbound)
    obtain rfl := Except.ok.inj (h.maxValue.symm.trans hbound')
    rw [h.stagnates_iff, ← hit.value, ← hnext.value, hqz, hqy] at hmoves
    rw [hqz, hqy] at hfalls
    rw [hnorm] at hnear
    rw [hqy] at hlow
    exact ⟨hfalls, hmoves, not_lt.mp hnear, not_lt.mp hlow⟩
  · rintro ⟨hfalls, hcounts, hnear, hlow⟩
    refine ⟨⟨q z, z, 0, 0, 0⟩, ⟨q y, y, 0, 0, 0⟩, ⟨hqz, hu⟩, ⟨hqy, hv⟩, by rw [hqz, hqy]; exact hfalls,
      (h.stagnates_iff _ _ _).mpr hcounts, Snapshot.isFinite_real _, ⟨_, h.maxNorm, ?_⟩, _,
      h.maxValue, ?_⟩
    · rw [hnorm]
      exact not_lt.mpr hnear
    · rw [hqy]
      exact not_lt.mpr hlow

end LineStep.Tolerances

/-! ## Runs on quadratics -/

theorem Quadratic.objective_total (name : String) (a : Square ℝ n) (b : Vector ℝ n) :
    (Quadratic.objective name a b).Total where
  value x := ⟨Quadratic.value a b x, rfl⟩
  gradient x := ⟨(Quadratic.gradient a b x).toArray, rfl, (Quadratic.gradient a b x).size_toArray⟩
  hessian x := ⟨a, Quadratic.plainAnswer_hessian name a b x⟩

namespace Criterion

/-- The gradient is short, or as many steps have been made as the limit allows, if there is one. -/
def shortGradient (threshold : ℝ) : Option Nat → Criterion ℝ
  | none => .gradientNorm threshold
  | some limit => .join .any (.gradientNorm threshold) (.iterations limit)

theorem read_holds_shortGradient {f : Objective ℝ n} {v : Snapshot ℝ} {x : Vector ℝ n}
    {g : Array ℝ} {k : Nat} (hx : v.point = x.toArray) (hg : Ledger.rawGradient f x = .ok g)
    (threshold : ℝ) (limit? : Option Nat) :
    ((shortGradient threshold limit?).holds v k).read (Solver.plainGauge f) =
      .ok (decide (norm g.toVector < threshold) || limit?.any fun limit => decide (limit ≤ k)) := by
  have hgradient := Solver.read_holds_gradientNorm (k := k) hx hg threshold
  cases limit? with
  | none => simpa [shortGradient] using hgradient
  | some limit =>
      show ((Criterion.compound .any [.gradientNorm threshold, .iterations limit]).holds v k).read
        (Solver.plainGauge f) = _
      have hsteps : (holding v k [.iterations limit]).read (Solver.plainGauge f) =
          .ok [decide (limit ≤ k)] := by
        rw [holding, holds, holding]
        rfl
      have hboth : (holding v k [.gradientNorm threshold, .iterations limit]).read
          (Solver.plainGauge f) =
            .ok [decide (norm g.toVector < threshold), decide (limit ≤ k)] := by
        rw [holding]
        exact (read_bind_of_ok hgradient).trans (read_bind_of_ok hsteps)
      rw [Criterion.holds]
      refine (read_bind_of_ok hboth).trans ?_
      simp [Dialogue.read, pure]

end Criterion

namespace Solver

variable {o : Offer} {a : Square ℝ n} {b x : Vector ℝ n} {σ : Type}

noncomputable def freeRun (x : Vector ℝ n) (c : Criterion ℝ) : Order ℝ where
  start := Tensor.ofVector x
  criterion? := some c

noncomputable def freeAccepted (o : Offer) (x : Vector ℝ n) : Accepted ℝ n :=
  { options := (o.method : Method ℝ).defaults, region := .everywhere, start := x }

theorem freeRun_accepted (s : Solver (o.method : Method ℝ)) (x : Vector ℝ n) (c : Criterion ℝ) :
    s.acceptOrder n (freeRun x c) = .ok (freeAccepted o x) := by
  have haccepts := accept_vector o.presettable s x
  have hgiven : (!(o.method : Method ℝ).hasCriterion && (freeRun x c).criterion?.isNone) = false :=
    Bool.and_false _
  rw [acceptOrder, hgiven]
  exact haccepts

/-- A run from where the gradient of a quadratic vanishes makes one step, which is rejected, and ends
without success, whatever its criterion is. -/
theorem exec_solve_from_minimum (ho : (o.method : Method ℝ).usesLineSearch = true)
    (hx : a.mulVec x = b) (name : String) (ledger : Ledger ℝ n)
    (c : Criterion ℝ) (s : Solver (o.method : Method ℝ)) (visit : Snapshot ℝ → Nat → σ → σ)
    (seen : σ) :
    ∃ r final, exec (solve { n, objective := Quadratic.objective name a b, ledger } (freeRun x c) visit)
        (s, seen) = (.ok r, final) ∧
      r.status = .noProgress ∧ r.iterations = 1 ∧ r.final.point = x.toArray ∧
      r.final.value = Quadratic.value a b x := by
  have hgradient := Quadratic.plainAnswer_gradient name a b x
  rw [Quadratic.gradient_minimum hx] at hgradient
  obtain ⟨st, hstart, hstep, hpoint, hvalue⟩ := Offer.rests ho name rfl hgradient
    (Quadratic.plainAnswer_hessian name a b x)
  have hhorizon : 0 < (freeRun x c).horizon := Nat.succ_pos _
  obtain ⟨-, r, final, -, hrun, hstatus, hcount, hfinal, -⟩ :=
    exec_solve_of_first_read (Objective.respectsEquality_real _)
      (f := { n, objective := Quadratic.objective name a b, ledger })
      (freeRun_accepted s x c) hhorizon hstart (Snapshot.isFinite_real _) hstep
      (classify_ended (Snapshot.isFinite_real _) nofun) rfl visit seen
  exact ⟨r, final, hrun, hstatus, hcount, by rw [hfinal, hpoint], by rw [hfinal, hvalue]⟩

/-- All that a run shows, from the start on, is points with what the objective comes to there. -/
theorem values_of_shown {f : Subject ℝ} {order : Order ℝ} {w : Watcher ℝ σ} {seen : σ}
    {s s₀ : Solver (o.method : Method ℝ)} {acc : Accepted ℝ f.n} {first : Snapshot ℝ} {r : Results ℝ}
    {final : Solver (o.method : Method ℝ) × σ} (hw : w.Leaves f (Ledger.Truthful f.objective))
    (hacc : s.acceptOrder f.n order = .ok acc) (hl : exec (launch f acc) s = (.ok first, s₀))
    (hr : exec (solveWatched f order w) (s, seen) = (.ok r, final)) :
    ∀ v ∈ first :: r.history.toList,
      ∃ y : Vector ℝ f.n, v.point = y.toArray ∧ f.objective.value y = .ok v.value := by
  have hrespect := Objective.respectsEquality_real f.objective
  have hcarries := carries_truth o acc hrespect
  have hshown : ∀ v ∈ first :: r.history.toList,
      ∃ st, o.Grounded acc.region (truth f.objective) st ∧ (o.method : Method ℝ).view st = v := by
    intro v hv
    rcases List.mem_cons.mp hv with rfl | hv
    · obtain ⟨-, -, hfirst, -⟩ := exec_launch_ok hl
      exact (hcarries.launch hl).snapshot hfirst
    · exact shown_of_solveWatched hacc hcarries (gaugesKeep_truthful hrespect) hw hr v
        (List.mem_cons_of_mem _ hv)
  intro v hv
  obtain ⟨st, hst, rfl⟩ := hshown v hv
  obtain ⟨y, hy, -, hvalue⟩ := (Offer.coherent_view hst).value
  exact ⟨y, hy.symm, hvalue⟩

/-- A run on a quadratic that returns has made a step, and it succeeds exactly if the last one
makes progress. -/
theorem success_iff_makesProgress (ho : (o.method : Method ℝ).usesLineSearch = true) {name : String}
    {ledger : Ledger ℝ n} {c : Criterion ℝ} {horizon : Nat} {s : Solver (o.method : Method ℝ)}
    {visit : Snapshot ℝ → Nat → σ → σ} {seen : σ} {r : Results ℝ}
    {final : Solver (o.method : Method ℝ) × σ}
    (hr : exec (solve { n, objective := Quadratic.objective name a b, ledger }
      { freeRun x c with horizon } visit) (s, seen) = (.ok r, final)) :
    ∃ (earlier : List (Array ℝ)) (z y : Vector ℝ n),
      x.toArray :: r.history.toList.map Snapshot.point = earlier ++ [z.toArray, y.toArray] ∧
        (r.status = .success ↔ MakesProgress (Quadratic.value a b) z y) := by
  obtain ⟨acc, first, s₀, earlier, u, v, hacc, hl, hshown, hiff⟩ := success_iff_leadsOn ho
    (Objective.respectsEquality_real _) (leaves_onlooker visit) hr (history_ne_of_real hr)
  have hvalues := values_of_shown (leaves_onlooker visit) hacc hl hr
  rw [hshown] at hvalues
  obtain ⟨z, hz, hqz⟩ := hvalues u (by simp)
  obtain ⟨y, hy, hqy⟩ := hvalues v (by simp)
  obtain rfl : acc = freeAccepted o x := Except.ok.inj (hacc.symm.trans (freeRun_accepted s x c))
  have hfirst : first.point = x.toArray := by
    obtain ⟨st, hopening, -, rfl⟩ := opening_of_exec_launch hl
    exact (Offer.start_along ho _ x).of_run hopening st rfl
  refine ⟨earlier.map Snapshot.point, z, y, ?_, ?_⟩
  · have hpoints := congrArg (List.map Snapshot.point) hshown
    rw [List.map_cons, List.map_append, hfirst] at hpoints
    rw [← hz, ← hy]
    exact hpoints
  · rw [hiff]
    exact (Offer.tolerances ho).leadsOn_iff hz hy (Except.ok.inj hqz).symm (Except.ok.inj hqy).symm

/-- With a limit to its steps, a run on a quadratic returns. -/
theorem limited_quadratic_returns (ho : (o.method : Method ℝ).usesLineSearch = true) (name : String)
    (a : Square ℝ n) (b x : Vector ℝ n) (ledger : Ledger ℝ n) (threshold : ℝ) {limit horizon : Nat}
    (hlimit : 0 < limit) (hlong : limit ≤ horizon) (s : Solver (o.method : Method ℝ))
    (visit : Snapshot ℝ → Nat → σ → σ) (seen : σ) :
    ∃ r final, exec (solve { n, objective := Quadratic.objective name a b, ledger }
      { freeRun x (.shortGradient threshold (some limit)) with horizon } visit) (s, seen) =
        (.ok r, final) := by
  have hplain := Criterion.plain_gradientNorm (R := ℝ) threshold
  exact default_run_returns (Offer.hasCriterion_along ho) (Quadratic.objective_total name a b) rfl
    (hplain.limits_join limit) (hplain.fits_limited (.gradientNorm threshold) limit) hlimit hlong
    (freeRun_accepted s x _) rfl visit seen

/-- A symmetric positive definite matrix and a vector make a problem. On it a run from the minimum,
along lines and with the defaults, makes one step and ends without success, whatever its criterion is
and though the gradient there is zero: the start is never asked about. A run from anywhere that
succeeds has made a step, and then the gradient is short at its last point, or the limit of steps is
reached. However short the gradient is where it starts, a run that returns succeeds exactly if its last
step makes progress; and it returns if its steps are limited. -/
theorem quadratic_success (ho : (o.method : Method ℝ).usesLineSearch = true) (hn : n ≠ 0)
    (ha : a.toMatrix.PosDef) (b : Vector ℝ n) (start? : Option (Tensor ℝ)) (key : String) :
    ∃ p f, Quadratic.problem? (Tensor.ofRows n (a.toArray.map Vector.toArray))
        (some (Tensor.ofVector b)) start? key = .ok p ∧ p.subject? = .ok f ∧
      ∀ (s : Solver (o.method : Method ℝ)) (σ : Type) (visit : Snapshot ℝ → Nat → σ → σ) (seen : σ)
        (x : Vector ℝ n),
        (a.mulVec x = b → ∀ c, ∃ r final, exec (solve f (freeRun x c) visit) (s, seen) = (.ok r, final) ∧
          r.status = .noProgress ∧ r.iterations = 1 ∧ r.final.point = x.toArray ∧
          norm (Quadratic.gradient a b x) = 0) ∧
        (∀ threshold limit? r final,
          exec (solve f (freeRun x (.shortGradient threshold limit?)) visit) (s, seen) =
            (.ok r, final) →
          r.status = .success →
          1 ≤ r.iterations ∧ ∃ y : Vector ℝ n, r.final.point = y.toArray ∧
            (norm (Quadratic.gradient a b y) < threshold ∨ ∃ limit ∈ limit?, limit ≤ r.iterations)) ∧
        (∀ c horizon r final,
          exec (solve f { freeRun x c with horizon } visit) (s, seen) = (.ok r, final) →
          ∃ (earlier : List (Array ℝ)) (z y : Vector ℝ n),
            x.toArray :: r.history.toList.map Snapshot.point = earlier ++ [z.toArray, y.toArray] ∧
            (r.status = .success ↔ MakesProgress (Quadratic.value a b) z y)) ∧
        ∀ threshold limit horizon, 0 < limit → limit ≤ horizon →
          ∃ r final,
            exec (solve f { freeRun x (.shortGradient threshold (some limit)) with horizon } visit)
              (s, seen) = (.ok r, final) := by
  obtain ⟨-, p, hp, -, -, hsubject⟩ := Quadratic.problem?_posDef hn ha b start? key
  refine ⟨p, _, hp, hsubject, fun s σ visit seen x => ⟨fun hx c => ?_, ?_, ?_, ?_⟩⟩
  · obtain ⟨r, final, hrun, hstatus, hcount, hpoint, -⟩ :=
      exec_solve_from_minimum ho hx key {} c s visit seen
    refine ⟨r, final, hrun, hstatus, hcount, hpoint, ?_⟩
    rw [Quadratic.gradient_minimum hx, norm_zero]
  · intro threshold limit? r final hrun hsuccess
    obtain ⟨-, hcount, ⟨y, hy⟩, hholds⟩ := holds_of_success ho
      (Objective.respectsEquality_real _) rfl hrun hsuccess
    refine ⟨hcount, y, hy, ?_⟩
    have hread := Criterion.read_holds_shortGradient (f := Quadratic.objective key a b)
      (k := r.iterations) hy rfl threshold limit?
    rw [hread, norm_toVector] at hholds
    rcases Bool.or_eq_true_iff.mp (Except.ok.inj hholds) with hshort | hlimit
    · exact .inl (of_decide_eq_true hshort)
    · cases limit? with
      | none => cases hlimit
      | some limit => exact .inr ⟨limit, rfl, of_decide_eq_true hlimit⟩
  · intro c horizon r final hrun
    exact success_iff_makesProgress ho hrun
  · intro threshold limit horizon hlimit hlong
    exact limited_quadratic_returns ho key a b x {} threshold hlimit hlong s visit seen

noncomputable def doubled (n : Nat) : Square ℝ n := Square.scale 2 (Square.identity n)

theorem doubled_posDef (n : Nat) : (doubled n).toMatrix.PosDef := by
  rw [doubled, Square.toMatrix_scale, Square.toMatrix_identity]
  exact Matrix.PosDef.one.smul two_pos

theorem short_doubled : norm (Quadratic.gradient (doubled 2) 0 #v[1, 0]) = 2 := by
  have hgradient : Quadratic.gradient (doubled 2) 0 #v[1, 0] = #v[2, 0] := by
    refine ext_get ?_
    rw [Quadratic.gradient, get_sub, Square.get_mulVec, doubled, Square.toMatrix_scale,
      Square.toMatrix_identity]
    funext i
    fin_cases i <;> simp [get_eq_getElem]
  have hdot : dot (#v[2, 0] : Vector ℝ 2) #v[2, 0] = 2 ^ 2 := by
    rw [dot_real]
    norm_num [get_eq_getElem, dotProduct, Fin.sum_univ_two]
  rw [hgradient, Linear.norm, hdot]
  exact Real.sqrt_sq zero_le_two

/-- Newton's method, from the origin of the plane, and from beside it, where the gradient is short too:
one step, which is a success if it makes progress. -/
theorem origin_is_no_success :
    (Offer.newton.method : Method ℝ).usesLineSearch = true ∧ (doubled 2).toMatrix.PosDef ∧
      (doubled 2).mulVec 0 = 0 ∧ norm (Quadratic.gradient (doubled 2) 0 #v[1, 0]) < 3 ∧
      ∃ f : Subject ℝ,
        (∃ (r : Results ℝ) (final : Solver (Offer.newton.method : Method ℝ) × Unit),
          exec (solve f (freeRun (0 : Vector ℝ 2) (.gradientNorm 1)) fun _ _ _ => ())
            (new Offer.newton.method none, ()) = (.ok r, final) ∧
          r.status = .noProgress ∧ r.iterations = 1) ∧
        ∃ (r : Results ℝ) (final : Solver (Offer.newton.method : Method ℝ) × Unit)
          (z y : Vector ℝ 2),
          exec (solve f (freeRun (#v[1, 0] : Vector ℝ 2) (.shortGradient 3 (some 1))) fun _ _ _ => ())
            (new Offer.newton.method none, ()) = (.ok r, final) ∧
          (r.status = .success ↔ MakesProgress (Quadratic.value (doubled 2) 0) z y) := by
  obtain ⟨p, f, -, -, hruns⟩ := quadratic_success (o := .newton) rfl two_ne_zero (doubled_posDef 2)
    (0 : Vector ℝ 2) none "bowl"
  obtain ⟨hrests, -⟩ := hruns (new Offer.newton.method none) Unit (fun _ _ _ => ()) () 0
  obtain ⟨-, -, hends, hreturns⟩ :=
    hruns (new Offer.newton.method none) Unit (fun _ _ _ => ()) () #v[1, 0]
  obtain ⟨r, final, hrun, hstatus, hcount, -⟩ := hrests (doubled 2).mulVec_zero (.gradientNorm 1)
  obtain ⟨r', final', hrun'⟩ := hreturns 3 1 (freeRun (0 : Vector ℝ 2) (.gradientNorm 1)).horizon
    Nat.one_pos (by decide)
  obtain ⟨-, z, y, -, hsuccess⟩ := hends _ _ r' final' hrun'
  refine ⟨rfl, doubled_posDef 2, (doubled 2).mulVec_zero, ?_, f,
    ⟨r, final, hrun, hstatus, hcount⟩, r', final', z, y, hrun', hsuccess⟩
  rw [short_doubled]
  norm_num

/-- Steepest descent on the square of a number, from its minimum: the gradient is shorter than the
threshold, and the run is no success. -/
theorem short_gradient_without_success :
    (doubled 1).toMatrix.PosDef ∧ norm (Quadratic.gradient (doubled 1) 0 0) < (1e-3 : ℝ) ∧
      ∃ p f r final,
        Quadratic.problem? (Tensor.ofRows 1 ((doubled 1).toArray.map Vector.toArray))
          (some (Tensor.ofVector (0 : Vector ℝ 1))) none "sphere1" = .ok p ∧ p.subject? = .ok f ∧
        exec (solve f (freeRun (0 : Vector ℝ 1) (.gradientNorm 1e-3)) fun _ _ _ => ())
          (new SteepestDescent.method none, ()) = (.ok r, final) ∧
        ¬ r.status = .success := by
  have hrest := (doubled 1).mulVec_zero
  obtain ⟨-, p, hp, -, -, hsubject⟩ :=
    Quadratic.problem?_posDef one_ne_zero (doubled_posDef 1) 0 none "sphere1"
  obtain ⟨r, final, hrun, hstatus, -⟩ :=
    exec_solve_from_minimum (o := .steepestDescent) rfl hrest "sphere1" {}
      (.gradientNorm 1e-3) (new SteepestDescent.method none) (fun _ _ _ => ()) ()
  refine ⟨doubled_posDef 1, ?_, p, _, r, final, hp, hsubject, hrun, by rw [hstatus]; nofun⟩
  rw [Quadratic.gradient_minimum hrest, norm_zero]
  norm_num

end Solver

end Minima
