import Minima.Proofs.QuadraticForms
import Minima.Proofs.FixedSteps
import Minima.Proofs.RestingStarts

/-!
# Fixed steps come to the minimum of a quadratic

If the curvature is positive in every direction and less than two over the step, each step of gradient
descent lowers the value by a fixed multiple of the square of the gradient. The value is bounded below,
so the gradient gets shorter than any threshold. A run without constraints makes these steps until that
has happened, unless the limit of steps is reached before or the bounds are left.
-/

namespace Minima

open Linear Matrix

variable {n : Nat} {a : Square ℝ n} {b x : Vector ℝ n} {h tol : ℝ}

namespace Quadratic

/-! ## Steps along the negative gradient -/

/-- The step `h` suits the curvature of a quadratic: in every direction it is positive and less than
`2 / h`. -/
structure Suits (h : ℝ) (a : Square ℝ n) : Prop where
  symmetric : a.toMatrix.IsSymm
  positive : ∀ v ≠ 0, 0 < h * (v ⬝ᵥ a.toMatrix *ᵥ v)
  bounded : ∀ v ≠ 0, h * (v ⬝ᵥ a.toMatrix *ᵥ v) < 2 * (v ⬝ᵥ v)

noncomputable def stepped (h : ℝ) (a : Square ℝ n) (b x : Vector ℝ n) : Vector ℝ n :=
  x - h * gradient a b x

theorem posDef_of_suits (ha : Suits h a) (hh : 0 < h) : a.toMatrix.PosDef := by
  refine .of_dotProduct_mulVec_pos ha.symmetric fun v hv => ?_
  rw [star_trivial]
  exact pos_of_mul_pos_right (ha.positive v hv) hh.le

/-- What is left of the slope on a step: the gradient before it and the one after it. -/
noncomputable def slack (h : ℝ) (a : Square ℝ n) : Matrix (Fin n) (Fin n) ℝ :=
  1 + (1 - h • a.toMatrix)

theorem form_slack (h : ℝ) (a : Square ℝ n) (v : Fin n → ℝ) :
    v ⬝ᵥ slack h a *ᵥ v = 2 * (v ⬝ᵥ v) - h * (v ⬝ᵥ a.toMatrix *ᵥ v) := by
  simp only [slack, add_mulVec, sub_mulVec, smul_mulVec, one_mulVec, dotProduct_add, dotProduct_sub,
    dotProduct_smul, smul_eq_mul]
  ring

/-- A step lowers the value by half of what is left of its slope. -/
theorem value_stepped (ha : a.toMatrix.IsSymm) (h : ℝ) (b x : Vector ℝ n) :
    value a b (stepped h a b x) = value a b x -
      h / 2 * ((gradient a b x).get ⬝ᵥ slack h a *ᵥ (gradient a b x).get) := by
  have hstep : stepped h a b x = x + -(h * gradient a b x) :=
    ext_get (by rw [stepped, get_sub, get_add, get_neg, sub_eq_add_neg])
  rw [hstep, value_add ha, form_slack, get_neg, get_smul]
  simp only [mulVec_neg, mulVec_smul, neg_dotProduct, dotProduct_neg, smul_dotProduct,
    dotProduct_smul, smul_eq_mul]
  ring

/-- The value falls by at least a fixed multiple of the square of the gradient. -/
theorem exists_descent (ha : Suits h a) (hh : 0 < h) (b : Vector ℝ n) :
    ∃ c > 0, ∀ x, value a b (stepped h a b x) ≤
      value a b x - c * ((gradient a b x).get ⬝ᵥ (gradient a b x).get) := by
  have hpositive : ∀ v ≠ 0, 0 < v ⬝ᵥ slack h a *ᵥ v := by
    intro v hv
    rw [form_slack]
    exact sub_pos.mpr (ha.bounded v hv)
  obtain ⟨c, hc, hform⟩ := exists_le_form hpositive
  refine ⟨h / 2 * c, by positivity, fun x => ?_⟩
  rw [value_stepped ha.symmetric, mul_assoc]
  have hle := mul_le_mul_of_nonneg_left (hform (gradient a b x).get) (by positivity : 0 ≤ h / 2)
  linarith

theorem stepped_falls (ha : Suits h a) (hh : 0 < h) (hx : gradient a b x ≠ 0) :
    value a b (stepped h a b x) < value a b x := by
  obtain ⟨c, hc, hdescent⟩ := exists_descent ha hh b
  have hlength : 0 < (gradient a b x).get ⬝ᵥ (gradient a b x).get :=
    (dotProduct_star_self_nonneg _).lt_of_ne' fun hzero =>
      hx (get_eq_zero_iff.mp (dotProduct_self_eq_zero.mp hzero))
  have hle := hdescent x
  have hfall := mul_pos hc hlength
  linarith

theorem stepped_of_flat (hx : gradient a b x = 0) : stepped h a b x = x :=
  ext_get (by rw [stepped, hx, get_sub, get_smul, get_zero, smul_zero, sub_zero])

/-- A step that does not lower the value was made where the gradient vanishes. -/
theorem flat_of_not_falls (ha : Suits h a) (hh : 0 < h)
    (hx : ¬ value a b (stepped h a b x) < value a b x) : gradient a b (stepped h a b x) = 0 := by
  have hflat : gradient a b x = 0 := by
    by_contra hslope
    exact hx (stepped_falls ha hh hslope)
  rw [stepped_of_flat hflat, hflat]

/-- While the gradient is long, each step lowers the value by the same amount at least. -/
theorem value_iterate_le {c : ℝ} (hc : 0 < c) (htol : 0 < tol)
    (hdescent : ∀ x, value a b (stepped h a b x) ≤
      value a b x - c * ((gradient a b x).get ⬝ᵥ (gradient a b x).get))
    (hlong : ∀ k, 1 ≤ k → tol ≤ norm (gradient a b ((stepped h a b)^[k] x))) (k : ℕ) :
    value a b ((stepped h a b)^[k + 1] x) ≤ value a b (stepped h a b x) - k * (c * tol ^ 2) := by
  induction k with
  | zero => simp
  | succ k ih =>
      have hstep := hdescent ((stepped h a b)^[k + 1] x)
      have hlength := hlong (k + 1) (Nat.le_add_left 1 k)
      rw [Linear.norm, dot_real] at hlength
      have hsquare := mul_le_mul_of_nonneg_left ((Real.le_sqrt' htol).mp hlength) hc.le
      rw [Function.iterate_succ_apply']
      push_cast
      linarith

/-- After enough steps, and at least one, the gradient is short: the value is bounded below. -/
theorem exists_short (ha : Suits h a) (hh : 0 < h) (htol : 0 < tol) (b x : Vector ℝ n) :
    ∃ k, 1 ≤ k ∧ norm (gradient a b ((stepped h a b)^[k] x)) < tol := by
  by_contra hlong
  push Not at hlong
  obtain ⟨c, hc, hdescent⟩ := exists_descent ha hh b
  obtain ⟨least, -, hleast⟩ := solve?_isUnit (posDef_of_suits ha hh).isUnit b
  obtain ⟨k, hk⟩ := exists_nat_gt
    ((value a b (stepped h a b x) - value a b least) / (c * tol ^ 2))
  rw [div_lt_iff₀ (by positivity)] at hk
  have hbound := value_minimum_le (posDef_of_suits ha hh).posSemidef hleast
    ((stepped h a b)^[k + 1] x)
  linarith [value_iterate_le hc htol hdescent hlong k]

end Quadratic

namespace GradientDescent

open Quadratic Dialogue Solver

/-! ## Steps of the method -/

section

variable {R : Type} [Scalar R] {s : Situation R n} {it : Iterate R n} {h value : R}
  {g : Vector R n} {count : Nat} {status : Status}
  {answer : (q : Question R n) → Attempt R (Answer q)}

def moved (s : Situation R n) (it : Iterate R n) (h value : R) (g : Vector R n) : Iterate R n :=
  let x := s.region.project (it.point - h * it.gradient)
  { value, point := x, gradient := g, alpha := h, step := Linear.norm (x - it.point) }

theorem read_step (hsize : s.options.real "step_size" = .ok h)
    (hvalue : answer (.value (s.region.project (it.point - h * it.gradient))) = .ok value)
    (hgradient : answer (.gradient (s.region.project (it.point - h * it.gradient))) = .ok g)
    (hjudge : judge s.options count it (moved s it h value g) = .ok status) :
    (step s count it).read answer = .ok (moved s it h value g, status) := by
  refine (read_lift_bind hsize).trans ?_
  refine (read_question_bind hvalue).trans ((read_question_bind hgradient).trans ?_)
  exact read_lift_bind hjudge

end

section

variable {options : Options ℝ} {limit count : Nat} {old new : Iterate ℝ n}

theorem judge_real (htol : options.real "grad_tol" = .ok tol)
    (hlimit : options.whole "max_iter" = .ok (limit : Int)) :
    judge options count old new = .ok (if norm new.gradient < tol then .success
      else if ¬ new.value < old.value ∨ limit ≤ count + 1 then .noProgress else .running) := by
  unfold judge
  rw [htol, Attempt.ok_bind]
  by_cases hshort : norm new.gradient < tol
  · rw [if_pos hshort, if_pos hshort]
    rfl
  rw [if_neg hshort, if_neg hshort]
  by_cases hfalls : new.value < old.value
  · have hcast : (limit : Int) ≤ ((count + 1 : Nat) : Int) ↔ limit ≤ count + 1 := Int.ofNat_le
    simp only [hfalls, not_true, false_and, if_false, hlimit, Attempt.ok_bind, hcast, false_or]
    split <;> rfl
  · simp [hfalls]
    rfl

end

/-! ## Iterates on a quadratic -/

/-- The iterates of a run with the step `h` from `x`. -/
noncomputable def path (h : ℝ) (a : Square ℝ n) (b x : Vector ℝ n) : Nat → Iterate ℝ n
  | 0 => { value := value a b x, point := x, gradient := gradient a b x, alpha := 0.0, step := 0.0 }
  | k + 1 =>
    let y := (path h a b x k).point
    { value := value a b (stepped h a b y), point := stepped h a b y
      gradient := gradient a b (stepped h a b y), alpha := h, step := Linear.norm (stepped h a b y - y) }

theorem value_path (h : ℝ) (a : Square ℝ n) (b x : Vector ℝ n) (k : Nat) :
    (path h a b x k).value = value a b (path h a b x k).point := by
  cases k <;> rfl

theorem gradient_path (h : ℝ) (a : Square ℝ n) (b x : Vector ℝ n) (k : Nat) :
    (path h a b x k).gradient = gradient a b (path h a b x k).point := by
  cases k <;> rfl

theorem point_path (h : ℝ) (a : Square ℝ n) (b x : Vector ℝ n) (k : Nat) :
    (path h a b x k).point = (stepped h a b)^[k] x := by
  induction k with
  | zero => rfl
  | succ k ih => rw [Function.iterate_succ_apply', ← ih, path]

/-- How an iterate is judged that `count` steps have led to: by its gradient, and then by the limit. -/
noncomputable def verdict (tol : ℝ) (limit count : Nat) (it : Iterate ℝ n) : Status :=
  if Linear.norm it.gradient < tol then .success else if limit ≤ count then .noProgress else .running

structure Sets (acc : Accepted ℝ n) (h tol : ℝ) (limit : Nat) : Prop where
  region : acc.region = .everywhere
  size : acc.options.real "step_size" = .ok h
  threshold : acc.options.real "grad_tol" = .ok tol
  count : acc.options.whole "max_iter" = .ok (limit : Int)
  size_pos : 0 < h
  threshold_pos : 0 < tol
  count_pos : 0 < limit
  bounds : ∀ key ∈ ["max_x_norm", "max_abs_f"], acc.options.InRange .positive key

theorem exists_sets {s : Solver (method : Method ℝ)} {order : Order ℝ} {acc : Accepted ℝ n}
    (hacc : s.acceptOrder n order = .ok acc) (hfree : order.constraints = .free)
    (hsize : acc.options.real "step_size" = .ok h) : ∃ tol limit, Sets acc h tol limit := by
  have haccept := accept_of_acceptOrder hacc
  have hbounds := bounds_of_accept haccept
  obtain ⟨⟨h', hsize', hpos⟩, ⟨tol, htol, htolpos⟩, i, hlimit, hi⟩ :=
    validate_eq_ok_iff.mp (validate_of_accept haccept)
  obtain rfl : h = h' := Except.ok.inj (hsize.symm.trans hsize')
  obtain ⟨limit, rfl⟩ := Int.eq_ofNat_of_zero_le hi.le
  exact ⟨tol, limit, everywhere_of_accept haccept hfree, hsize, htol, hlimit,
    by simpa [OptionRange.covers, RealScalar.zero_literal] using hpos,
    by simpa [OptionRange.covers, RealScalar.zero_literal] using htolpos,
    Int.natCast_pos.mp hi, hbounds⟩

variable {acc : Accepted ℝ n} {limit k : Nat}

theorem read_start (hacc : Sets acc h tol limit) (name : String) (a : Square ℝ n) (b : Vector ℝ n) :
    ((method : Method ℝ).start (acc.situation name) (acc.region.project acc.start)).read
      (Ledger.plainAnswer (objective name a b)) = .ok (.state (path h a b acc.start 0)) := by
  rw [hacc.region]
  exact read_bind_of_ok ((read_question_bind rfl).trans
    (read_question_bind (plainAnswer_gradient name a b acc.start)))

/-- No step is judged to fail to lower the value: where it does not, the gradient vanishes. -/
theorem judge_path (ha : Suits h a) (hacc : Sets acc h tol limit) (b : Vector ℝ n) (k : Nat) :
    judge acc.options k (path h a b acc.start k) (path h a b acc.start (k + 1)) =
      .ok (verdict tol limit (k + 1) (path h a b acc.start (k + 1))) := by
  rw [judge_real hacc.threshold hacc.count, verdict]
  by_cases hfalls : (path h a b acc.start (k + 1)).value < (path h a b acc.start k).value
  · simp only [hfalls, not_true, false_or]
  · have hflat : (path h a b acc.start (k + 1)).gradient = 0 := by
      rw [value_path, value_path] at hfalls
      exact flat_of_not_falls ha hacc.size_pos hfalls
    rw [hflat, Linear.norm_zero, if_pos hacc.threshold_pos, if_pos hacc.threshold_pos]

theorem read_step_path (ha : Suits h a) (hacc : Sets acc h tol limit) (name : String)
    (b : Vector ℝ n) (k : Nat) :
    ((method : Method ℝ).step (acc.situation name) k (path h a b acc.start k)).read
      (Ledger.plainAnswer (objective name a b)) = .ok (.state (path h a b acc.start (k + 1)),
        verdict tol limit (k + 1) (path h a b acc.start (k + 1))) := by
  have hjudge := judge_path ha hacc b k
  have hnext : (acc.situation name).region.project
      ((path h a b acc.start k).point - h * (path h a b acc.start k).gradient) =
      stepped h a b (path h a b acc.start k).point := by
    show acc.region.project _ = _
    rw [hacc.region, gradient_path]
    rfl
  have hmoved : moved (acc.situation name) (path h a b acc.start k) h
      (path h a b acc.start (k + 1)).value (path h a b acc.start (k + 1)).gradient =
      path h a b acc.start (k + 1) := by
    rw [moved, hnext]
    rfl
  rw [← hmoved] at hjudge
  have hvalue : Ledger.plainAnswer (objective name a b) (.value ((acc.situation name).region.project
      ((path h a b acc.start k).point - h * (path h a b acc.start k).gradient))) =
      .ok (path h a b acc.start (k + 1)).value := by
    rw [hnext]
    rfl
  have hgradient : Ledger.plainAnswer (objective name a b)
      (.gradient ((acc.situation name).region.project
        ((path h a b acc.start k).point - h * (path h a b acc.start k).gradient))) =
      .ok (path h a b acc.start (k + 1)).gradient := by
    rw [hnext]
    exact plainAnswer_gradient name a b _
  have hread := read_step hacc.size hvalue hgradient hjudge
  rw [hmoved] at hread
  exact read_bind_of_ok hread

/-! ## Runs on a quadratic -/

/-- The gradient is short after `k` steps, and at least one, for the first time. -/
abbrev FirstShort (h tol : ℝ) (a : Square ℝ n) (b x : Vector ℝ n) (k : Nat) : Prop :=
  IsLeast {k | 1 ≤ k ∧ Linear.norm (gradient a b ((stepped h a b)^[k] x)) < tol} k

/-- How a run ends that has made `count` steps to `v`: in success when the gradient is short for the
first time, without progress at the limit before that, and otherwise out of control where the bounds
are left before either. -/
inductive EndsWith (options : Options ℝ) (limit first count : Nat) (v : Snapshot ℝ) : Status → Prop
  | success (h : count = first) (hlimit : first ≤ limit) : EndsWith options limit first count v .success
  | limit (h : count = limit) (hfirst : limit < first) :
      EndsWith options limit first count v .noProgress
  | bounds (h : count < min first limit) (hv : ¬ v.WithinBounds options) :
      EndsWith options limit first count v .outOfControl

section

variable {first : Nat}

theorem norm_path_lt_iff :
    Linear.norm (path h a b x k).gradient < tol ↔
      Linear.norm (gradient a b ((stepped h a b)^[k] x)) < tol := by
  rw [gradient_path, point_path]

theorem FirstShort.long_before (hfirst : FirstShort h tol a b x first) (hk : k + 1 < first) :
    ¬ Linear.norm (path h a b x (k + 1)).gradient < tol := by
  rw [norm_path_lt_iff]
  intro hshort
  have hle := hfirst.2 ⟨Nat.le_add_left 1 k, hshort⟩
  omega

theorem FirstShort.verdict_first (hfirst : FirstShort h tol a b x first) (hk : k + 1 = first) :
    verdict tol limit (k + 1) (path h a b x (k + 1)) = .success := by
  have hshort : Linear.norm (path h a b x (k + 1)).gradient < tol := by
    rw [norm_path_lt_iff, hk]
    exact hfirst.1.2
  exact if_pos hshort

theorem FirstShort.verdict_limit (hfirst : FirstShort h tol a b x first) (hlimit : limit < first)
    (hk : k + 1 = limit) : verdict tol limit (k + 1) (path h a b x (k + 1)) = .noProgress := by
  rw [verdict, if_neg (hfirst.long_before (by omega)), if_pos hk.ge]

theorem FirstShort.verdict_before (hfirst : FirstShort h tol a b x first)
    (hk : k + 1 < min first limit) : verdict tol limit (k + 1) (path h a b x (k + 1)) = .running := by
  rw [verdict, if_neg (hfirst.long_before (by omega)), if_neg (by omega)]

noncomputable abbrev pathView (h : ℝ) (a : Square ℝ n) (b x : Vector ℝ n) (k : Nat) : Snapshot ℝ :=
  (method : Method ℝ).view (path h a b x k)

variable {name : String} {ledger : Ledger ℝ n} {last : Nat} {status : Status}

theorem readsStep_path (ha : Suits h a) (hacc : Sets acc h tol limit)
    (hclass : classify acc.options (pathView h a b acc.start (k + 1))
      (verdict tol limit (k + 1) (path h a b acc.start (k + 1))) = .ok status) :
    ReadsStep (m := (method : Method ℝ)) (subject name a b ledger) acc k
      (path h a b acc.start k) (path h a b acc.start (k + 1)) status :=
  ⟨_, read_step_path ha hacc name b k, hclass⟩

/-- Within the bounds, and before the gradient is short or the limit is reached, the run is read up to
a step that ends it. -/
theorem readsRun_path (ha : Suits h a) (hacc : Sets acc h tol limit)
    (hfirst : FirstShort h tol a b acc.start first) (hlast : last < min first limit)
    (hwithin : ∀ k < last, (pathView h a b acc.start (k + 1)).WithinBounds acc.options)
    (hclass : classify acc.options (pathView h a b acc.start (last + 1))
      (verdict tol limit (last + 1) (path h a b acc.start (last + 1))) = .ok status)
    (hend : status.isTerminal = true) :
    ReadsRun (m := (method : Method ℝ)) (subject name a b ledger) acc none (path h a b acc.start)
      last status := by
  refine ⟨fun k hk => readsStep_path ha hacc ?_, nofun, readsStep_path ha hacc hclass, hend⟩
  rw [hfirst.verdict_before (by omega), classify_of_within (hwithin k hk)]

/-- There is such a step: it leaves the bounds, or the gradient is short or the limit is reached. -/
theorem exists_readsRun (ha : Suits h a) (hacc : Sets acc h tol limit) (name : String)
    (ledger : Ledger ℝ n) (hfirst : FirstShort h tol a b acc.start first) :
    ∃ last status, last < min first limit ∧
      ReadsRun (m := (method : Method ℝ)) (subject name a b ledger) acc none
        (path h a b acc.start) last status ∧
      EndsWith acc.options limit first (last + 1) (pathView h a b acc.start (last + 1)) status := by
  by_cases hleaves : ∃ k, k + 1 < min first limit ∧
      ¬ (pathView h a b acc.start (k + 1)).WithinBounds acc.options
  · classical
    obtain ⟨hlast, hbeyond⟩ := Nat.find_spec hleaves
    refine ⟨Nat.find hleaves, .outOfControl, by omega, ?_, .bounds hlast hbeyond⟩
    refine readsRun_path ha hacc hfirst (by omega) (fun k hk => ?_) ?_ rfl
    · by_contra hv
      exact Nat.find_min hleaves hk ⟨by omega, hv⟩
    · rw [hfirst.verdict_before hlast, classify_of_beyond hacc.bounds hbeyond]
  · push Not at hleaves
    have hone := hfirst.1.1
    have hlimit := hacc.count_pos
    obtain ⟨last, hlast⟩ : ∃ last, last + 1 = min first limit := ⟨min first limit - 1, by omega⟩
    have hfinite := Snapshot.isFinite_real (pathView h a b acc.start (last + 1))
    have hwithin : ∀ k < last, (pathView h a b acc.start (k + 1)).WithinBounds acc.options :=
      fun k hk => hleaves k (by omega)
    rcases Nat.lt_or_ge limit first with hwhich | hwhich
    · have hverdict := hfirst.verdict_limit hwhich (by omega : last + 1 = limit)
      refine ⟨last, .noProgress, by omega, ?_, .limit (by omega) hwhich⟩
      exact readsRun_path ha hacc hfirst (by omega) hwithin
        (by rw [hverdict]; exact classify_ended hfinite nofun) rfl
    · have hverdict : verdict tol limit (last + 1) (path h a b acc.start (last + 1)) = .success :=
        hfirst.verdict_first (by omega)
      refine ⟨last, .success, by omega, ?_, .success (by omega) hwhich⟩
      exact readsRun_path ha hacc hfirst (by omega) hwithin
        (by rw [hverdict]; exact classify_ended hfinite nofun) rfl

end

theorem suits_doubled (n : Nat) : Suits 0.1 (doubled n) := by
  have hform (v : Fin n → ℝ) : v ⬝ᵥ (doubled n).toMatrix *ᵥ v = 2 * (v ⬝ᵥ v) := by
    simp [doubled, smul_mulVec]
  have hpositive {v : Fin n → ℝ} (hv : v ≠ 0) : 0 < v ⬝ᵥ v := dotProduct_self_star_pos_iff.mpr hv
  refine ⟨(doubled_posDef n).isHermitian, fun v hv => ?_, fun v hv => ?_⟩
  · rw [hform]
    linarith [hpositive hv]
  · rw [hform]
    linarith [hpositive hv]

/-- Gradient descent on a quadratic without constraints, with a step that suits the curvature. From
wherever the gradient does not vanish a step lowers the value. After some number of steps, at least
one, the gradient is shorter than the threshold. A run shows the iterates one after the other, and it
ends in success when that is so for the first time. Without progress it ends only where the limit is
less than that number, and otherwise only where the bounds are left. -/
theorem quadratic_run_succeeds {s : Solver (method : Method ℝ)} {order : Order ℝ}
    {acc : Accepted ℝ n} {a : Square ℝ n} {h : ℝ} (hacc : s.acceptOrder n order = .ok acc)
    (hfree : order.constraints = .free) (hsize : acc.options.real "step_size" = .ok h)
    (ha : Suits h a) (b : Vector ℝ n) (name : String) (ledger : Ledger ℝ n) :
    ∃ tol limit first, acc.options.real "grad_tol" = .ok tol ∧ 0 < tol ∧
      acc.options.whole "max_iter" = .ok ((limit : Nat) : Int) ∧
      FirstShort h tol a b acc.start first ∧
      (∀ x, gradient a b x ≠ 0 → value a b (stepped h a b x) < value a b x) ∧
      ∀ (σ : Type) (visit : Snapshot ℝ → Nat → σ → σ) (seen : σ), min first limit ≤ order.horizon →
        ∃ s₀ r final, exec (setUp (subject name a b ledger) order.toConfiguration) s =
            (.ok (pathView h a b acc.start 0), s₀) ∧
          exec (solve (subject name a b ledger) order visit) (s, seen) = (.ok r, final) ∧
          r.history.toList = (List.range' 1 r.iterations).map (pathView h a b acc.start) ∧
          EndsWith acc.options limit first r.iterations r.final r.status := by
  obtain ⟨tol, limit, hsets⟩ := exists_sets hacc hfree hsize
  have hexists := exists_short ha hsets.size_pos hsets.threshold_pos b acc.start
  classical
  have hfirst : FirstShort h tol a b acc.start (Nat.find hexists) :=
    ⟨Nat.find_spec hexists, fun k hk => Nat.find_min' hexists hk⟩
  refine ⟨tol, limit, Nat.find hexists, hsets.threshold, hsets.threshold_pos, hsets.count, hfirst,
    fun x hx => stepped_falls ha hsets.size_pos hx, fun σ visit seen hhorizon => ?_⟩
  obtain ⟨last, status, hlast, hreads, hends⟩ := exists_readsRun ha hsets name ledger hfirst
  obtain ⟨s₀, r, final, hl, hrun, rfl, hcount, hfinal, hhistory⟩ :=
    exec_solve_of_reads (Objective.respectsEquality_real _) (f := subject name a b ledger) hacc
      (by omega) (read_start hsets name a b) (Snapshot.isFinite_real _) hreads visit seen
  have hset : exec (setUp (subject name a b ledger) order.toConfiguration) s =
      (.ok (pathView h a b acc.start 0), s₀) :=
    (exec_setUp_of_accept (accept_of_acceptOrder hacc)).trans hl
  rw [← hcount] at hhistory
  rw [pathView, ← hfinal, ← hcount] at hends
  exact ⟨s₀, r, final, hset, hrun, hhistory, hends⟩

/-- On the sum of two squares the default step is suitable. -/
theorem bowl_run_ends :
    (new (method : Method ℝ) none).acceptOrder 2 { toConfiguration := onSaddle } =
      .ok (saddleAccepted .gradientDescent) ∧
      onSaddle.constraints = .free ∧
      (saddleAccepted .gradientDescent).options.real "step_size" = .ok 0.1 ∧
      Suits 0.1 (doubled 2) ∧
      ∃ first r final, FirstShort 0.1 1e-6 (doubled 2) 0 #v[1, -1] first ∧
        exec (solve (subject "bowl" (doubled 2) 0 {}) { toConfiguration := onSaddle } fun _ _ _ => ())
          (new method none, ()) = (.ok r, final) ∧
        EndsWith (method : Method ℝ).defaults 100000 first r.iterations r.final r.status := by
  have hacc : (new (method : Method ℝ) none).acceptOrder 2 { toConfiguration := onSaddle } =
      .ok (saddleAccepted .gradientDescent) := onSaddle_accepted .gradientDescent _
  obtain ⟨tol, limit, first, htol, -, hlimit, hfirst, -, hruns⟩ :=
    quadratic_run_succeeds hacc rfl rfl (suits_doubled 2) 0 "bowl" {}
  obtain rfl : 1e-6 = tol := Except.ok.inj htol
  obtain rfl : 100000 = limit := Int.ofNat.inj (Except.ok.inj hlimit)
  have hhorizon : min first 100000 ≤ ({ toConfiguration := onSaddle } : Order ℝ).horizon :=
    (min_le_right _ _).trans (by simp)
  obtain ⟨-, r, final, -, hrun, -, hends⟩ := hruns Unit (fun _ _ _ => ()) () hhorizon
  exact ⟨hacc, rfl, rfl, suits_doubled 2, first, r, final, hfirst, hrun, hends⟩

end GradientDescent

end Minima
