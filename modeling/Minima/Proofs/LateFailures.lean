import Minima.Proofs.FirstTrials
import Minima.Proofs.ReadRuns

/-!
# A misfit shows late

A criterion that measures the distance from a minimum compares the dimensions only when it is asked,
and it is asked after a step has been made and shown. So a run whose minimum has another dimension
than its objective is accepted, makes its first step and fails then.
-/

namespace Minima.Solver

section

variable {R : Type} [Scalar R] {m : Method R} {σ : Type}

theorem stopIfHolds_misfit {s : Solver m} {t : Task R} {v : Snapshot R} (ht : s.task? = some t)
    (hv : s.snapshot? = some v) {minimum : Array R} (threshold : R) (relative : Bool)
    (hsize : v.point.size ≠ minimum.size) :
    ∃ s', exec (stopIfHolds (.pointDistance minimum threshold relative)) s =
      (.error (.configuration (.minimumShape [minimum.size] [v.point.size])), s') ∧
      s'.bare = s.bare := by
  have hgap : Criterion.pointGap minimum relative v.point =
      .error (.configuration (.minimumShape [minimum.size] [v.point.size])) := dif_neg hsize
  have hbare := keeps_bare_gauge
    ((Criterion.pointDistance minimum threshold relative).holds v s.iterations) s
  have hgauge := exec_gauge ht
    ((Criterion.pointDistance minimum threshold relative).holds v s.iterations)
  rw [Criterion.holds, hgap] at hgauge hbare
  rw [exec_stopIfHolds hv, Criterion.holds, hgap, hgauge]
  rw [hgauge] at hbare
  exact ⟨_, rfl, hbare⟩

/-- In a run that is accepted, a minimum of another dimension than the points fails the first turn
that goes on, after its step has been made and shown to the watcher. -/
theorem misfit_fails_after_step {f : Subject R} {a : Accepted R f.n} {order : Order R}
    {w : Watcher R σ} {s : Solver m} {seen : σ} {turns : List (Turn m σ)} {t : Turn m σ}
    (ha : s.acceptOrder f.n order = .ok a) (hreach : Reaches f a order w (s, seen) turns t.before)
    (hlength : turns.length < order.horizon) (hw : t.Happens w) (hrun : t.status = .running)
    {minimum : Array R} {threshold : R} {relative : Bool}
    (hc : asked? m order = some (.pointDistance minimum threshold relative))
    (hsize : t.view.point.size ≠ minimum.size) :
    ∃ s', exec (solveWatched f order w) (s, seen) =
        (.error (.configuration (.minimumShape [minimum.size] [t.view.point.size])),
          s', t.after.2) ∧
      s'.iterations = turns.length + 1 := by
  obtain ⟨-, -, -, hcount, _, _, _, _, -, -, -, htask, -⟩ := exec_iterate_ok hw.step
  have hsome : t.after.1.task?.isSome = true := by
    rw [isSome_task?_of_bare hw.bare_after, htask]
    rfl
  obtain ⟨t', ht'⟩ := Option.isSome_iff_exists.mp hsome
  obtain ⟨hlive, hsame⟩ := hw.snapshot_after
  obtain ⟨s', hstop, hbare⟩ := stopIfHolds_misfit ht' hlive threshold relative hsize
  refine ⟨s', ?_, ?_⟩
  · exact (exec_solveWatched_eq_error_iff ha).mpr
      (.inr ⟨turns, t.before, hreach, .inr ⟨hlength, .criterion hw hrun hc hstop⟩⟩)
  · rw [iterations_of_bare hbare, hsame, hcount, hreach.iterations_eq]

end

/-! ## Such a run -/

section

open Dialogue LineStep

theorem dot_line (x y : Vector ℝ 1) :
    Linear.dot x y = x.get ⟨0, Nat.one_pos⟩ * y.get ⟨0, Nat.one_pos⟩ := by
  have hvector : ∀ v : Vector ℝ 1, v = #v[v.get ⟨0, Nat.one_pos⟩] := by
    intro v
    ext i hi
    obtain rfl : i = 0 := by omega
    rfl
  rw [hvector x, hvector y]
  simp [Linear.dot, Linear.sum, Vector.foldl, Vector.zipWith, Vector.get]
  norm_num

theorem norm_line (x : Vector ℝ 1) : Linear.norm x = |x.get ⟨0, Nat.one_pos⟩| := by
  rw [Linear.norm, dot_line]
  exact Real.sqrt_mul_self_eq_abs _

structure AtFoot (it : Iterate ℝ 1) : Prop where
  value : it.value = 0
  point : it.point.get ⟨0, Nat.one_pos⟩ = 0
  gradient : it.gradient.get ⟨0, Nat.one_pos⟩ = 1

noncomputable def rampDefault : Accepted ℝ ramp.n :=
  rampAccepted (SteepestDescent.method : Method ℝ).defaults

noncomputable def rampSituation : Situation ℝ 1 := rampDefault.situation ramp.objective.name

theorem rampSituation_checked : Checked rampSituation.options := checked_defaults

variable {it : Iterate ℝ 1}

theorem ramp_slope (h : AtFoot it) : Linear.dot it.gradient (-it.gradient) = -1 := by
  have hneg : (-it.gradient).get ⟨0, Nat.one_pos⟩ = -it.gradient.get ⟨0, Nat.one_pos⟩ := by
    simp [Vector.get]
  rw [dot_line, hneg, h.gradient]
  norm_num

theorem ramp_along (h : AtFoot it) (alpha : ℝ) :
    (along rampSituation.region it.point (-it.gradient) alpha).get ⟨0, Nat.one_pos⟩ = -alpha := by
  have hmove : (it.point + alpha * (-it.gradient)).get ⟨0, Nat.one_pos⟩ =
      it.point.get ⟨0, Nat.one_pos⟩ + alpha * -it.gradient.get ⟨0, Nat.one_pos⟩ := by
    simp [Vector.get]
  refine hmove.trans ?_
  rw [h.point, h.gradient]
  norm_num

theorem ramp_goes_on (h : AtFoot it) (x : Vector ℝ 1) :
    stagnates rampSituation.options it x (-1) = .ok false := by
  have hchange : ¬ Scalar.abs (it.value - -1) ≤
      (1e-14 : ℝ) * Scalar.greater 1.0 (Scalar.abs it.value) := by
    rw [h.value]
    simp [Scalar.greater, Scalar.abs]
    norm_num
  show Except.ok (_ && decide (Scalar.abs (it.value - -1) ≤
    (1e-14 : ℝ) * Scalar.greater 1.0 (Scalar.abs it.value))) = _
  rw [decide_eq_false hchange, Bool.and_false]

/-- The first trial on the ramp is good: the step goes to minus one, and the run goes on. -/
theorem ramp_step (h : AtFoot it) :
    ∃ next : Iterate ℝ 1, (SteepestDescent.step rampSituation it).read
        (Ledger.plainAnswer (n := 1) ramp.objective) = .ok (next, .running) ∧
      next.value = -1 ∧ next.point.get ⟨0, Nat.one_pos⟩ = -1 := by
  have hpoint : (along rampSituation.region it.point (-it.gradient) 1.0).get ⟨0, Nat.one_pos⟩ =
      (-1 : ℝ) := by
    rw [ramp_along h]
    norm_num
  have hv : Ledger.plainAnswer (n := 1) ramp.objective
      (.value (along rampSituation.region it.point (-it.gradient) 1.0)) = .ok (-1) :=
    congrArg Except.ok hpoint
  have hsmall : (-1 : ℝ) ≤ it.value + 1e-4 * 1.0 * Linear.dot it.gradient (-it.gradient) := by
    rw [ramp_slope h, h.value]
    norm_num
  have hless : (-1 : ℝ) < it.value := by
    rw [h.value]
    norm_num
  have hleast : rampSituation.options.real "min_alpha" = .ok 1e-12 := rfl
  have htries : rampSituation.options.whole "max_backtracking" = .ok 30 := rfl
  obtain ⟨outcome, hsearch, hend, -⟩ :=
    read_searchAlong rampSituation_checked rfl rfl rfl rfl hleast htries hv hsmall
  rw [← hend] at hv hpoint
  have hdescend := read_descend hsearch rfl hv rfl hless (ramp_goes_on h _) rfl
  exact ⟨_, read_bind_of_ok hdescend, rfl, hpoint⟩

structure Launched (s : Solver (SteepestDescent.method : Method ℝ)) : Prop where
  stands : ∃ it : Iterate ℝ 1, AtFoot it ∧ StandsAt ramp rampDefault it s
  status : s.status = .running

theorem ramp_start :
    ∃ it : Iterate ℝ 1, AtFoot it ∧
      ((SteepestDescent.method : Method ℝ).start rampSituation
        (rampDefault.region.project rampDefault.start)).read
          (Ledger.plainAnswer (n := 1) ramp.objective) = .ok (.state it) :=
  ⟨_, ⟨rfl, rfl, rfl⟩, rfl⟩

theorem ramp_starts (s : Solver (SteepestDescent.method : Method ℝ)) :
    ∃ first s₀, exec (launch ramp rampDefault) s = (.ok first, s₀) ∧ Launched s₀ := by
  obtain ⟨it, hfoot, hread⟩ := ramp_start
  obtain ⟨s₀, hl, hs⟩ :=
    exec_launch_of_read (Objective.respectsEquality_real ramp.objective) hread s
  obtain ⟨-, -, -, hstatus, -⟩ := exec_launch_ok hl
  exact ⟨_, s₀, hl, ⟨it, hfoot, hs⟩, hstatus.trans (if_pos (Snapshot.isFinite_real _))⟩

theorem ramp_within {next : Iterate ℝ 1} (hvalue : next.value = -1)
    (hpoint : next.point.get ⟨0, Nat.one_pos⟩ = -1) :
    Snapshot.WithinBounds rampDefault.options
      ((SteepestDescent.method : Method ℝ).view next) := by
  refine ⟨Snapshot.isFinite_real _, ⟨1e12, rfl, ?_⟩, ⟨1e100, rfl, ?_⟩⟩
  · have hnorm : ((SteepestDescent.method : Method ℝ).view next).pointNorm = |(-1 : ℝ)| := by
      rw [← hpoint]
      exact norm_line next.point
    rw [hnorm]
    norm_num
  · have habs : Scalar.abs ((SteepestDescent.method : Method ℝ).view next).value = |(-1 : ℝ)| := by
      rw [← hvalue]
      rfl
    rw [habs]
    norm_num

theorem ramp_steps {s : Solver (SteepestDescent.method : Method ℝ)} (hs : Launched s) :
    ∃ s' v, exec iterate s = (.ok .running, s') ∧ s'.snapshot? = some v ∧ v.point.size = 1 := by
  obtain ⟨⟨it, hfoot, hstands⟩, hrun⟩ := hs
  obtain ⟨next, hread, hvalue, hpoint⟩ := ramp_step hfoot
  obtain ⟨s', hstep, hnext⟩ :=
    exec_iterate_of_read (Objective.respectsEquality_real ramp.objective) hstands hrun
      (read_bind_of_ok hread) (classify_of_within (ramp_within hvalue hpoint))
  exact ⟨s', _, hstep, hnext.snapshot, Vector.size_toArray next.point⟩

/-- A run on the ramp that is to stop near the origin of the plane. -/
noncomputable def misfitOrder : Order ℝ := rampOrder [] (.pointDistance #[0, 0] 1 false)

theorem misfit_accepted (s : Solver (SteepestDescent.method : Method ℝ)) :
    s.acceptOrder ramp.n misfitOrder = .ok rampDefault :=
  ramp_accepts (acceptOptions_nil (Offer.presettable .steepestDescent) s) _

/-- Steepest descent accepts it, makes a step, shows it, and fails then. -/
theorem misfit_shown_a_step :
    (new SteepestDescent.method none).acceptOrder ramp.n misfitOrder = .ok rampDefault ∧
      ramp.objective.Total ∧
      ∃ s', exec (solve ramp misfitOrder fun _ _ (shown : Nat) => shown + 1)
          (new SteepestDescent.method none, 0) =
          (.error (.configuration (.minimumShape [2] [1])), s', 1) ∧
        s'.iterations = 1 := by
  refine ⟨misfit_accepted _, ramp_total, ?_⟩
  obtain ⟨first, s₀, hl, hfoot⟩ := ramp_starts (new SteepestDescent.method none)
  obtain ⟨s₁, v, hstep, hlive, hsize⟩ := ramp_steps hfoot
  have hw : Turn.Happens (.onlooker fun _ _ (shown : Nat) => shown + 1)
      ⟨(s₀, 0), .running, s₁, v, (s₁, 1)⟩ := ⟨hstep, hlive, exec_watch_onlooker hstep _ v 0⟩
  have hreach : Reaches ramp rampDefault misfitOrder
      (.onlooker fun _ _ (shown : Nat) => shown + 1) (new SteepestDescent.method none, 0) []
      (s₀, 0) := ⟨⟨first, s₀, hl, .nil _⟩, hfoot.status⟩
  have hmisfit : v.point.size ≠ (#[0, 0] : Array ℝ).size := by
    rw [hsize]
    decide
  obtain ⟨s', hfails, hcount⟩ :=
    misfit_fails_after_step (misfit_accepted _) hreach (by decide) hw rfl rfl hmisfit
  refine ⟨s', ?_, hcount⟩
  rw [hsize] at hfails
  exact hfails

end

end Minima.Solver
