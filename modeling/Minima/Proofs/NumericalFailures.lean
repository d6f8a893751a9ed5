import Minima.Proofs.Acceptance
import Minima.Proofs.FailedRuns
import Minima.Proofs.Presets
import Minima.Proofs.RunControl

/-!
# Numerical failures of a run

A step absorbs the numerical failures of its method: the run ends out of control and keeps its
history. Nothing absorbs them in a set up or in a question to the criterion. So a numerical failure
comes out of a run exactly if it happens there.
-/

namespace Minima.Solver

variable {R : Type} [Scalar R] {m : Method R} {σ : Type}

/-! ## Where numerical failures are absorbed -/

/-- With bounds that are numbers every step is classified. -/
theorem classify_returns {options : Options R}
    (h : ∀ key ∈ ["max_x_norm", "max_abs_f"], options.InRange .positive key) (v : Snapshot R)
    (reported : Status) : ∃ status, classify options v reported = .ok status := by
  obtain ⟨maxNorm, hnorm, -⟩ := h "max_x_norm" (by simp)
  obtain ⟨maxValue, hvalue, -⟩ := h "max_abs_f" (by simp)
  unfold classify
  by_cases hv : v.isFinite = true
  · by_cases hr : reported = .running
    · by_cases hn : maxNorm < v.pointNorm
      · exact ⟨.outOfControl, by simp [hv, hr, hnorm, hn, bind, Except.bind, pure, Except.pure]⟩
      · by_cases hf : maxValue < Scalar.abs v.value
        · exact ⟨.outOfControl, by
            simp [hv, hr, hnorm, hn, hvalue, hf, bind, Except.bind, pure, Except.pure]⟩
        · exact ⟨.running, by
            simp [hv, hr, hnorm, hn, hvalue, hf, bind, Except.bind, pure, Except.pure]⟩
    · exact ⟨reported, by simp [hv, hr, pure, Except.pure]⟩
  · exact ⟨.outOfControl, by simp [hv, pure, Except.pure]⟩

/-- With bounds that are numbers a step fails with what its method fails with, unless that is
numerical, or over a value that is no state. -/
theorem concluded_error_of_bounds {n : Nat} {options : Options R} {st : Σ n, m.State n}
    {outcome : Attempt R (Produced (m.State n) × Status)} {e : Failure R}
    (hbounds : ∀ key ∈ ["max_x_norm", "max_abs_f"], options.InRange .positive key)
    (h : concluded options st outcome = .error e) :
    outcome = .error e ∧ e.isNumerical = false ∨
      ∃ typeName reported, outcome = .ok (.foreign typeName, reported) ∧
        e = .notAState m.className .step typeName := by
  obtain hout | hforeign | ⟨v, reported, hclass⟩ := concluded_eq_error h
  · exact .inl hout
  · exact .inr hforeign
  · obtain ⟨status, hstatus⟩ := classify_returns hbounds v reported
    rw [hstatus] at hclass
    cases hclass

/-- A step that would go on beyond the bounds is out of control. -/
theorem classify_of_beyond {options : Options R}
    (h : ∀ key ∈ ["max_x_norm", "max_abs_f"], options.InRange .positive key) {v : Snapshot R}
    (hv : ¬ v.WithinBounds options) : classify options v .running = .ok .outOfControl := by
  obtain ⟨status, hstatus⟩ := classify_returns h v .running
  by_cases hcontrol : status = .outOfControl
  · rw [hstatus, hcontrol]
  · have hrun := reported_of_classify hstatus hcontrol
    exact absurd ((classify_ok hstatus).2 hrun.symm) hv

/-- What a step passes on is not numerical. -/
theorem not_numerical_of_iterate {options : Options R} {s s' : Solver m} {e : Failure R}
    (hbounds : ∀ key ∈ ["max_x_norm", "max_abs_f"], options.InRange .positive key)
    (ho : s.options? = some options) (h : exec iterate s = (.error e, s')) :
    e.isNumerical = false := by
  obtain ⟨⟨fault, rfl⟩, -⟩ | ⟨t, k, st, events, ht, -, -, hc, -⟩ := exec_iterate_error h
  · rfl
  · have hoptions : t.options = options := by simpa [options?, ht] using ho
    rw [hoptions] at hc
    obtain ⟨-, hnot⟩ | ⟨typeName, -, -, rfl⟩ := concluded_error_of_bounds hbounds hc
    · exact hnot
    · rfl

/-- A numerical failure is passed on by a set up. -/
theorem launch_fails_iff {f : Subject R} {a : Accepted R f.n} {s s' : Solver m} {e : Failure R}
    (he : e.isNumerical = true) :
    exec (launch f a) s = (.error e, s') ↔
      (opening m f a).1 = .error e ∧ s' = (exec (launch f a) s).2 := by
  obtain ⟨events, heq⟩ := exec_launch f a s
  rw [heq]
  rcases opening m f a with ⟨e' | st | typeName, ledger⟩
  · simp [eq_comm]
  · simp
  · simp only [Prod.mk.injEq, Except.error.injEq, reduceCtorEq, false_and, iff_false]
    rintro ⟨rfl, -⟩
    cases he

/-! ## Runs before an onlooker -/

/-- After a step an onlooker is shown the snapshot, and the solver stays as it is. -/
theorem exec_watch_onlooker {s made : Solver m} {status : Status}
    (hstep : exec iterate s = (.ok status, made)) (visit : Snapshot R → Nat → σ → σ)
    (v : Snapshot R) (seen : σ) :
    exec (watch (.onlooker visit) v) (made, seen) =
      (.ok ⟨⟩, made, visit v made.iterations seen) := by
  obtain ⟨-, -, -, -, _, _, _, _, -, -, -, htask, -⟩ := exec_iterate_ok hstep
  rw [exec_watch htask]
  obtain ⟨name, task?, state?, status, iterations, events⟩ := made
  dsimp only at htask
  subst htask
  rfl

/-- Where a numerical failure comes out of a run, and what becomes of one inside a step. -/
structure NumericalConduct (f : Subject R) (a : Accepted R f.n) (order : Order R)
    (visit : Snapshot R → Nat → σ → σ) (s : Solver m) (seen : σ) : Prop where
  /-- It comes out exactly if it happens in the set up, or in a question to the criterion after a
  step that goes on. -/
  escapes : ∀ {e : Failure R} {final : Solver m × σ}, e.isNumerical = true →
    (exec (solve f order visit) (s, seen) = (.error e, final) ↔
      (opening m f a).1 = .error e ∧ final = ((exec (launch f a) s).2, seen) ∨
        ∃ (turns : List (Turn m σ)) (t : Turn m σ) (c : Criterion R) (s' : Solver m),
          Reaches f a order (.onlooker visit) (s, seen) turns t.before ∧
          turns.length < order.horizon ∧ t.Happens (.onlooker visit) ∧ t.status = .running ∧
          asked? m order = some c ∧ exec (stopIfHolds c) t.after.1 = (.error e, s') ∧
          final = (s', t.after.2))
  /-- Inside a step it ends the run out of control in the state that the run had reached, and the
  history holds all steps. -/
  absorbed : ∀ {turns : List (Turn m σ)} {next : Solver m × σ} {t : Task R} {k : Nat}
    {st : m.State k} {e : Failure R}, Reaches f a order (.onlooker visit) (s, seen) turns next →
    turns.length < order.horizon → next.1.task? = some t → next.1.state? = some ⟨k, st⟩ →
    (attemptStep t next.1.iterations st).1 = .error e → e.isNumerical = true →
    ∃ r final, exec (solve f order visit) (s, seen) = (.ok r, final) ∧ r.status = .outOfControl ∧
      r.cause = .method .outOfControl ∧ r.iterations = turns.length + 1 ∧
      r.history.toList = turns.map Turn.view ++ [m.view st]

section

variable {f : Subject R} {a : Accepted R f.n} {order : Order R} {w : Watcher R σ}
  {visit : Snapshot R → Nat → σ → σ} {s : Solver m} {seen : σ} {turns : List (Turn m σ)}
  {next final : Solver m × σ} {e : Failure R}

theorem Reaches.options?_eq (h : Reaches f a order w (s, seen) turns next) :
    next.1.options? = some a.options := by
  obtain ⟨⟨first, s₀, hl, htrail⟩, -⟩ := h
  obtain ⟨-, -, -, -, htask⟩ := exec_launch_ok hl
  rw [options?_of_frame htrail.frame_eq, options?, htask]
  rfl

/-- A turn that breaks with a numerical failure breaks in the question to the criterion. -/
theorem Breaks.criterion_of_numerical {options : Options R} {criterion? : Option (Criterion R)}
    (hbounds : ∀ key ∈ ["max_x_norm", "max_abs_f"], options.InRange .positive key)
    (ho : next.1.options? = some options) (he : e.isNumerical = true)
    (h : Breaks criterion? (.onlooker visit) next e final) :
    ∃ (t : Turn m σ) (c : Criterion R) (s' : Solver m), t.before = next ∧
      t.Happens (.onlooker visit) ∧ t.status = .running ∧ criterion? = some c ∧
      exec (stopIfHolds c) t.after.1 = (.error e, s') ∧ final = (s', t.after.2) := by
  cases h with
  | step h =>
      have hnot := not_numerical_of_iterate hbounds ho h
      simp [hnot] at he
  | watcher hstep hlive h =>
      rw [exec_watch_onlooker hstep] at h
      cases h
  | @criterion t c e s' hw hrun hc h => exact ⟨t, c, s', rfl, hw, hrun, hc, h, rfl⟩

/-- A numerical failure of a step is a turn that ends the run. -/
theorem happens_of_absorbed (visit : Snapshot R → Nat → σ → σ) {t : Task R} {k : Nat}
    {st : m.State k} (ht : next.1.task? = some t)
    (hst : next.1.state? = some ⟨k, st⟩) (hrun : next.1.status = .running)
    (he : (attemptStep t next.1.iterations st).1 = .error e) (hnumerical : e.isNumerical = true) :
    ∃ turn : Turn m σ, turn.Happens (.onlooker visit) ∧ turn.before = next ∧
      turn.status = .outOfControl ∧ turn.view = m.view st := by
  have ho : next.1.options? = some t.options := by simp [options?, ht]
  obtain ⟨s', hstep, hstate, -⟩ := (stepControlled ho).absorbed ht hst hrun he hnumerical
  have hlive : s'.snapshot? = some (m.view st) := by
    rw [snapshot?, hstate, hst]
    rfl
  have hwatched := exec_watch_onlooker hstep visit (m.view st) next.2
  exact ⟨⟨next, .outOfControl, s', m.view st, _⟩, ⟨hstep, hlive, hwatched⟩, rfl, rfl, rfl⟩

end

/-- In every run of an accepted configuration steps absorb numerical failures, and only they do. -/
theorem numerical_failures_of_run {f : Subject R} {a : Accepted R f.n} {order : Order R}
    {s : Solver m} (ha : s.acceptOrder f.n order = .ok a) (visit : Snapshot R → Nat → σ → σ)
    (seen : σ) : NumericalConduct f a order visit s seen where
  escapes := by
    intro e final he
    have hbounds := bounds_of_accept (accept_of_acceptOrder ha)
    rw [solve, exec_solveWatched_eq_error_iff ha]
    constructor
    · rintro (⟨s', hl, rfl⟩ | ⟨turns, next, hreach, ⟨-, rfl, -⟩ | ⟨hlength, hbreaks⟩⟩)
      · obtain ⟨ho, rfl⟩ := (launch_fails_iff he).mp hl
        exact .inl ⟨ho, rfl⟩
      · cases he
      · obtain ⟨t, c, s', rfl, hw, hrun, hc, hstop, rfl⟩ :=
          hbreaks.criterion_of_numerical hbounds hreach.options?_eq he
        exact .inr ⟨turns, t, c, s', hreach, hlength, hw, hrun, hc, hstop, rfl⟩
    · rintro (⟨ho, rfl⟩ | ⟨turns, t, c, s', hreach, hlength, hw, hrun, hc, hstop, rfl⟩)
      · exact .inl ⟨_, (launch_fails_iff he).mpr ⟨ho, rfl⟩, rfl⟩
      · exact .inr ⟨turns, t.before, hreach, .inr ⟨hlength, .criterion hw hrun hc hstop⟩⟩
  absorbed := by
    intro turns next t k st e hreach hlength ht hst he hnumerical
    obtain ⟨turn, hw, rfl, hstatus, hview⟩ :=
      happens_of_absorbed visit ht hst hreach.running he hnumerical
    obtain ⟨first, s₀, hl, htrail⟩ := hreach.trail
    have hover : turn.status.isTerminal = true := by rw [hstatus]; rfl
    have hlast : Chronicle (asked? m order) (.onlooker visit) turn.before [turn]
        ⟨turn.status, .method turn.status, none⟩ turn.after :=
      chronicle_singleton.mpr ⟨hw, rfl, .method hover⟩
    obtain ⟨r, final, hr, hreturns⟩ :=
      exec_solveWatched_returns ha hl (by simpa using hlength) (htrail.chronicle hlast)
    refine ⟨r, final, hreturns, ?_, ?_, ?_, ?_⟩
    · exact hr.status.trans hstatus
    · rw [hr.cause, hstatus]
    · simpa using hr.iterations
    · simp [hr.history, hview]

section

/-- A function on the line that divides by zero everywhere. -/
noncomputable def pole : Subject ℝ where
  n := 1
  objective :=
    { name := "pole", value := fun _ => .error .divisionByZero, gradient? := none
      hessian? := none }

noncomputable def poleOrder : Order ℝ := { toConfiguration := Scripted.fromOrigin }

noncomputable def poleAccepted : Accepted ℝ pole.n :=
  Scripted.acceptedOrigin (HookeJeeves.method : Method ℝ).defaults

theorem pole_accepts (s : Solver (HookeJeeves.method : Method ℝ)) :
    s.acceptOrder pole.n poleOrder = .ok poleAccepted :=
  accept_vector (Offer.presettable .hookeJeeves) s #v[0]

theorem pole_opening :
    (opening HookeJeeves.method pole poleAccepted).1 = .error .divisionByZero := rfl

theorem pole_conduct :
    (new HookeJeeves.method none).acceptOrder pole.n poleOrder = .ok poleAccepted ∧
      NumericalConduct pole poleAccepted poleOrder (fun _ _ (_ : Unit) => ())
        (new HookeJeeves.method none) () :=
  ⟨pole_accepts _, numerical_failures_of_run (pole_accepts _) _ ()⟩

/-- A pattern search that is accepted lets a division by zero out. -/
theorem division_by_zero_escapes :
    (new HookeJeeves.method none).acceptOrder pole.n poleOrder = .ok poleAccepted ∧
      (exec (solve pole poleOrder fun _ _ (_ : Unit) => ()) (new HookeJeeves.method none, ())).1 =
        .error .divisionByZero := by
  refine ⟨pole_accepts _, ?_⟩
  have hl := (launch_fails_iff (s := new HookeJeeves.method none) (e := .divisionByZero) rfl).mpr
    ⟨pole_opening, rfl⟩
  have hfails : exec (solve pole poleOrder fun _ _ (_ : Unit) => ())
      (new HookeJeeves.method none, ()) = (.error .divisionByZero, _) :=
    (exec_solveWatched_eq_error_iff (pole_accepts _)).mpr (.inl ⟨_, hl, rfl⟩)
  rw [hfails]

end

end Minima.Solver
