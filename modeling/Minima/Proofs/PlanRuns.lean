import Minima.Chart.Grid
import Minima.Proofs.MethodSteps
import Minima.Proofs.PlanBudgets
import Minima.Proofs.RunInvariants
import Minima.Proofs.Simulation
import Minima.Selection

/-!
# Runs of a plan

A plan that comes to an order is carried out by a new solver, from the start that it is given or from
that of the problem, and without constraints. All points of its run are of the dimension of the
problem, and whoever looks on has seen the history of its results in the end.
-/

namespace Minima

variable {R : Type} [Scalar R] {σ τ : Type}

/-- A method on offer begins with the value at its start. -/
theorem Offer.value_of_start {o : Offer} {n : Nat} {f : Objective R n} {s : Situation R n}
    {x : Vector R n} {made : Produced ((o.method : Method R).State n)}
    (h : (((o.method : Method R).start s x).run f {}).1 = .ok made) : ∃ v, f.value x = .ok v := by
  cases hv : f.value x with
  | ok v => exact ⟨v, rfl⟩
  | error e =>
      exfalso
      have hask (next : R → Consult R n (Produced ((o.method : Method R).State n))) :
          (Consult.run (.ask (.value x) next) f {}).1 = .error e := by
        simp [Consult.run, Dialogue.play, Ledger.answer, Ledger.value, Ledger.remembered?, hv]
      cases o with
      | nelderMead =>
          have hstart : ((do return Produced.state (← NelderMead.start s x) :
            Consult R n (Produced (NelderMead.State R n))).run f {}).1 = .ok made := h
          rw [NelderMead.start] at hstart
          cases hscale : s.options.real "initial_simplex_scale" with
          | error e' =>
              rw [hscale] at hstart
              cases hstart
          | ok scale =>
              rw [hscale] at hstart
              cases (hask _).symm.trans hstart
      | _ =>
          cases (hask _).symm.trans h

namespace Plan

variable {p : Plan R} {problem : Problem R} {o : Offer} {order : Solver.Order R} {f : Subject R}

/-- A plan that comes to an order is carried out by a new solver. -/
theorem run_of_ordered (ho : (Offer.find? p.method : Attempt R Offer) = .ok o)
    (horder : p.order (o.method : Method R) problem = .ok order) (hf : problem.subject? = .ok f)
    (visit : Snapshot R → Nat → σ → σ) (seen : σ) :
    p.run problem visit seen =
      let ran := exec (Solver.solve f order visit)
        (({ name := o.solverName p.name? } : Solver (o.method : Method R)), seen)
      { results := ran.1, events := ran.2.1.events, seen := ran.2.2 } := by
  unfold run
  rw [ho, Attempt.ok_bind, horder, Attempt.ok_bind, hf]
  rfl

theorem ordered_of_run {visit : Snapshot R → Nat → σ → σ} {seen : σ} {r : Results R}
    (h : (p.run problem visit seen).results = .ok r) :
    ∃ (o : Offer) (order : Solver.Order R) (f : Subject R),
      Offer.find? p.method = (.ok o : Attempt R Offer) ∧
      p.order (o.method : Method R) problem = .ok order ∧ problem.subject? = .ok f := by
  obtain ⟨e, -, he⟩ | ⟨o, order, f, ho, horder, hf, -⟩ := p.run_cases problem visit seen
  · rw [he] at h
    cases h
  · exact ⟨o, order, f, ho, horder, hf⟩

/-- Whoever looks on when a plan is carried out has seen the history of the results in the end. -/
theorem run_before_onlooker {visit : Snapshot R → Nat → σ → σ} {seen : σ} {r : Results R}
    (h : (p.run problem visit seen).results = .ok r) (visit' : Snapshot R → Nat → τ → τ)
    (seen' : τ) :
    (p.run problem visit' seen').results = .ok r ∧
      (p.run problem visit' seen').seen =
        (r.history.toList.zipIdx 1).foldl (fun seen v => visit' v.1 v.2 seen) seen' := by
  obtain ⟨o, order, f, ho, horder, hf⟩ := ordered_of_run h
  rw [run_of_ordered ho horder hf] at h ⊢
  have hresults := (Solver.solve_before_onlookers (m := o.method) f order
    { name := o.solverName p.name? } visit seen visit' seen').symm.trans h
  exact ⟨hresults, Solver.onlooker_saw_history (Prod.ext hresults rfl)⟩

/-- A plan orders the start that it is given, or that of the problem, and no constraints. -/
theorem order_place {m : Method R} {order : Solver.Order R} (h : p.order m problem = .ok order) :
    order.start = p.start?.getD problem.start ∧ order.constraints = .free := by
  obtain ⟨given, -, h⟩ := Attempt.bind_eq_ok.mp h
  cases hc : m.hasCriterion with
  | true =>
      rw [if_pos hc] at h
      obtain rfl := Attempt.pure_eq_ok.mp h
      exact ⟨rfl, rfl⟩
  | false =>
      rw [if_neg (by rw [hc]; exact Bool.false_ne_true)] at h
      obtain ⟨c, -, h⟩ := Attempt.bind_eq_ok.mp h
      obtain rfl := Attempt.pure_eq_ok.mp h
      exact ⟨rfl, rfl⟩

omit [Scalar R] in
theorem entries_of_toVector? {n : Nat} {t : Tensor R} {x : Vector R n}
    (h : t.toVector? n = some x) : t.entries = x.toArray := by
  simp only [Tensor.toVector?, Option.dite_none_right_eq_some, Option.some.injEq] at h
  obtain ⟨_, rfl⟩ := h
  rfl

/-- A plan that is carried out starts at a point of the problem where its value is known, and all
points of the run are of its dimension. -/
theorem run_dimension {visit : Snapshot R → Nat → σ → σ} {seen : σ} {r : Results R}
    (h : (p.run problem visit seen).results = .ok r) :
    (∃ v, problem.valueInDomain? (p.start?.getD problem.start).entries = .ok (some v)) ∧
      (p.start?.getD problem.start).entries.size = problem.n ∧
      ∀ v ∈ r.history, v.point.size = problem.n := by
  obtain ⟨o, order, f, ho, horder, hf⟩ := ordered_of_run h
  rw [run_of_ordered ho horder hf] at h
  obtain rfl := Problem.subject?_eq_ok hf
  obtain ⟨final, hrun⟩ : ∃ final,
      exec (Solver.solveWatched ⟨problem.n, problem.objective, {}⟩ order (.onlooker visit))
        (({ name := o.solverName p.name? } : Solver (o.method : Method R)), seen) =
        (.ok r, final) := ⟨_, Prod.ext h rfl⟩
  obtain ⟨a, first, s₀, -, -, -, ha, hl, -⟩ := Solver.chronicle_of_exec_solveWatched hrun
  obtain ⟨hplace, hfree⟩ := order_place horder
  obtain ⟨hstart, hregion, -⟩ := Solver.accept_eq_ok_iff.mp (Solver.accept_of_acceptOrder ha)
  obtain ⟨-, hvector, -⟩ := Solver.acceptStart_eq_ok_iff.mp hstart
  have heverywhere : a.region = .everywhere := by
    rw [Solver.acceptRegion_eq_ok_iff, hfree] at hregion
    exact (Option.some.inj hregion).symm
  have hentries : (p.start?.getD problem.start).entries = a.start.toArray := by
    rw [← hplace]
    exact entries_of_toVector? hvector
  refine ⟨?_, ?_, fun v hv => ?_⟩
  · obtain ⟨st, hopening, -⟩ := Solver.opening_of_exec_launch hl
    rw [Solver.opening, heverywhere] at hopening
    obtain ⟨v, hvalue⟩ := Offer.value_of_start hopening
    refine ⟨v, ?_⟩
    rw [hentries]
    have hpoint : problem.objective.value ⟨a.start.toArray, a.start.size_toArray⟩ = .ok v := hvalue
    rw [Problem.valueInDomain?, dif_pos a.start.size_toArray, hpoint]
    rfl
  · rw [hentries]
    exact a.start.size_toArray
  · obtain ⟨st, -, rfl⟩ := Solver.shown_of_solveWatched ha Solver.carries_anything
      (fun _ _ _ => trivial) (fun _ _ _ _ _ => trivial) hrun v
      (List.mem_cons_of_mem _ (by simpa using hv))
    exact o.point_size st

end Plan

namespace Selection

variable {s : Selection R} {problems : List (Problem R)} {p : Problem R}

/-- A selection that passes its check runs the plan of its method. -/
theorem run_of_checked (hcheck : s.check problems = .ok p) (visit : Snapshot R → Nat → σ → σ)
    (seen : σ) :
    s.run problems visit seen = (.ok p, (s.plan s.method s.search none).run p visit seen) := by
  rw [run, hcheck]

/-- A selection that is run has passed its check. -/
theorem checked_of_run {visit : Snapshot R → Nat → σ → σ} {seen : σ}
    (h : (s.run problems visit seen).1 = .ok p) : s.check problems = .ok p := by
  rw [run] at h
  cases hcheck : s.check problems with
  | error e =>
      rw [hcheck] at h
      cases h
  | ok q =>
      rw [hcheck] at h
      exact h

end Selection

end Minima
