import Minima.Proofs.Acceptance
import Minima.Proofs.Coupling

/-!
# Failures are atomic

What is refused before a run leaves everything as it was, the solver, both objectives and what has
been asked of them, and it is refused without looking at a function. A step that fails leaves all of
the solver but the ledger of its objective, so that it can be made again from the same state.
-/

namespace Minima

variable {R : Type} [Scalar R] {m : Method R} {σ : Type}

/-- Ledgers that need not have anything in common. -/
def AnyLedger {n : Nat} (_ : Objective R n) (_ _ : Ledger R n) : Prop := True

namespace Solver

/-! ## What is refused -/

theorem exec_setUp_refused {s : Solver m} {f : Subject R} {c : Configuration R} {e : Failure R}
    (h : s.accept f.n c = .error e) : exec (setUp f c) s = (.error e, s) := by
  rw [exec_setUp, h]

theorem acceptOrder_missing {s : Solver m} {n : Nat} {order : Order R}
    (hm : m.hasCriterion = false) (hc : order.criterion? = none) :
    s.acceptOrder n order = .error (.configuration (.criterionMissing s.name)) := by
  simp [acceptOrder, hm, hc]
  rfl

theorem acceptOrder_refused {s : Solver m} {n : Nat} {order : Order R}
    (h : s.Refused n order.toConfiguration) : ∃ e, s.acceptOrder n order = .error e := by
  obtain ⟨e, he⟩ := refused_iff.mp h
  by_cases hc : (!m.hasCriterion && order.criterion?.isNone) = true
  · have hm : m.hasCriterion = false := by simp_all
    have hnone : order.criterion? = none := by simp_all
    exact ⟨_, acceptOrder_missing hm hnone⟩
  · refine ⟨e, ?_⟩
    simp [acceptOrder, hc, he]

/-! ## Steps that fail -/

/-- A step that fails changes no more than the ledger. -/
theorem alike_of_iterate_error {s s' : Solver m} {e : Failure R}
    (h : exec iterate s = (.error e, s')) : s.Alike AnyLedger s' := by
  have hself : s.Alike AnyLedger s := by
    refine ⟨rfl, ?_, rfl, rfl, rfl⟩
    cases s.task? with
    | none => exact .none
    | some t => exact .some ⟨t.ledger, rfl, trivial⟩
  obtain ⟨-, rfl⟩ | ⟨t, k, st, events, ht, -, -, -, rfl⟩ := exec_iterate_error h
  · exact hself
  · refine ⟨rfl, ?_, rfl, rfl, rfl⟩
    rw [ht]
    exact .some ⟨_, rfl, trivial⟩

/-- A step that has failed is made again from the same state, as often as it takes. -/
theorem exec_iterate_again {s s' : Solver m} {e : Failure R} {t : Task R} {k : Nat}
    {st : m.State k} (h : exec iterate s = (.error e, s')) (ht : s.task? = some t)
    (hst : s.state? = some ⟨k, st⟩) (hrun : s.status = .running) :
    ∃ l : Ledger R t.n, s'.task? = some { t with ledger := l } ∧
      (exec iterate s').1 =
        (concluded t.options ⟨k, st⟩
          (attemptStep { t with ledger := l } s.iterations st).1).map Prod.snd := by
  obtain ⟨-, htask, hstate, hstatus, hcount⟩ := alike_of_iterate_error h
  rw [ht] at htask
  generalize hother : s'.task? = other at htask
  cases htask with
  | some halike =>
      obtain ⟨l, rfl, -⟩ := halike
      obtain ⟨events, heq⟩ := exec_iterate_live hother (hstate ▸ hst)
        (Status.isTerminal_eq_false_iff.mpr (hstatus ▸ hrun))
      refine ⟨l, rfl, ?_⟩
      rw [heq, ← hcount]
      rcases concluded t.options ⟨k, st⟩
        (attemptStep { t with ledger := l } s.iterations st).1 with e | ⟨next, status⟩
      · rfl
      · rfl

end Solver

namespace Session

/-- What failures leave of a session. -/
structure Atomic (s : Session m) : Prop where
  /-- What is refused is refused for every objective of that dimension, whatever its functions do,
  and the solver stays. -/
  unasked : ∀ {n : Nat} {c : Configuration R}, s.solver.Refused n c →
    ∃ e, ∀ f : Subject R, f.n = n → exec (Solver.setUp f c) s.solver = (.error e, s.solver)
  /-- The solver, its objective and the current one stay as they were, with their ledgers. -/
  setUp : ∀ {f : Subject R} {c : Configuration R}, (exec subject s).1 = .ok f →
    s.solver.Refused f.n c → ∃ e, exec (setUp c) s = (.error e, s)
  solve : ∀ {f : Subject R} {σ : Type} (order : Solver.Order R) (w : Solver.Watcher R σ) (seen : σ),
    (exec subject s).1 = .ok f → s.solver.Refused f.n order.toConfiguration →
    ∃ e, exec (solveWatched order w seen) s = (.error e, s)
  /-- A run without the criterion that it needs is refused before anything else. -/
  criterion : ∀ {f : Subject R} {σ : Type} (order : Solver.Order R) (w : Solver.Watcher R σ)
    (seen : σ), (exec subject s).1 = .ok f → m.hasCriterion = false → order.criterion? = none →
    exec (solveWatched order w seen) s =
      (.error (.configuration (.criterionMissing s.solver.name)), s)
  /-- A step that fails leaves the state, the status, the number of steps, the objective, the
  options and the region. -/
  step : ∀ {e : Failure R} {s' : Session m}, exec iterate s = (.error e, s') →
    s'.current = s.current ∧ s.solver.Alike AnyLedger s'.solver
  /-- It can be made again from the same state. -/
  retry : ∀ {e : Failure R} {s' : Session m} {t : Task R} {k : Nat} {st : m.State k},
    exec iterate s = (.error e, s') → s.solver.task? = some t → s.solver.state? = some ⟨k, st⟩ →
    s.solver.status = .running →
    ∃ l : Ledger R t.n, s'.solver.task? = some { t with ledger := l } ∧
      (exec iterate s').1 =
        (Solver.concluded t.options ⟨k, st⟩
          (Solver.attemptStep { t with ledger := l } s.solver.iterations st).1).map Prod.snd

/-- Failures of the engine are atomic in every session. -/
theorem failures_are_atomic (s : Session m) : s.Atomic where
  unasked := by
    intro n c h
    obtain ⟨e, he⟩ := Solver.refused_iff.mp h
    refine ⟨e, ?_⟩
    rintro f rfl
    exact Solver.exec_setUp_refused he
  setUp := by
    intro f c hf h
    obtain ⟨e, he⟩ := Solver.refused_iff.mp h
    refine ⟨e, ?_⟩
    rw [exec_setUp hf, he]
  solve := by
    intro f σ order w seen hf h
    obtain ⟨e, he⟩ := Solver.acceptOrder_refused h
    refine ⟨e, ?_⟩
    rw [exec_solveWatched hf, he]
  criterion := by
    intro f σ order w seen hf hm hc
    rw [exec_solveWatched hf, Solver.acceptOrder_missing hm hc]
  step := by
    intro e s' h
    rw [iterate, exec_ofEngine] at h
    obtain ⟨hout, rfl⟩ := Prod.mk.inj h
    exact ⟨rfl, Solver.alike_of_iterate_error (Prod.ext hout rfl)⟩
  retry := by
    intro e s' t k st h ht hst hrun
    rw [iterate, exec_ofEngine] at h
    obtain ⟨hout, rfl⟩ := Prod.mk.inj h
    exact Solver.exec_iterate_again (Prod.ext hout rfl) ht hst hrun

end Session

end Minima
