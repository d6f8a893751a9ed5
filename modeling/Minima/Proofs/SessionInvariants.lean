import Minima.Proofs.Interleaving
import Minima.Proofs.RunInvariants

/-!
# What a session upholds

Between the steps of a run one may look at the solver and ask the objective. None of that touches the
state. So what a method carries along holds after any steps and queries, as long as the queries keep
what is asked of the ledger.
-/

namespace Minima.Session

variable {R : Type} [Scalar R] {m : Method R} {α : Type} {f : Subject R} {a : Solver.Accepted R f.n}
  {I : Ledger R f.n → Prop} {P : m.State f.n → Prop} {s : Session m}

/-- Requests of all kinds keep `I`, and it holds of a new ledger. -/
structure QueriesKeep (f : Subject R) (I : Ledger R f.n → Prop) : Prop where
  value : ∀ x l, I l → I (Inquiry.value x f.n f.objective l).2
  gradient : ∀ x l, I l → I (Inquiry.gradient x f.n f.objective l).2
  hessian : ∀ x l, I l → I (Inquiry.hessian x f.n f.objective l).2
  empty : I {}

theorem queriesKeep_anything : QueriesKeep f fun _ => True :=
  ⟨fun _ _ _ => trivial, fun _ _ _ => trivial, fun _ _ _ => trivial, trivial⟩

theorem upholds_askSolvers {q : Inquiry R α} (hq : ∀ l, I l → I (q f.n f.objective l).2)
    (h : s.solver.Upholds f a I P) : (exec (askSolvers q) s).2.solver.Upholds f a I P := by
  obtain ⟨ledger, hl, htask⟩ := h.task
  rw [exec_askSolvers htask]
  exact h.with_ledger (hq ledger hl)

theorem upholds_query (hI : QueriesKeep f I) (h : s.solver.Upholds f a I P) (q : Query R) :
    (s.moved (.query q)).solver.Upholds f a I P :=
  holds_after_query (C := fun left => left.solver.Upholds f a I P) h
    (fun x => upholds_askSolvers (hI.value x) h) (fun x => upholds_askSolvers (hI.gradient x) h)
    (fun x => upholds_askSolvers (hI.hessian x) h)
    (upholds_askSolvers (fun _ _ => hI.empty) h) q

/-- A step or a query upholds what the method carries along. -/
theorem upholds_move (hI : QueriesKeep f I) (hcarries : Solver.Carries f a I P)
    (h : s.solver.Upholds f a I P) (move : Move R) :
    (s.moved move).solver.Upholds f a I P := by
  cases move with
  | step => exact hcarries.iterate s.solver h
  | query q => exact upholds_query hI h q

theorem upholds_moves (hI : QueriesKeep f I) (hcarries : Solver.Carries f a I P)
    (h : s.solver.Upholds f a I P) (moves : List (Move R)) :
    (s.after moves).solver.Upholds f a I P := by
  induction moves generalizing s with
  | nil => exact h
  | cons move moves ih => exact ih (upholds_move hI hcarries h move)

end Minima.Session
