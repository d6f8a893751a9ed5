import Minima.Proofs.Coupling
import Minima.Proofs.ExactRuns
import Minima.Proofs.Memory

/-!
# Queries between the steps

Between the steps of a run one may look at the solver, ask for derivatives at the current point, and
ask the objective itself at any points or make it forget. All of that happens to the ledger only, and
as long as the objective respects equality a truthful ledger does not show in what a step comes to.
So the steps of a run are those of the run without the queries.
-/

namespace Minima

variable {R : Type} [Scalar R] {m : Method R} {α : Type}

def BothTruthful {n : Nat} (f : Objective R n) (l l' : Ledger R n) : Prop :=
  f.RespectsEquality ∧ l.Truthful f ∧ l'.Truthful f

theorem indistinct_bothTruthful : Indistinct (R := R) BothTruthful := by
  intro n α f d l l' ⟨hf, hl, hl'⟩
  obtain ⟨hout, hleft⟩ := d.run_truthful hf hl
  obtain ⟨hout', hleft'⟩ := d.run_truthful hf hl'
  exact ⟨hout.trans hout'.symm, hf, hleft, hleft'⟩

/-- The inquiry does not make a truthful ledger untruthful. -/
def Inquiry.Honest (q : Inquiry R α) : Prop :=
  ∀ {n : Nat} (f : Objective R n) (l : Ledger R n), f.RespectsEquality → l.Truthful f →
    (q n f l).2.Truthful f

namespace Inquiry

theorem honest_value (x : Tensor R) : (value x).Honest := by
  intro n f l hf hl
  exact Ledger.request_truthful (fun y => (Ledger.value_truthful hf hl y).2) hl x

theorem honest_gradient (x : Tensor R) : (gradient x).Honest := by
  intro n f l hf hl
  exact Ledger.request_truthful (fun y => (Ledger.gradient_truthful hf hl y).2) hl x

theorem honest_hessian (x : Tensor R) : (hessian x).Honest := by
  intro n f l hf hl
  exact Ledger.request_truthful (fun y => (Ledger.hessian_truthful hf hl y).2) hl x

theorem honest_reset : (reset : Inquiry R Unit).Honest := by
  intro n f l hf hl
  exact Ledger.truthful_empty f

end Inquiry

/-- What can be asked between two steps: to look at the solver, the derivatives at the current
point, and anything of the objective that the solver works on. -/
inductive Query (R : Type) where
  | look
  | gradientHere
  | hessianHere
  | value (x : Tensor R)
  | gradient (x : Tensor R)
  | hessian (x : Tensor R)
  | reset

namespace Session

def query : Query R → Dealing m Unit
  | .look => do let _ ← live
  | .gradientHere => do let _ ← askAtPoint Inquiry.gradient
  | .hessianHere => do let _ ← askAtPoint Inquiry.hessian
  | .value x => do let _ ← askSolvers (Inquiry.value x)
  | .gradient x => do let _ ← askSolvers (Inquiry.gradient x)
  | .hessian x => do let _ ← askSolvers (Inquiry.hessian x)
  | .reset => askSolvers Inquiry.reset

inductive Move (R : Type) where
  | step
  | query (q : Query R)

def Move.isStep : Move R → Bool
  | .step => true
  | .query _ => false

/-- What a step comes to: its outcome, and the state, the status and the number of steps that the
solver then has. -/
structure Mark (m : Method R) where
  outcome : Attempt R Status
  state? : Option (Σ n, m.State n)
  status : Status
  iterations : Nat

def mark (s : Session m) : Mark m where
  outcome := (exec iterate s).1
  state? := (exec iterate s).2.solver.state?
  status := (exec iterate s).2.solver.status
  iterations := (exec iterate s).2.solver.iterations

def moved (s : Session m) : Move R → Session m
  | .step => (exec iterate s).2
  | .query q => (exec (query q) s).2

/-- The marks of all steps among the moves. -/
def trace (s : Session m) : List (Move R) → List (Mark m)
  | [] => []
  | .step :: moves => s.mark :: (s.moved .step).trace moves
  | .query q :: moves => (s.moved (.query q)).trace moves

def after (s : Session m) (moves : List (Move R)) : Session m := moves.foldl moved s

/-! ## Queries keep truth -/

variable {s s' : Session m}

theorem alike_askSolvers {q : Inquiry R α} (hq : q.Honest)
    (h : s.solver.Alike BothTruthful s'.solver) :
    (exec (askSolvers q) s).2.solver.Alike BothTruthful s'.solver := by
  cases ht : s.solver.task? with
  | none =>
      rw [exec_askSolvers_absent ht]
      exact h
  | some t =>
      rw [exec_askSolvers ht]
      apply h.relearn ht
      rintro l' ⟨hf, hl, hl'⟩
      exact ⟨hf, hq t.objective t.ledger hf hl, hl'⟩

/-- To ask at the current point is to ask somewhere, unless there is none. -/
theorem left_of_askAtPoint (q : Tensor R → Inquiry R α) (s : Session m) :
    (exec (askAtPoint q) s).2 = s ∨
      ∃ x, (exec (askAtPoint q) s).2 = (exec (askSolvers (q x)) s).2 := by
  unfold askAtPoint
  rw [exec_bind]
  rcases hl : exec live s with ⟨e | ⟨t, v⟩, s₁⟩
  · exact .inl (by simpa [hl] using exec_live s)
  · obtain rfl : s₁ = s := by simpa [hl] using exec_live s
    exact .inr ⟨Tensor.ofArray v.point, rfl⟩

/-- Not to keep an answer makes no difference to the session. -/
theorem exec_discard (e : Dealing m α) (s : Session m) :
    (exec (do let _ ← e : Dealing m Unit) s).2 = (exec e s).2 := by
  rw [exec_bind]
  rcases exec e s with ⟨e | a, s₁⟩ <;> rfl

/-- What holds of a session, and after every inquiry to the objective of its solver, holds after
every query. -/
theorem holds_after_query {C : Session m → Prop} (hs : C s)
    (hvalue : ∀ x, C (exec (askSolvers (Inquiry.value x)) s).2)
    (hgradient : ∀ x, C (exec (askSolvers (Inquiry.gradient x)) s).2)
    (hhessian : ∀ x, C (exec (askSolvers (Inquiry.hessian x)) s).2)
    (hreset : C (exec (askSolvers Inquiry.reset) s).2) (q : Query R) :
    C (s.moved (.query q)) := by
  have hpoint {α : Type} {ask : Tensor R → Inquiry R α}
      (h : ∀ x, C (exec (askSolvers (ask x)) s).2) : C (exec (askAtPoint ask) s).2 := by
    obtain hsame | ⟨x, hasked⟩ := left_of_askAtPoint ask s
    · rw [hsame]
      exact hs
    · rw [hasked]
      exact h x
  cases q with
  | look =>
      simp only [moved, query, exec_discard, exec_live]
      exact hs
  | gradientHere =>
      simp only [moved, query, exec_discard]
      exact hpoint hgradient
  | hessianHere =>
      simp only [moved, query, exec_discard]
      exact hpoint hhessian
  | value x =>
      simp only [moved, query, exec_discard]
      exact hvalue x
  | gradient x =>
      simp only [moved, query, exec_discard]
      exact hgradient x
  | hessian x =>
      simp only [moved, query, exec_discard]
      exact hhessian x
  | reset => exact hreset

theorem alike_query (q : Query R) (h : s.solver.Alike BothTruthful s'.solver) :
    (s.moved (.query q)).solver.Alike BothTruthful s'.solver :=
  holds_after_query (C := fun left => left.solver.Alike BothTruthful s'.solver) h
    (fun x => alike_askSolvers (Inquiry.honest_value x) h)
    (fun x => alike_askSolvers (Inquiry.honest_gradient x) h)
    (fun x => alike_askSolvers (Inquiry.honest_hessian x) h)
    (alike_askSolvers Inquiry.honest_reset h) q

theorem alike_step (h : s.solver.Alike BothTruthful s'.solver) :
    s.mark = s'.mark ∧ (s.moved .step).solver.Alike BothTruthful (s'.moved .step).solver := by
  obtain ⟨hout, hleft⟩ := Solver.coupled_iterate indistinct_bothTruthful s.solver s'.solver h
  refine ⟨?_, hleft⟩
  simp only [mark, iterate, exec_ofEngine]
  rw [hout, hleft.state, hleft.status, hleft.iterations]

theorem trace_of_alike (moves : List (Move R)) (h : s.solver.Alike BothTruthful s'.solver) :
    s.trace moves = s'.trace (moves.filter Move.isStep) ∧
      (s.after moves).solver.Alike BothTruthful (s'.after (moves.filter Move.isStep)).solver := by
  induction moves generalizing s s' with
  | nil => exact ⟨rfl, h⟩
  | cons move moves ih =>
      cases move with
      | step =>
          obtain ⟨hmark, hleft⟩ := alike_step h
          obtain ⟨htrace, hafter⟩ := ih hleft
          refine ⟨?_, hafter⟩
          show s.mark :: (s.moved .step).trace moves =
            s'.mark :: (s'.moved .step).trace (moves.filter Move.isStep)
          rw [hmark, htrace]
      | query q => exact ih (alike_query q h)

/-- After a set up the ledger is truthful. -/
theorem alike_of_setUp {f : Subject R} {c : Configuration R} {s₀ : Session m} {v : Snapshot R}
    (hf : (exec subject s).1 = .ok f) (hrespect : f.objective.RespectsEquality)
    (h : exec (setUp c) s = (.ok v, s₀)) : s₀.solver.Alike BothTruthful s₀.solver := by
  obtain ⟨a, -, hl⟩ := exec_setUp_ok hf h
  obtain ⟨-, -, -, -, htask⟩ := Solver.exec_launch_ok hl
  obtain ⟨-, htruthful⟩ := (m.start (a.situation f.objective.name)
    (a.region.project a.start)).run_truthful hrespect (Ledger.truthful_empty f.objective)
  refine ⟨rfl, ?_, rfl, rfl, rfl⟩
  rw [htask]
  exact .some ⟨_, rfl, hrespect, htruthful, htruthful⟩

/-- Whatever is asked between the steps of a run, the steps come to what they come to without it, and
in the end no more than the ledger tells the difference. -/
theorem steps_ignore_queries {f : Subject R} {c : Configuration R} {s₀ : Session m}
    {v : Snapshot R} (hf : (exec subject s).1 = .ok f) (hrespect : f.objective.RespectsEquality)
    (hset : exec (setUp c) s = (.ok v, s₀)) (moves : List (Move R)) :
    s₀.trace moves = s₀.trace (moves.filter Move.isStep) ∧
      (s₀.after moves).solver.Alike BothTruthful (s₀.after (moves.filter Move.isStep)).solver :=
  trace_of_alike moves (alike_of_setUp hf hrespect hset)

section

open Scripted

theorem homing_ignores_query :
    ∃ s₀ : Session homing,
      exec (setUp fromAway) { solver := Solver.new homing none, current := .other bowl } =
        (.ok away, s₀) ∧
      s₀.trace [.query (.value (Tensor.ofVector #v[1, 2])), .step] = s₀.trace [.step] := by
  obtain ⟨s₁, hl, -⟩ := homing_starts (Solver.new homing none)
  have hset : exec (setUp fromAway)
      { solver := Solver.new homing none, current := .other bowl } =
        (.ok away, { solver := s₁ }) := exec_setUp_of_launch (f := bowl) rfl (homing_accepts _) hl
  obtain ⟨htrace, -⟩ := steps_ignore_queries rfl bowl.objective.respectsEquality_real hset
    [.query (.value (Tensor.ofVector #v[1, 2])), .step]
  exact ⟨_, hset, htrace⟩

end

end Session

end Minima
