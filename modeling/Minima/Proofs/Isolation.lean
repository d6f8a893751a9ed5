import Minima.Proofs.Frame
import Minima.Proofs.Interleaving

/-!
# Runs in isolation

Accepting a configuration depends on nothing of a solver but its name, which no call changes, and a
set up overwrites everything that a run reads. So a run comes to the same after any session, and for
an objective of any past, as it does for a new solver and an objective that nothing was asked of.
-/

namespace Minima

variable {R : Type} [Scalar R] {m : Method R} {σ α : Type}

namespace Solver

theorem keeps_name_launch (f : Subject R) (a : Accepted R f.n) :
    Keeps name (launch f a : Engine m (Snapshot R)) := by
  intro s
  obtain ⟨events, h⟩ := exec_launch f a s
  rw [h]
  rcases opening m f a with ⟨e | st | ty, ledger⟩ <;> rfl

theorem keeps_name_iterate : Keeps name (iterate : Engine m Status) :=
  keeps_frame_iterate.reading Prod.fst

theorem keeps_name_runAccepted (f : Subject R) (a : Accepted R f.n) (order : Order R)
    (w : Watcher R σ) :
    Keeps (fun p => p.1.name) (runAccepted f a order w : Watched m σ (Results R)) := by
  refine keeps_bind (keeps_unwatched (keeps_name_launch f a)) fun _ => ?_
  refine keeps_bind ((keeps_frame_loop _ w _ _).reading Prod.fst) fun ending => ?_
  exact keeps_unwatched ((keeps_frame_results _ ending).reading Prod.fst)

end Solver

namespace Session

inductive Call (R : Type) [Scalar R] where
  /-- Make another objective current, with whatever was asked of it before. -/
  | take (f : Subject R)
  | setUp (c : Configuration R)
  | iterate
  | solve {σ : Type} (order : Solver.Order R) (w : Solver.Watcher R σ) (seen : σ)
  | query (q : Query R)
  /-- Ask the current objective. -/
  | ask {α : Type} (q : Inquiry R α)

def perform : Call R → Dealing m Unit
  | .take f => take f
  | .setUp c => do let _ ← setUp c
  | .iterate => do let _ ← iterate
  | .solve order w seen => do let _ ← solveWatched order w seen
  | .query q => query q
  | .ask q => do let _ ← ask q

/-- The session after the calls, of which any may have failed. -/
def afterCalls (s : Session m) (calls : List (Call R)) : Session m :=
  calls.foldl (fun s c => (exec (perform c) s).2) s

/-! ## Questions change no more than ledgers -/

def bareSolver (s : Session m) : Solver m := s.solver.bare

theorem keeps_bare_subject : Keeps bareSolver (subject : Dealing m (Subject R)) := by
  intro s
  rw [exec_subject]

theorem keeps_bare_live : Keeps bareSolver (live : Dealing m (Task R × Snapshot R)) := by
  intro s
  rw [exec_live]

theorem keeps_bare_askSolvers (q : Inquiry R α) :
    Keeps bareSolver (askSolvers q : Dealing m α) := by
  intro s
  cases ht : s.solver.task? with
  | none => rw [exec_askSolvers_absent ht]
  | some t =>
      rw [exec_askSolvers ht]
      simp [bareSolver, Solver.bare, ht]

theorem keeps_bare_askAtPoint (q : Tensor R → Inquiry R α) :
    Keeps bareSolver (askAtPoint q : Dealing m α) :=
  keeps_bind keeps_bare_live fun _ => keeps_bare_askSolvers _

theorem keeps_bare_ask (q : Inquiry R α) : Keeps bareSolver (ask q : Dealing m α) := by
  intro s
  simp only [ask, exec_bind, exec_get]
  cases s.current with
  | solvers => exact keeps_bare_askSolvers q s
  | other f => rfl

theorem keeps_bare_query (q : Query R) : Keeps bareSolver (query q : Dealing m Unit) := by
  cases q with
  | look => exact keeps_bind keeps_bare_live fun _ => keeps_pure _
  | gradientHere => exact keeps_bind (keeps_bare_askAtPoint _) fun _ => keeps_pure _
  | hessianHere => exact keeps_bind (keeps_bare_askAtPoint _) fun _ => keeps_pure _
  | value x => exact keeps_bind (keeps_bare_askSolvers _) fun _ => keeps_pure _
  | gradient x => exact keeps_bind (keeps_bare_askSolvers _) fun _ => keeps_pure _
  | hessian x => exact keeps_bind (keeps_bare_askSolvers _) fun _ => keeps_pure _
  | reset =>
      simp only [query]
      exact keeps_bare_askSolvers _

/-! ## No call changes the name -/

def solverName (s : Session m) : String := s.solver.name

theorem keeps_name_of_bare {e : Dealing m α} (h : Keeps bareSolver e) : Keeps solverName e :=
  h.reading Solver.name

theorem keeps_name_setUp (c : Configuration R) :
    Keeps solverName (setUp c : Dealing m (Snapshot R)) := by
  refine keeps_bind (keeps_name_of_bare keeps_bare_subject) fun f => keeps_get_bind fun s => ?_
  refine keeps_bind (keeps_lift _) fun a => ?_
  refine keeps_bind (keeps_modify fun s => rfl) fun _ => ?_
  exact fun s => Solver.keeps_name_launch f a s.solver

theorem keeps_name_solveWatched (order : Solver.Order R) (w : Solver.Watcher R σ) (seen : σ) :
    Keeps solverName (solveWatched order w seen : Dealing m (Results R)) := by
  refine keeps_bind (keeps_name_of_bare keeps_bare_subject) fun f => keeps_get_bind fun s => ?_
  refine keeps_bind (keeps_lift _) fun a => ?_
  refine keeps_bind (keeps_modify fun s => rfl) fun _ => ?_
  exact fun s => Solver.keeps_name_runAccepted f a order w (s.solver, seen)

theorem keeps_name_perform (c : Call R) : Keeps solverName (perform c : Dealing m Unit) := by
  cases c with
  | take f => exact keeps_modify fun s => rfl
  | setUp c => exact keeps_bind (keeps_name_setUp c) fun _ => keeps_pure _
  | iterate =>
      have hstep : Keeps solverName (iterate : Dealing m Status) :=
        fun s => Solver.keeps_name_iterate s.solver
      exact keeps_bind hstep fun _ => keeps_pure _
  | solve order w seen =>
      exact keeps_bind (keeps_name_solveWatched order w seen) fun _ => keeps_pure _
  | query q => exact keeps_name_of_bare (keeps_bare_query q)
  | ask q => exact keeps_bind (keeps_name_of_bare (keeps_bare_ask q)) fun _ => keeps_pure _

theorem name_afterCalls (s : Session m) (calls : List (Call R)) :
    (s.afterCalls calls).solver.name = s.solver.name := by
  induction calls generalizing s with
  | nil => rfl
  | cons c calls ih => exact (ih _).trans (keeps_name_perform c s)

end Session

/-! ## A set up forgets -/

def SameLedger {n : Nat} (_ : Objective R n) (l l' : Ledger R n) : Prop := l = l'

theorem indistinct_sameLedger : Indistinct (R := R) SameLedger := by
  rintro n α f d l _ rfl
  exact ⟨rfl, rfl⟩

namespace Solver

/-- Solvers that are alike with the same ledger differ in no more than what they have reported. -/
theorem alike_sameLedger_iff {s s' : Solver m} :
    s.Alike SameLedger s' ↔ ∃ events, s' = { s with events } := by
  constructor
  · intro h
    obtain ⟨name, task?, state?, status, count, events⟩ := s
    obtain ⟨name', task?', state?', status', count', events'⟩ := s'
    obtain ⟨hname, htask, hstate, hstatus, hcount⟩ := h
    dsimp only at hname htask hstate hstatus hcount
    subst hname hstate hstatus hcount
    cases htask with
    | none => exact ⟨events', rfl⟩
    | some halike =>
        obtain ⟨l', rfl, rfl⟩ := halike
        exact ⟨events', rfl⟩
  · rintro ⟨events, rfl⟩
    refine ⟨rfl, ?_, rfl, rfl, rfl⟩
    cases s.task? with
    | none => exact .none
    | some t => exact .some ⟨t.ledger, rfl, rfl⟩

theorem coupled_gauge (g : Gauge R α) :
    Coupled (Alike SameLedger) (gauge g : Engine m α) (gauge g) := by
  intro s s' h
  obtain ⟨events, heq⟩ := alike_sameLedger_iff.mp h
  have htask : s'.task? = s.task? := by rw [heq]
  cases ht : s.task? with
  | none =>
      rw [exec_gauge_absent ht, exec_gauge_absent (htask.trans ht)]
      exact ⟨rfl, h⟩
  | some t =>
      rw [exec_gauge ht, exec_gauge (htask.trans ht)]
      refine ⟨rfl, alike_sameLedger_iff.mpr ⟨events, ?_⟩⟩
      rw [heq]

theorem coupled_snapshot :
    Coupled (Alike SameLedger) (snapshot : Engine m (Snapshot R)) snapshot := by
  intro s s' h
  obtain ⟨events, rfl⟩ := alike_sameLedger_iff.mp h
  cases hv : s.snapshot? with
  | none =>
      rw [exec_snapshot_absent hv, exec_snapshot_absent (s := { s with events }) hv]
      exact ⟨rfl, h⟩
  | some v =>
      rw [exec_snapshot hv, exec_snapshot (s := { s with events }) hv]
      exact ⟨rfl, h⟩

theorem coupled_stopIfHolds (c : Criterion R) :
    Coupled (Alike SameLedger) (stopIfHolds c : Engine m (Option R)) (stopIfHolds c) := by
  refine coupled_bind coupled_snapshot fun v => coupled_get_bind fun s s' h => ?_
  rw [h.iterations]
  refine coupled_bind (coupled_gauge _) fun held => ?_
  cases held with
  | false => exact coupled_pure none
  | true =>
      refine coupled_bind (coupled_gauge _) fun measured => ?_
      refine coupled_bind (coupled_modify fun s s' h => ?_) fun _ => coupled_pure _
      exact ⟨h.name, h.task, h.state, rfl, h.iterations⟩

/-- Watched solvers that are alike, with watchers that have seen the same. -/
def WatchedAlike (p p' : Solver m × σ) : Prop := p.1.Alike SameLedger p'.1 ∧ p.2 = p'.2

theorem coupled_unwatched {e : Engine m α} (h : Coupled (Alike SameLedger) e e) :
    Coupled WatchedAlike (unwatched e : Watched m σ α) (unwatched e) := by
  rintro ⟨s, seen⟩ ⟨s', _⟩ ⟨hs, rfl⟩
  obtain ⟨hout, hleft⟩ := h s s' hs
  exact ⟨hout, hleft, rfl⟩

theorem coupled_watch (w : Watcher R σ) (v : Snapshot R) :
    Coupled WatchedAlike (watch w v : Watched m σ Unit) (watch w v) := by
  rintro ⟨s, seen⟩ ⟨s', _⟩ ⟨hs, rfl⟩
  obtain ⟨events, heq⟩ := alike_sameLedger_iff.mp hs
  dsimp only at heq ⊢
  have htask : s'.task? = s.task? := by rw [heq]
  have hcount : s'.iterations = s.iterations := by rw [heq]
  cases ht : s.task? with
  | none =>
      rw [exec_watch_absent ht, exec_watch_absent (htask.trans ht), heq]
      exact ⟨rfl, alike_sameLedger_iff.mpr ⟨events, rfl⟩, rfl⟩
  | some t =>
      rw [exec_watch ht, exec_watch (htask.trans ht), hcount]
      refine ⟨rfl, alike_sameLedger_iff.mpr ⟨events, ?_⟩, rfl⟩
      dsimp only
      rw [heq]

theorem coupled_advance (criterion? : Option (Criterion R)) (w : Watcher R σ) :
    Coupled WatchedAlike
      (advance criterion? w : Watched m σ (Snapshot R × Option (Criterion R × R)))
      (advance criterion? w) := by
  refine coupled_bind (coupled_unwatched (coupled_iterate indistinct_sameLedger)) fun status => ?_
  refine coupled_bind (coupled_unwatched coupled_snapshot) fun v => ?_
  refine coupled_bind (coupled_watch w v) fun _ => ?_
  cases criterion? with
  | none => exact coupled_pure _
  | some c =>
      cases status.isTerminal with
      | true => exact coupled_pure _
      | false =>
          refine coupled_bind (coupled_unwatched (coupled_stopIfHolds c)) fun measured? => ?_
          exact coupled_pure _

theorem coupled_loop (criterion? : Option (Criterion R)) (w : Watcher R σ) (fuel : Nat)
    (history : Array (Snapshot R)) :
    Coupled WatchedAlike (loop criterion? w fuel history : Watched m σ (Ending R))
      (loop criterion? w fuel history) := by
  induction fuel generalizing history with
  | zero =>
      unfold loop
      refine coupled_get_bind fun p p' h => ?_
      dsimp only
      rw [h.1.status]
      cases p'.1.status.isTerminal with
      | true => exact coupled_pure _
      | false => exact coupled_throw _
  | succ fuel ih =>
      unfold loop
      refine coupled_get_bind fun p p' h => ?_
      dsimp only
      rw [h.1.status]
      cases p'.1.status.isTerminal with
      | true => exact coupled_pure _
      | false =>
          refine coupled_bind (coupled_advance criterion? w) fun r => ?_
          obtain ⟨v, _ | ⟨c, measured⟩⟩ := r
          · exact ih (history.push v)
          · exact coupled_pure _

theorem coupled_results (elapsed? : Option R) (ending : Ending R) :
    Coupled (Alike SameLedger) (results elapsed? ending : Engine m (Results R))
      (results elapsed? ending) := by
  refine coupled_bind coupled_snapshot fun v => coupled_get_bind fun s s' h => ?_
  obtain ⟨events, rfl⟩ := alike_sameLedger_iff.mp h
  refine coupled_bind (coupled_modify fun s s' h => ?_) fun _ => coupled_pure _
  exact ⟨h.name, h.task, h.state, h.status, h.iterations⟩

theorem acceptOrder_of_name {s s' : Solver m} (h : s.name = s'.name) (n : Nat) (order : Order R) :
    s.acceptOrder n order = s'.acceptOrder n order := by
  simp only [acceptOrder, accept, acceptOptions, h]

/-- A set up overwrites all but the name and what was reported, and reads nothing of what the
objective was asked before. -/
theorem launch_forgets (f : Subject R) (a : Accepted R f.n) {s s' : Solver m}
    (h : s.name = s'.name) :
    (exec (launch f a) s).1 = (exec (launch f.reset a) s').1 ∧
      ∀ v, (exec (launch f a) s).1 = .ok v →
        (exec (launch f a) s).2.Alike SameLedger (exec (launch f.reset a) s').2 := by
  obtain ⟨events, heq⟩ := exec_launch f a s
  obtain ⟨events', heq'⟩ := exec_launch f.reset a s'
  rw [heq, heq']
  rcases ho : opening m f a with ⟨e | st | typeName, ledger⟩
  · have ho' : opening m f.reset a = (.error e, ledger) := ho
    rw [ho']
    exact ⟨rfl, fun v hv => by cases hv⟩
  · have ho' : opening m f.reset a = (.ok (.state st), ledger) := ho
    rw [ho']
    refine ⟨rfl, fun v hv => alike_sameLedger_iff.mpr ⟨events', ?_⟩⟩
    simp only [adopt, h]
    rfl
  · have ho' : opening m f.reset a = (.ok (.foreign typeName), ledger) := ho
    rw [ho']
    exact ⟨rfl, fun v hv => by cases hv⟩

theorem runAccepted_forgets (f : Subject R) (a : Accepted R f.n) (order : Order R)
    (w : Watcher R σ) (seen : σ) {s s' : Solver m} (h : s.name = s'.name) :
    (exec (runAccepted f a order w) (s, seen)).1 =
        (exec (runAccepted f.reset a order w) (s', seen)).1 ∧
      (exec (runAccepted f a order w) (s, seen)).2.2 =
        (exec (runAccepted f.reset a order w) (s', seen)).2.2 := by
  obtain ⟨hout, halike⟩ := launch_forgets f a h
  unfold runAccepted
  rw [exec_bind, exec_bind, exec_unwatched, exec_unwatched]
  dsimp only
  rcases hl : exec (launch f a) s with ⟨e | v, s₁⟩
  · rcases hl' : exec (launch f.reset a) s' with ⟨e' | v', s₁'⟩
    · rw [hl, hl'] at hout
      cases hout
      exact ⟨rfl, rfl⟩
    · rw [hl, hl'] at hout
      cases hout
  · rcases hl' : exec (launch f.reset a) s' with ⟨e' | v', s₁'⟩
    · rw [hl, hl'] at hout
      cases hout
    · rw [hl, hl'] at halike
      have hrest := coupled_bind (coupled_loop (m := m) (asked? m order) w order.horizon #[])
        fun ending => coupled_unwatched (coupled_results order.elapsed? ending)
      obtain ⟨hresult, -, hseen⟩ := hrest (s₁, seen) (s₁', seen) ⟨halike v rfl, rfl⟩
      exact ⟨hresult, hseen⟩

/-- After any calls, and on an objective of any past, a run returns the results or the failure that
it returns for a new solver and an objective that was never asked, and its watcher has seen the
same. -/
theorem run_after_any_calls (m : Method R) (name : Option String) (calls : List (Session.Call R))
    (f : Subject R) (order : Order R) (w : Watcher R σ) (seen : σ) :
    (exec (solveWatched f order w)
        (((Session.new m name).afterCalls calls).solver, seen)).1 =
        (exec (solveWatched f.reset order w) (Solver.new m name, seen)).1 ∧
      (exec (solveWatched f order w)
        (((Session.new m name).afterCalls calls).solver, seen)).2.2 =
        (exec (solveWatched f.reset order w) (Solver.new m name, seen)).2.2 := by
  have hname : ((Session.new m name).afterCalls calls).solver.name = (Solver.new m name).name :=
    Session.name_afterCalls (Session.new m name) calls
  rw [exec_solveWatched, exec_solveWatched, acceptOrder_of_name hname]
  cases ha : (Solver.new m name).acceptOrder f.n order with
  | error e =>
      have ha' : (Solver.new m name).acceptOrder f.reset.n order = .error e := ha
      rw [ha']
      exact ⟨rfl, rfl⟩
  | ok a =>
      have ha' : (Solver.new m name).acceptOrder f.reset.n order = .ok a := ha
      rw [ha']
      exact runAccepted_forgets f a order w seen hname

end Solver

end Minima
