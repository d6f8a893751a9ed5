import Mathlib.Tactic.Common
import Minima.Session

/-!
# Running the engine

`exec` runs a computation of a solver, of a solver with a watcher or of a session, and keeps what it
has done when it fails. Below are the laws of `exec` and, for every operation of the engine, one
equation that says what it returns and what it leaves. Later modules cite these equations and do not
open the operations.
-/

namespace Minima

variable {E S α β : Type}

/-- What a computation returns from a state, and the state that it leaves. -/
def exec (e : ExceptT E (StateM S) α) (s : S) : Except E α × S := e.run.run s

@[simp] theorem exec_pure (a : α) (s : S) :
    exec (pure a : ExceptT E (StateM S) α) s = (.ok a, s) := rfl

@[simp] theorem exec_throw (e : E) (s : S) :
    exec (throw e : ExceptT E (StateM S) α) s = (.error e, s) := rfl

@[simp] theorem exec_get (s : S) :
    exec (get : ExceptT E (StateM S) S) s = (.ok s, s) := rfl

@[simp] theorem exec_set (t s : S) :
    exec (set t : ExceptT E (StateM S) PUnit) s = (.ok ⟨⟩, t) := rfl

@[simp] theorem exec_modify (f : S → S) (s : S) :
    exec (modify f : ExceptT E (StateM S) PUnit) s = (.ok ⟨⟩, f s) := rfl

@[simp] theorem exec_lift (a : Except E α) (s : S) :
    exec (liftM a : ExceptT E (StateM S) α) s = (a, s) := rfl

theorem exec_bind (e : ExceptT E (StateM S) α) (k : α → ExceptT E (StateM S) β) (s : S) :
    exec (e >>= k) s =
      match exec e s with
      | (.ok a, s') => exec (k a) s'
      | (.error f, s') => (.error f, s') := by
  unfold exec
  simp only [ExceptT.run_bind, StateT.run_bind]
  rcases h : (e.run.run s) with ⟨a | a, s'⟩ <;> simp_all <;> rfl

/-- A sequence that succeeds does so through a success of its first part. -/
theorem exec_bind_eq_ok {e : ExceptT E (StateM S) α} {k : α → ExceptT E (StateM S) β}
    {s s' : S} {b : β} :
    exec (e >>= k) s = (.ok b, s') ↔
      ∃ a s₁, exec e s = (.ok a, s₁) ∧ exec (k a) s₁ = (.ok b, s') := by
  rw [exec_bind]
  rcases h : exec e s with ⟨f | a, s₁⟩
  · simp
  · simp

theorem Status.isTerminal_eq_false_iff {s : Status} : s.isTerminal = false ↔ s = .running := by
  cases s <;> simp [Status.isTerminal]

namespace Solver

variable {R : Type} [Scalar R] {m : Method R} {σ α : Type}

theorem exec_report (e : Event R) (s : Solver m) :
    exec (report e) s = (.ok (), { s with events := s.events.push e }) := rfl

/-- The first state that the method makes of an accepted configuration, and the ledger after it. -/
def opening (m : Method R) (f : Subject R) (a : Accepted R f.n) :
    Attempt R (Produced (m.State f.n)) × Ledger R f.n :=
  (m.start (a.situation f.objective.name) (a.region.project a.start)).run f.objective {}

theorem exec_launch (f : Subject R) (a : Accepted R f.n) (s : Solver m) :
    ∃ events, exec (launch f a) s =
      match opening m f a with
      | (.ok (.state st), ledger) =>
        (.ok (m.view st),
          { s.adopt f a ledger with
            state? := some ⟨f.n, st⟩
            status := if (m.view st).isFinite then .running else .outOfControl
            events })
      | (.ok (.foreign typeName), ledger) =>
        (.error (.notAState m.className .start typeName), s.adopt f a ledger)
      | (.error e, ledger) => (.error e, s.adopt f a ledger) := by
  simp only [launch, exec_bind, exec_get, exec_modify, exec_lift]
  rw [show (m.start _ _).run f.objective {} = opening m f a from rfl]
  rcases opening m f a with ⟨e | st | ty, ledger⟩
  · exact ⟨#[], rfl⟩
  · cases hv : (m.view st).isFinite with
    | true =>
        refine ⟨s.events.push (.setUp s.name a.start.toArray (m.view st).value), ?_⟩
        simp [exec_bind, hv]
        rfl
    | false =>
        refine ⟨(s.events.push (.startNotFinite s.name)).push
          (.setUp s.name a.start.toArray (m.view st).value), ?_⟩
        simp [exec_bind, hv, exec_report]
        rfl
  · exact ⟨#[], rfl⟩

/-- A set up that returns has made a state: it returns its view, and stores it with the ledger. -/
theorem exec_launch_made {f : Subject R} {a : Accepted R f.n} {s s' : Solver m} {v : Snapshot R}
    (h : exec (launch f a) s = (.ok v, s')) :
    ∃ st ledger events, opening m f a = (.ok (.state st), ledger) ∧ m.view st = v ∧
      s' = { s.adopt f a ledger with
        state? := some ⟨f.n, st⟩
        status := if v.isFinite then .running else .outOfControl
        events } := by
  obtain ⟨events, heq⟩ := exec_launch f a s
  rw [heq] at h
  rcases ho : opening m f a with ⟨e | st | ty, ledger⟩
  · simp [ho] at h
  · rw [ho] at h
    cases h
    exact ⟨st, ledger, events, rfl, rfl, rfl⟩
  · simp [ho] at h

/-- What a set up leaves when it returns. -/
theorem exec_launch_ok {f : Subject R} {a : Accepted R f.n} {s s' : Solver m} {v : Snapshot R}
    (h : exec (launch f a) s = (.ok v, s')) :
    s'.name = s.name ∧ s'.iterations = 0 ∧ s'.snapshot? = some v ∧
      s'.status = (if v.isFinite then .running else .outOfControl) ∧
      s'.task? = some { f with
        ledger := (opening m f a).2, options := a.options, region := a.region } := by
  obtain ⟨st, ledger, events, ho, rfl, rfl⟩ := exec_launch_made h
  rw [ho]
  exact ⟨rfl, rfl, rfl, rfl, rfl⟩

/-- If the method makes nothing but states, a set up returns, or it fails as the start does. -/
theorem exec_launch_of_states {f : Subject R} {a : Accepted R f.n}
    (hmade : ∀ p, (opening m f a).1 = .ok p → ∃ st, p = .state st) (s : Solver m) :
    (∃ v s', exec (launch f a) s = (.ok v, s')) ∨
      ∃ e s', (opening m f a).1 = .error e ∧ exec (launch f a) s = (.error e, s') := by
  obtain ⟨events, heq⟩ := exec_launch f a s
  rw [heq]
  rcases ho : opening m f a with ⟨e | st | ty, ledger⟩
  · exact .inr ⟨e, _, rfl, rfl⟩
  · exact .inl ⟨_, _, rfl⟩
  · obtain ⟨st, hst⟩ := hmade _ (congrArg Prod.fst ho)
    cases hst

theorem exec_setUp (f : Subject R) (c : Configuration R) (s : Solver m) :
    exec (setUp f c) s =
      match s.accept f.n c with
      | .ok a => exec (launch f a) s
      | .error e => (.error e, s) := by
  simp only [setUp, exec_bind, exec_get, exec_lift]
  rcases s.accept f.n c with e | a <;> rfl

theorem exec_setUp_of_accept {f : Subject R} {c : Configuration R} {s : Solver m}
    {a : Accepted R f.n} (ha : s.accept f.n c = .ok a) :
    exec (setUp f c) s = exec (launch f a) s := by
  rw [exec_setUp, ha]

/-- The next state of a step and the status that goes with it, where a numerical failure keeps the
old state. -/
def settled {n : Nat} (st : Σ n, m.State n) :
    Attempt R (Produced (m.State n) × Status) → Attempt R ((Σ n, m.State n) × Status)
  | .ok (.state next, status) => .ok (⟨n, next⟩, status)
  | .ok (.foreign typeName, _) => .error (.notAState m.className .step typeName)
  | .error e => if e.isNumerical then .ok (st, .outOfControl) else .error e

theorem exec_settle {n k : Nat} (owner : String) (count : Nat) (st : m.State k)
    (outcome : Attempt R (Produced (m.State n) × Status)) (s : Solver m) :
    ∃ events, exec (settle owner count st outcome) s =
      (settled ⟨k, st⟩ outcome, { s with events }) := by
  rcases outcome with e | ⟨next | ty, status⟩
  · cases he : e.isNumerical with
    | false =>
        refine ⟨s.events, ?_⟩
        simp only [settle, settled, he]
        rfl
    | true =>
        refine ⟨s.events.push (.absorbed owner (count + 1) e), ?_⟩
        simp only [settle, settled, he]
        rfl
  · exact ⟨s.events, rfl⟩
  · exact ⟨s.events, rfl⟩

/-- What a step of a run comes to, from what the method came to: the next state and the status after
classification. -/
def concluded {n : Nat} (options : Options R) (st : Σ n, m.State n)
    (outcome : Attempt R (Produced (m.State n) × Status)) :
    Attempt R ((Σ n, m.State n) × Status) :=
  match settled st outcome with
  | .ok (next, reported) => (classify options (m.view next.2) reported).map (next, ·)
  | .error e => .error e

theorem exec_iterate_live {s : Solver m} {t : Task R} {k : Nat} {st : m.State k}
    (ht : s.task? = some t) (hst : s.state? = some ⟨k, st⟩) (hrun : s.status.isTerminal = false) :
    ∃ events, exec iterate s =
      match concluded t.options ⟨k, st⟩ (attemptStep t s.iterations st).1 with
      | .ok (next, status) =>
        (.ok status,
          { s with
            task? := some { t with ledger := (attemptStep t s.iterations st).2 }
            state? := some next
            status
            iterations := s.iterations + 1
            events })
      | .error e =>
        (.error e,
          { s with
            task? := some { t with ledger := (attemptStep t s.iterations st).2 }
            events }) := by
  obtain ⟨name, task?, state?, status, iterations, events⟩ := s
  dsimp only at ht hst hrun ⊢
  subst ht hst
  obtain ⟨events', hs⟩ := exec_settle name iterations st (attemptStep t iterations st).1
    { name, task? := some { t with ledger := (attemptStep t iterations st).2 },
      state? := some ⟨k, st⟩, status, iterations, events }
  simp only [iterate, exec_bind, exec_get, hrun, Bool.false_eq_true, if_false, exec_modify, hs,
    concluded]
  rcases settled ⟨k, st⟩ (attemptStep t iterations st).1 with e | ⟨next, reported⟩
  · exact ⟨events', rfl⟩
  · simp only [exec_lift]
    rcases classify t.options (m.view next.2) reported with e | status'
    · exact ⟨events', rfl⟩
    · exact ⟨_, rfl⟩

/-- A step of a running solver fails with what it concludes in, and leaves all but the ledger. -/
theorem exec_iterate_live_error {s s' : Solver m} {t : Task R} {k : Nat} {st : m.State k}
    {e : Failure R} (ht : s.task? = some t) (hst : s.state? = some ⟨k, st⟩)
    (hrun : s.status.isTerminal = false) (h : exec iterate s = (.error e, s')) :
    concluded t.options ⟨k, st⟩ (attemptStep t s.iterations st).1 = .error e ∧
      ∃ events, s' = { s with
        task? := some { t with ledger := (attemptStep t s.iterations st).2 }
        events } := by
  obtain ⟨events, heq⟩ := exec_iterate_live ht hst hrun
  rw [heq] at h
  cases hc : concluded t.options ⟨k, st⟩ (attemptStep t s.iterations st).1 with
  | ok r => simp [hc] at h
  | error e' =>
      rw [hc] at h
      cases h
      exact ⟨rfl, events, rfl⟩

/-- A step that ends the run in a finite state keeps the status that it reports. -/
theorem classify_ended {options : Options R} {v : Snapshot R} {reported : Status}
    (hv : v.isFinite = true) (hr : reported ≠ .running) :
    classify options v reported = .ok reported := by
  unfold classify
  simp [hv, hr]
  rfl

theorem exec_iterate_finished {s : Solver m} {t : Task R} {st : Σ n, m.State n}
    (ht : s.task? = some t) (hst : s.state? = some st) (hover : s.status.isTerminal = true) :
    exec iterate s = (.error (.misuse (.finished s.name s.status.name)), s) := by
  simp only [iterate, exec_bind, exec_get, ht, hst, hover, if_true]
  rfl

theorem exec_iterate_absent {s : Solver m} (h : s.task? = none ∨ s.state? = none) :
    exec iterate s = (.error (.misuse (.notSetUp s.name)), s) := by
  simp only [iterate, exec_bind, exec_get]
  rcases h with h | h
  · rw [h]
    rfl
  · rw [h]
    cases s.task? <;> rfl

/-- A step that returns is made from a live running solver; it stores the next state and the status
it returns, and is counted. -/
theorem exec_iterate_ok {s s' : Solver m} {status : Status}
    (h : exec iterate s = (.ok status, s')) :
    s.status = .running ∧ s'.status = status ∧ s'.name = s.name ∧
      s'.iterations = s.iterations + 1 ∧
      ∃ (t : Task R) (k : Nat) (st : m.State k) (next : Σ n, m.State n),
        s.task? = some t ∧ s.state? = some ⟨k, st⟩ ∧
        concluded t.options ⟨k, st⟩ (attemptStep t s.iterations st).1 = .ok (next, status) ∧
        s'.task? = some { t with ledger := (attemptStep t s.iterations st).2 } ∧
        s'.state? = some next := by
  cases ht : s.task? with
  | none => simp [exec_iterate_absent (.inl ht)] at h
  | some t =>
      cases hst : s.state? with
      | none => simp [exec_iterate_absent (.inr hst)] at h
      | some st =>
          obtain ⟨k, st⟩ := st
          cases hrun : s.status.isTerminal with
          | true => simp [exec_iterate_finished ht hst hrun] at h
          | false =>
              obtain ⟨events, heq⟩ := exec_iterate_live ht hst hrun
              rw [heq] at h
              cases hc : concluded t.options ⟨k, st⟩ (attemptStep t s.iterations st).1 with
              | error e => simp [hc] at h
              | ok r =>
                  obtain ⟨next, status'⟩ := r
                  simp only [hc, Prod.mk.injEq, Except.ok.injEq] at h
                  obtain ⟨rfl, rfl⟩ := h
                  exact ⟨Status.isTerminal_eq_false_iff.mp hrun, rfl, rfl, rfl,
                    t, k, st, next, rfl, rfl, hc, rfl, rfl⟩

/-- A step fails because it comes at the wrong time, or because of what it concludes in; then it
leaves all but the ledger. -/
theorem exec_iterate_error {s s' : Solver m} {e : Failure R}
    (h : exec iterate s = (.error e, s')) :
    (∃ fault, e = .misuse fault) ∧ s' = s ∨
      ∃ (t : Task R) (k : Nat) (st : m.State k) (events : Array (Event R)),
        s.task? = some t ∧ s.state? = some ⟨k, st⟩ ∧ s.status = .running ∧
        concluded t.options ⟨k, st⟩ (attemptStep t s.iterations st).1 = .error e ∧
        s' = { s with
          task? := some { t with ledger := (attemptStep t s.iterations st).2 }
          events } := by
  cases ht : s.task? with
  | none =>
      rw [exec_iterate_absent (.inl ht)] at h
      cases h
      exact .inl ⟨⟨_, rfl⟩, rfl⟩
  | some t =>
      cases hst : s.state? with
      | none =>
          rw [exec_iterate_absent (.inr hst)] at h
          cases h
          exact .inl ⟨⟨_, rfl⟩, rfl⟩
      | some st =>
          obtain ⟨k, st⟩ := st
          cases hrun : s.status.isTerminal with
          | true =>
              rw [exec_iterate_finished ht hst hrun] at h
              cases h
              exact .inl ⟨⟨_, rfl⟩, rfl⟩
          | false =>
              obtain ⟨hc, events, rfl⟩ := exec_iterate_live_error ht hst hrun h
              exact .inr ⟨t, k, st, events, rfl, rfl, Status.isTerminal_eq_false_iff.mp hrun, hc,
                by rw [hst]⟩

/-! ## Runs -/

theorem exec_unwatched (e : Engine m α) (p : Solver m × σ) :
    exec (unwatched e : Watched m σ α) p = ((exec e p.1).1, (exec e p.1).2, p.2) := rfl

theorem exec_unwatched_eq_ok_iff {e : Engine m α} {s : Solver m} {seen : σ} {x : α}
    {p : Solver m × σ} :
    exec (unwatched e) (s, seen) = (.ok x, p) ↔ ∃ s', exec e s = (.ok x, s') ∧ p = (s', seen) := by
  rw [exec_unwatched]
  rcases exec e s with ⟨outcome, s'⟩
  simp [Prod.ext_iff, eq_comm, and_assoc]

theorem exec_snapshot {s : Solver m} {v : Snapshot R} (h : s.snapshot? = some v) :
    exec snapshot s = (.ok v, s) := by
  simp only [snapshot, exec_bind, exec_get, h]
  rfl

theorem exec_snapshot_absent {s : Solver m} (h : s.snapshot? = none) :
    exec snapshot s = (.error (.misuse (.notSetUp s.name)), s) := by
  simp only [snapshot, exec_bind, exec_get, h]
  rfl

/-- What a gauge measures on an objective, and the ledger after it. -/
def gauged {n : Nat} (f : Objective R n) (g : Gauge R α) (l : Ledger R n) :
    Attempt R α × Ledger R n :=
  g.play (fun point => Ledger.request f (Ledger.gradient f) (Tensor.ofArray point)) l

theorem exec_gauge {s : Solver m} {t : Task R} (h : s.task? = some t) (g : Gauge R α) :
    exec (gauge g) s =
      ((gauged t.objective g t.ledger).1,
        { s with task? := some { t with ledger := (gauged t.objective g t.ledger).2 } }) := by
  simp only [gauge, exec_bind, exec_get, h]
  rfl

theorem exec_gauge_absent {s : Solver m} (h : s.task? = none) (g : Gauge R α) :
    exec (gauge g) s = (.error (.configuration .gradientWithoutObjective), s) := by
  simp only [gauge, exec_bind, exec_get, h]
  rfl

theorem exec_watch {s : Solver m} {t : Task R} (h : s.task? = some t) (w : Watcher R σ)
    (v : Snapshot R) (seen : σ) :
    exec (watch w v) (s, seen) =
      let r := w v s.iterations t.n t.objective (t.ledger, seen)
      (r.1, { s with task? := some { t with ledger := r.2.1 } }, r.2.2) := by
  simp only [watch, exec_bind, exec_get, h]
  rfl

theorem exec_watch_absent {s : Solver m} (h : s.task? = none) (w : Watcher R σ) (v : Snapshot R)
    (seen : σ) :
    exec (watch w v) (s, seen) = (.error (.misuse (.notSetUp s.name)), s, seen) := by
  simp only [watch, exec_bind, exec_get, h]
  rfl

/-- The results of a run that ended with the snapshot `v`. -/
def summed (s : Solver m) (t : Task R) (v : Snapshot R) (elapsed? : Option R) (e : Ending R) :
    Results R where
  solver := s.name
  status := s.status
  iterations := s.iterations
  evaluations := ⟨t.ledger.values, t.ledger.gradients, t.ledger.hessians⟩
  cause := e.cause
  measured? := e.measured?
  elapsed?
  final := v
  history := e.history

def announced (s : Solver m) (r : Results R) : Solver m :=
  { s with events := s.events.push (if r.converged then .succeeded r else .ended r) }

theorem exec_results {s : Solver m} {t : Task R} {v : Snapshot R} (ht : s.task? = some t)
    (hv : s.snapshot? = some v) (elapsed? : Option R) (e : Ending R) :
    exec (results elapsed? e) s =
      (.ok (s.summed t v elapsed? e), s.announced (s.summed t v elapsed? e)) := by
  obtain ⟨name, task?, state?, status, iterations, events⟩ := s
  dsimp only at ht
  subst ht
  simp only [results, exec_bind, exec_snapshot hv, exec_get]
  rfl

theorem exec_loop_ended {s : Solver m} (seen : σ) (h : s.status.isTerminal = true)
    (criterion? : Option (Criterion R)) (w : Watcher R σ) (fuel : Nat)
    (history : Array (Snapshot R)) :
    exec (loop criterion? w fuel history) (s, seen) =
      (.ok { history, cause := .method s.status, measured? := none }, s, seen) := by
  unfold loop
  simp only [exec_bind, exec_get, h, if_true]
  rfl

theorem exec_loop_cut {s : Solver m} (seen : σ) (h : s.status.isTerminal = false)
    (criterion? : Option (Criterion R)) (w : Watcher R σ) (history : Array (Snapshot R)) :
    exec (loop criterion? w 0 history) (s, seen) = (.error .cutOff, s, seen) := by
  unfold loop
  simp only [exec_bind, exec_get, h]
  rfl

theorem exec_loop_succ {s : Solver m} (seen : σ) (h : s.status.isTerminal = false)
    (criterion? : Option (Criterion R)) (w : Watcher R σ) (fuel : Nat)
    (history : Array (Snapshot R)) :
    exec (loop criterion? w (fuel + 1) history) (s, seen) =
      match exec (advance criterion? w) (s, seen) with
      | (.ok (v, some (c, measured)), final) =>
        (.ok { history := history.push v, cause := .criterion c, measured? := some measured }, final)
      | (.ok (v, none), next) => exec (loop criterion? w fuel (history.push v)) next
      | (.error e, left) => (.error e, left) := by
  conv_lhs => unfold loop
  simp only [exec_bind, exec_get, h, Bool.false_eq_true, if_false]
  rcases exec (advance criterion? w) (s, seen) with ⟨e | ⟨v, _ | ⟨c, measured⟩⟩, next⟩ <;> rfl

theorem exec_solveWatched (f : Subject R) (order : Order R) (w : Watcher R σ) (s : Solver m)
    (seen : σ) :
    exec (solveWatched f order w) (s, seen) =
      match s.acceptOrder f.n order with
      | .ok a => exec (runAccepted f a order w) (s, seen)
      | .error e => (.error e, s, seen) := by
  simp only [solveWatched, exec_bind, exec_get, exec_lift]
  rcases s.acceptOrder f.n order with e | a <;> rfl

end Solver

/-! ## Sessions -/

namespace Session

variable {R : Type} [Scalar R] {m : Method R} {α σ : Type}

theorem exec_ofEngine (e : Engine m α) (s : Session m) :
    exec (ofEngine e) s = ((exec e s.solver).1, { s with solver := (exec e s.solver).2 }) := rfl

theorem exec_live (s : Session m) : (exec live s).2 = s := by
  simp only [live, exec_bind, exec_get]
  rcases s.solver.task? with _ | t
  · rfl
  · rcases s.solver.snapshot? with _ | v
    · rfl
    · rfl

theorem exec_subject (s : Session m) : (exec subject s).2 = s := by
  simp only [subject, exec_bind, exec_get]
  rcases s.current with _ | f
  · rcases s.solver.task? with _ | t
    · rfl
    · rfl
  · rfl

theorem exec_setUp {f : Subject R} {c : Configuration R} {s : Session m}
    (hf : (exec subject s).1 = .ok f) :
    exec (setUp c) s =
      match s.solver.accept f.n c with
      | .ok a =>
        ((exec (Solver.launch f a) s.solver).1,
          { solver := (exec (Solver.launch f a) s.solver).2 })
      | .error e => (.error e, s) := by
  have hsubject : exec subject s = (.ok f, s) := Prod.ext hf (exec_subject s)
  simp only [setUp, exec_bind, hsubject, exec_get, exec_lift, exec_modify, exec_ofEngine]
  rcases s.solver.accept f.n c with e | a <;> rfl

theorem exec_setUp_of_launch {f : Subject R} {c : Configuration R} {s : Session m}
    {a : Solver.Accepted R f.n} {v : Snapshot R} {s₀ : Solver m} (hf : (exec subject s).1 = .ok f)
    (ha : s.solver.accept f.n c = .ok a) (hl : exec (Solver.launch f a) s.solver = (.ok v, s₀)) :
    exec (setUp c) s = (.ok v, { solver := s₀ }) := by
  rw [exec_setUp hf, ha]
  simp only [hl]

/-- A set up that returns was accepted. -/
theorem exec_setUp_ok {f : Subject R} {c : Configuration R} {s s' : Session m} {v : Snapshot R}
    (hf : (exec subject s).1 = .ok f) (h : exec (setUp c) s = (.ok v, s')) :
    ∃ a : Solver.Accepted R f.n, s.solver.accept f.n c = .ok a ∧
      exec (Solver.launch f a) s.solver = (.ok v, s'.solver) := by
  rw [exec_setUp hf] at h
  cases ha : s.solver.accept f.n c with
  | error e => simp [ha] at h
  | ok a =>
      rw [ha] at h
      obtain ⟨hv, rfl⟩ := Prod.mk.inj h
      exact ⟨a, rfl, by rw [← hv]⟩

theorem exec_solveWatched {f : Subject R} {order : Solver.Order R} {w : Solver.Watcher R σ}
    {seen : σ} {s : Session m} (hf : (exec subject s).1 = .ok f) :
    exec (solveWatched order w seen) s =
      match s.solver.acceptOrder f.n order with
      | .ok a =>
        ((exec (Solver.runAccepted f a order w) (s.solver, seen)).1,
          { solver := (exec (Solver.runAccepted f a order w) (s.solver, seen)).2.1 })
      | .error e => (.error e, s) := by
  have hsubject : exec subject s = (.ok f, s) := Prod.ext hf (exec_subject s)
  simp only [solveWatched, exec_bind, hsubject, exec_get, exec_lift, exec_modify]
  rcases s.solver.acceptOrder f.n order with e | a <;> rfl

theorem exec_askSolvers {s : Session m} {t : Task R} (ht : s.solver.task? = some t)
    (q : Inquiry R α) :
    exec (askSolvers q) s =
      ((q t.n t.objective t.ledger).1,
        { s with solver := { s.solver with
          task? := some { t with ledger := (q t.n t.objective t.ledger).2 } } }) := by
  simp only [askSolvers, exec_bind, exec_get, ht]
  rfl

theorem exec_askSolvers_absent {s : Session m} (ht : s.solver.task? = none) (q : Inquiry R α) :
    exec (askSolvers q) s = (.error (.misuse (.notSetUp s.solver.name)), s) := by
  simp only [askSolvers, exec_bind, exec_get, ht]
  rfl

end Session

end Minima
