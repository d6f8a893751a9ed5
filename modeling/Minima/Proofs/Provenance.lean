import Minima.Proofs.Atomicity
import Minima.Proofs.ExactRuns
import Minima.Proofs.Isolation
import Minima.Proofs.RunControl

/-!
# Where a live state comes from

A set up takes over the objective, the options and the region before the method has made a state, and
the state of an earlier run stays until there is another one. So after any calls the live state comes
by steps on the task of the last set up that was accepted, and it comes from the state that this set
up has made, if it has made one. If it has not, it comes from the state that the solver held before,
of whatever run that was.
-/

namespace Minima

variable {R : Type} [Scalar R] {m : Method R} {σ α : Type}

namespace Solver

/-! ## States of a task -/

/-- The states that the method's steps on a task make of `st`. -/
inductive Descends (t : Task R) (st : Σ n, m.State n) : (Σ n, m.State n) → Prop
  | start : Descends t st st
  | step {st' : Σ n, m.State n} (h : Descends t st st') {count : Nat} {l : Ledger R t.n}
      {next : m.State t.n} {reported : Status}
      (hs : (attemptStep { t with ledger := l } count st'.2).1 = .ok (.state next, reported)) :
      Descends t st ⟨t.n, next⟩

/-- A task makes the same whatever was asked of its objective. -/
theorem Descends.of_ledger {t : Task R} {l : Ledger R t.n} {st st' : Σ n, m.State n}
    (h : Descends { t with ledger := l } st st') : Descends t st st' := by
  induction h with
  | start => exact .start
  | step _ hs ih => exact ih.step hs

/-- The method has made the state on the task: it has started there and has made steps. -/
def Belongs (t : Task R) (st : Σ n, m.State n) : Prop :=
  ∃ (x : Vector R t.n) (first : m.State t.n),
    ((m.start t.situation x).run t.objective {}).1 = .ok (.state first) ∧ Descends t ⟨t.n, first⟩ st

/-- A set up that was accepted, and the state that the solver held before it. -/
structure Begun (m : Method R) where
  subject : Subject R
  accepted : Accepted R subject.n
  held? : Option (Σ n, m.State n)

namespace Begun

def task (b : Begun m) : Task R :=
  { b.subject with ledger := {}, options := b.accepted.options, region := b.accepted.region }

def Opens (b : Begun m) : Prop :=
  ∃ st, (opening m b.subject b.accepted).1 = .ok (.state st)

/-- The state that the run begins with: the one that was made, or else the one that was held. -/
def origin? (b : Begun m) : Option (Σ n, m.State n) :=
  match (opening m b.subject b.accepted).1 with
  | .ok (.state st) => some ⟨b.subject.n, st⟩
  | _ => b.held?

end Begun

/-- The solver works on what was begun last, and its state comes by steps from the origin of that. -/
def Stands (s : Solver m) : Option (Begun m) → Prop
  | none => s.task? = none ∧ s.state? = none
  | some b => s.bare.task? = some b.task ∧ Option.Rel (Descends b.task) b.origin? s.state?

/-- If the last set up has made a state, the live state is one of its task. -/
theorem Stands.belongs {s : Solver m} {b : Begun m} (h : s.Stands (some b)) (ho : b.Opens)
    {t : Task R} {st : Σ n, m.State n} (ht : s.task? = some t) (hst : s.state? = some st) :
    Belongs t st := by
  obtain ⟨htask, hstate⟩ := h
  obtain ⟨first, hfirst⟩ := ho
  have hb : { t with ledger := {} } = b.task := by simpa [bare, ht] using htask
  have horigin : b.origin? = some ⟨b.subject.n, first⟩ := by simp [Begun.origin?, hfirst]
  rw [horigin, hst] at hstate
  cases hstate with
  | some hsteps =>
      have hbelongs : Belongs b.task st := ⟨_, first, hfirst, hsteps⟩
      rw [← hb] at hbelongs
      obtain ⟨x, first, hfirst, hsteps⟩ := hbelongs
      exact ⟨x, first, hfirst, hsteps.of_ledger⟩

/-! ## What follows a set up -/

def held (s : Solver m) : Option (Task R) × Option (Σ n, m.State n) := (s.bare.task?, s.state?)

theorem Stands.of_held {s s' : Solver m} {b? : Option (Begun m)} (heq : s'.held = s.held)
    (h : s.Stands b?) : s'.Stands b? := by
  obtain ⟨htask, hstate⟩ := Prod.mk.inj heq
  cases b? with
  | some b =>
      unfold Stands
      rw [htask, hstate]
      exact h
  | none =>
      obtain ⟨hnone, hnostate⟩ := h
      have hbare : s'.task?.map (fun t => { t with ledger := {} }) = none := by
        simpa [bare, hnone] using htask
      exact ⟨Option.map_eq_none_iff.mp hbare, hstate.trans hnostate⟩

theorem held_of_alike {ρ : LedgerRelation R} {s s' : Solver m} (h : s.Alike ρ s') :
    s'.held = s.held := by
  obtain ⟨-, htask, hstate, -, -⟩ := h
  refine Prod.ext ?_ hstate.symm
  show s'.task?.map _ = s.task?.map _
  generalize s.task? = o, s'.task? = o' at htask
  cases htask with
  | none => rfl
  | some halike =>
      obtain ⟨l, rfl, -⟩ := halike
      rfl

theorem preserves_stands_iterate (b : Begun m) :
    Preserves (fun s => s.Stands (some b)) (iterate : Engine m Status) := by
  intro s h
  cases hr : exec iterate s with
  | mk outcome s' =>
      cases outcome with
      | error e => exact h.of_held (held_of_alike (alike_of_iterate_error hr))
      | ok status =>
          obtain ⟨-, -, -, -, t, k, st, next, ht, hst, hc, ht', hnext⟩ := exec_iterate_ok hr
          obtain ⟨htask, hstate⟩ := h
          have hb : { t with ledger := {} } = b.task := by simpa [bare, ht] using htask
          refine ⟨by simpa [bare, ht'] using hb, ?_⟩
          rw [hst] at hstate
          generalize horigin : b.origin? = origin? at hstate
          cases hstate with
          | some hsteps =>
              rw [hnext]
              refine .some ?_
              obtain ⟨-, -, -, rfl, -⟩ | ⟨made, reported, hmade, rfl, -⟩ := concluded_eq_ok hc
              · exact hsteps
              · rw [← hb] at hsteps ⊢
                exact hsteps.step hmade

theorem keeps_held_of_bare {e : Engine m α} (h : Keeps bare e) : Keeps held e :=
  h.reading fun s => (s.task?, s.state?)

theorem keeps_held_stopIfHolds (c : Criterion R) :
    Keeps held (stopIfHolds c : Engine m (Option R)) := by
  refine keeps_bind (keeps_held_of_bare keeps_bare_snapshot) fun v => keeps_get_bind fun s => ?_
  refine keeps_bind (keeps_held_of_bare (keeps_bare_gauge _)) fun held => ?_
  cases held with
  | false => exact keeps_pure none
  | true =>
      refine keeps_bind (keeps_held_of_bare (keeps_bare_gauge _)) fun measured => ?_
      exact keeps_bind (keeps_modify fun s => rfl) fun _ => keeps_pure _

theorem keeps_held_results (elapsed? : Option R) (ending : Ending R) :
    Keeps held (results elapsed? ending : Engine m (Results R)) := by
  refine keeps_bind (keeps_held_of_bare keeps_bare_snapshot) fun v => keeps_get_bind fun s => ?_
  exact keeps_bind (keeps_modify fun s => rfl) fun _ => keeps_pure _

section

variable {I : Solver m → Prop} (hI : ∀ {s s'}, s'.held = s.held → I s → I s')
  (hstep : Preserves I (iterate : Engine m Status)) (criterion? : Option (Criterion R))
  (w : Watcher R σ)

include hI hstep

theorem preserves_advance :
    Preserves (fun p => I p.1)
      (advance criterion? w : Watched m σ (Snapshot R × Option (Criterion R × R))) := by
  have hkeep {β : Type} {e : Watched m σ β} (h : Keeps (fun p => p.1.held) e) :
      Preserves (fun p => I p.1) e := h.preserves hI
  have hmake : Preserves (fun p => I p.1) (unwatched iterate : Watched m σ Status) :=
    fun p => hstep p.1
  refine preserves_bind hmake fun status => ?_
  refine preserves_bind (hkeep ?_) fun v => ?_
  · exact keeps_unwatched (keeps_held_of_bare keeps_bare_snapshot)
  refine preserves_bind (hkeep ((keeps_bare_watch w v).reading fun s => (s.task?, s.state?)))
    fun _ => ?_
  cases criterion? with
  | none => exact hkeep (keeps_pure _)
  | some c =>
      cases status.isTerminal with
      | true => exact hkeep (keeps_pure _)
      | false =>
          refine preserves_bind (hkeep (keeps_unwatched (keeps_held_stopIfHolds c))) fun _ => ?_
          exact hkeep (keeps_pure _)

/-- The loop makes steps, and does nothing else to the task and the state. -/
theorem preserves_loop (fuel : Nat) (history : Array (Snapshot R)) :
    Preserves (fun p => I p.1) (loop criterion? w fuel history : Watched m σ (Ending R)) := by
  have hkeep {β : Type} {e : Watched m σ β} (h : Keeps (fun p => p.1.held) e) :
      Preserves (fun p => I p.1) e := h.preserves hI
  induction fuel generalizing history with
  | zero =>
      unfold loop
      refine preserves_get_bind fun p => ?_
      dsimp only
      cases p.1.status.isTerminal with
      | true => exact hkeep (keeps_pure _)
      | false => exact hkeep (keeps_throw _)
  | succ fuel ih =>
      unfold loop
      refine preserves_get_bind fun p => ?_
      dsimp only
      cases p.1.status.isTerminal with
      | true => exact hkeep (keeps_pure _)
      | false =>
          refine preserves_bind (preserves_advance hI hstep criterion? w) fun r => ?_
          obtain ⟨v, _ | ⟨c, measured⟩⟩ := r
          · exact ih (history.push v)
          · exact hkeep (keeps_pure _)

end

/-- What an accepted set up leaves, whether the method has made a state or not. -/
theorem stands_launch (f : Subject R) (a : Accepted R f.n) (s : Solver m) :
    (exec (launch f a) s).2.Stands (some ⟨f, a, s.state?⟩) := by
  obtain ⟨events, heq⟩ := exec_launch f a s
  -- if no state is made, the one that was held stays
  have hstale : Option.Rel (Descends (Begun.task (m := m) ⟨f, a, s.state?⟩)) s.state? s.state? := by
    cases s.state? with
    | none => exact .none
    | some st => exact .some .start
  rw [heq]
  rcases ho : opening m f a with ⟨e | st | typeName, ledger⟩
  · exact ⟨rfl, by simpa [Begun.origin?, ho, adopt] using hstale⟩
  · refine ⟨rfl, ?_⟩
    simp only [Begun.origin?, ho]
    exact .some .start
  · exact ⟨rfl, by simpa [Begun.origin?, ho, adopt] using hstale⟩

theorem stands_runAccepted (f : Subject R) (a : Accepted R f.n) (order : Order R)
    (w : Watcher R σ) (s : Solver m) (seen : σ) :
    (exec (runAccepted f a order w) (s, seen)).2.1.Stands (some ⟨f, a, s.state?⟩) := by
  have hlaunch := stands_launch f a s
  unfold runAccepted
  rw [exec_bind, exec_unwatched]
  dsimp only
  rcases hl : exec (launch f a) s with ⟨e | v, s₁⟩
  · rw [hl] at hlaunch
    exact hlaunch
  · rw [hl] at hlaunch
    have hloop := preserves_loop Stands.of_held (preserves_stands_iterate ⟨f, a, s.state?⟩)
      (asked? m order) w order.horizon #[]
    refine preserves_bind hloop (fun ending => ?_) (s₁, seen) hlaunch
    exact (keeps_unwatched (keeps_held_results order.elapsed? ending)).preserves Stands.of_held

end Solver

namespace Session

open Solver (Begun)

/-! ## After any calls -/

/-- What a call begins, if it sets up a run that is accepted. -/
def begins? (s : Session m) : Call R → Option (Begun m)
  | .setUp c => do
    let f ← (exec subject s).1.toOption
    let a ← (s.solver.accept f.n c).toOption
    return ⟨f, a, s.solver.state?⟩
  | .solve order _ _ => do
    let f ← (exec subject s).1.toOption
    let a ← (s.solver.acceptOrder f.n order).toOption
    return ⟨f, a, s.solver.state?⟩
  | _ => none

/-- What was begun last after the calls, if `b?` was begun last before them. -/
def begun? (s : Session m) (b? : Option (Begun m)) : List (Call R) → Option (Begun m)
  | [] => b?
  | c :: calls => (exec (perform c) s).2.begun? ((s.begins? c).or b?) calls

theorem stands_setUp (s : Session m) (c : Configuration R) {b? : Option (Begun m)}
    (h : s.solver.Stands b?) :
    (exec (setUp c) s).2.solver.Stands ((s.begins? (.setUp c)).or b?) := by
  cases hf : (exec subject s).1 with
  | error e =>
      have hsubject : exec subject s = (.error e, s) := Prod.ext hf (exec_subject s)
      simpa [setUp, exec_bind, hsubject, begins?, Except.toOption] using h
  | ok f =>
      rw [exec_setUp hf]
      cases ha : s.solver.accept f.n c with
      | error e => simpa [begins?, hf, ha, Except.toOption] using h
      | ok a =>
          have hbegins : s.begins? (.setUp c) = some ⟨f, a, s.solver.state?⟩ := by
            simp [begins?, hf, ha, Except.toOption]
          rw [hbegins]
          exact Solver.stands_launch f a s.solver

theorem stands_solveWatched (s : Session m) (order : Solver.Order R) (w : Solver.Watcher R σ)
    (seen : σ) {b? : Option (Begun m)} (h : s.solver.Stands b?) :
    (exec (solveWatched order w seen) s).2.solver.Stands
      ((s.begins? (.solve order w seen)).or b?) := by
  cases hf : (exec subject s).1 with
  | error e =>
      have hsubject : exec subject s = (.error e, s) := Prod.ext hf (exec_subject s)
      simpa [solveWatched, exec_bind, hsubject, begins?, Except.toOption] using h
  | ok f =>
      rw [exec_solveWatched hf]
      cases ha : s.solver.acceptOrder f.n order with
      | error e => simpa [begins?, hf, ha, Except.toOption] using h
      | ok a =>
          have hbegins : s.begins? (.solve order w seen) = some ⟨f, a, s.solver.state?⟩ := by
            simp [begins?, hf, ha, Except.toOption]
          rw [hbegins]
          exact Solver.stands_runAccepted f a order w s.solver seen

theorem stands_iterate (s : Session m) {b? : Option (Begun m)} (h : s.solver.Stands b?) :
    (exec iterate s).2.solver.Stands b? := by
  cases b? with
  | some b => exact Solver.preserves_stands_iterate b s.solver h
  | none =>
      rw [iterate, exec_ofEngine, Solver.exec_iterate_absent (.inl h.1)]
      exact h

theorem stands_of_bare {e : Dealing m α} (he : Keeps bareSolver e) (s : Session m)
    {b? : Option (Begun m)} (h : s.solver.Stands b?) : (exec e s).2.solver.Stands b? :=
  h.of_held (he.reading (fun s => (s.task?, s.state?)) s)

theorem stands_perform (s : Session m) (c : Call R) {b? : Option (Begun m)}
    (h : s.solver.Stands b?) : (exec (perform c) s).2.solver.Stands ((s.begins? c).or b?) := by
  cases c with
  | take f => exact h
  | setUp c =>
      rw [perform, exec_discard]
      exact stands_setUp s c h
  | iterate =>
      rw [perform, exec_discard]
      exact stands_iterate s h
  | solve order w seen =>
      rw [perform, exec_discard]
      exact stands_solveWatched s order w seen h
  | query q => exact stands_of_bare (keeps_bare_query q) s h
  | ask q =>
      rw [perform, exec_discard]
      exact stands_of_bare (keeps_bare_ask q) s h

theorem stands_afterCalls (s : Session m) (calls : List (Call R)) {b? : Option (Begun m)}
    (h : s.solver.Stands b?) : (s.afterCalls calls).solver.Stands (s.begun? b? calls) := by
  induction calls generalizing s b? with
  | nil => exact h
  | cons c calls ih => exact ih _ (stands_perform s c h)

/-- After any calls the solver works on what was begun last, and its state comes by steps from the
origin of that: from the state that the last set up has made, and if it has made none, from the state
that was held before. So if the last set up has made a state, a live state is one of its task. -/
theorem state_of_last_setUp (m : Method R) (name : Option String) (calls : List (Call R)) :
    let s := ((new m name).afterCalls calls).solver
    let b? := (new m name).begun? none calls
    s.Stands b? ∧
      ((∀ b ∈ b?, b.Opens) → ∀ t ∈ s.task?, ∀ st ∈ s.state?, Solver.Belongs t st) := by
  have hnew : (new m name).solver.Stands none := ⟨rfl, rfl⟩
  have hstands := stands_afterCalls (new m name) calls hnew
  refine ⟨hstands, fun hopens t ht st hst => ?_⟩
  cases hb : (new m name).begun? none calls with
  | none =>
      rw [hb] at hstands
      have hnone : ((new m name).afterCalls calls).solver.task? = none := hstands.1
      rw [hnone] at ht
      cases ht
  | some b =>
      rw [hb] at hstands
      exact hstands.belongs (hopens b hb) ht hst

section

open Scripted

noncomputable def faulty : Subject ℝ where
  n := 2
  objective :=
    { name := "faulty", value := fun _ => .error .outsideDomain, gradient? := none
      hessian? := none }

/-- A session in which a run on a function without values is set up after another run. -/
noncomputable def overtaken : Session homing :=
  (new homing none).afterCalls [.take bowl, .setUp fromAway, .take faulty, .setUp fromAway]

noncomputable def faultyTask (l : Ledger ℝ 2) : Task ℝ :=
  { faulty with ledger := l, options := homing.defaults, region := .everywhere }

theorem not_belongs_faultyTask (l : Ledger ℝ 2) (st : Σ n, homing.State n) :
    ¬ Solver.Belongs (faultyTask l) st := by
  rintro ⟨x, first, hfirst, -⟩
  cases hfirst

/-- The set up has failed, and the state is that of the run before. -/
theorem overtaken_solver :
    ∃ l, overtaken.solver.task? = some (faultyTask l) ∧
      overtaken.solver.state? = some ⟨2, away⟩ ∧ overtaken.solver.status = .running := by
  obtain ⟨s₀, hl, hst⟩ := homing_starts (Solver.new homing none)
  have hfirst : (exec (perform (.setUp fromAway)) (⟨Solver.new homing none, .other bowl⟩ :
      Session homing)).2 = ⟨s₀, .solvers⟩ := by
    rw [perform, exec_discard, exec_setUp (f := bowl) rfl, homing_accepts]
    simp only [hl]
  have haccept : s₀.accept faulty.n fromAway =
      .ok ⟨homing.defaults, .everywhere, farPoint⟩ :=
    Solver.accept_vector (presettable rfl) s₀ farPoint
  have hsecond : overtaken.solver =
      (exec (Solver.launch faulty ⟨homing.defaults, .everywhere, farPoint⟩) s₀).2 := by
    show (exec (perform (.setUp fromAway)) { (exec (perform (.setUp fromAway))
      (⟨Solver.new homing none, .other bowl⟩ : Session homing)).2 with
        current := .other faulty }).2.solver = _
    rw [hfirst, perform, exec_discard, exec_setUp (f := faulty) rfl, haccept]
  obtain ⟨events, heq⟩ := Solver.exec_launch faulty ⟨homing.defaults, .everywhere, farPoint⟩ s₀
  have hopening : ∃ l, Solver.opening homing faulty ⟨homing.defaults, .everywhere, farPoint⟩ =
      (.error .outsideDomain, l) := ⟨_, rfl⟩
  obtain ⟨l, hl⟩ := hopening
  rw [hl] at heq
  rw [hsecond, heq]
  exact ⟨l, rfl, hst, rfl⟩

/-- A set up that fails late leaves the state of the run before it, and a step goes on from there
with the new objective, for which the method cannot make a state at all. -/
theorem stale_state_steps :
    ∃ l st, overtaken.solver.task? = some (faultyTask l) ∧ overtaken.solver.state? = some st ∧
      ¬ Solver.Belongs (faultyTask l) st ∧
      (exec live overtaken).1 = .ok (faultyTask l, away) ∧
      (exec iterate overtaken).1 = .ok .success := by
  obtain ⟨l, ht, hst, hrun⟩ := overtaken_solver
  refine ⟨l, ⟨2, away⟩, ht, hst, not_belongs_faultyTask l _, ?_, ?_⟩
  · have hv : overtaken.solver.snapshot? = some away := by
      rw [Solver.snapshot?, hst]
      rfl
    simp only [live, exec_bind, exec_get, ht, hv]
    rfl
  · obtain ⟨s₁, hstep, -⟩ := homing_steps ht rfl hst hrun
    rw [iterate, exec_ofEngine, hstep]

end

end Session

end Minima
