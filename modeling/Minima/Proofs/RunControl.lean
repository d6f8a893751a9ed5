import Minima.Proofs.ExactRuns
import Minima.Proofs.RunChronicle

/-!
# Control of a run

Whatever a method reports, a step that does not end out of control leaves a finite state, and one
after which the run goes on leaves a state within the bounds of the options. A numerical failure
ends the run out of control in the state that it had. The options of a run are those that were
accepted, until the next set up.
-/

namespace Minima

variable {R : Type} [Scalar R]

/-- The snapshot is finite and not beyond the bounds that the options set. -/
structure Snapshot.WithinBounds (options : Options R) (v : Snapshot R) : Prop where
  finite : v.isFinite = true
  norm : ∃ bound, options.real "max_x_norm" = .ok bound ∧ ¬ bound < v.pointNorm
  value : ∃ bound, options.real "max_abs_f" = .ok bound ∧ ¬ bound < Scalar.abs v.value

namespace Solver

variable {m : Method R} {σ α : Type}

/-! ## Classification -/

theorem classify_outOfControl (options : Options R) (v : Snapshot R) :
    classify options v .outOfControl = .ok .outOfControl := by
  unfold classify
  by_cases hv : v.isFinite = true
  · simp [hv]
    rfl
  · simp [hv]
    rfl

theorem classify_ok {options : Options R} {v : Snapshot R} {reported status : Status}
    (h : classify options v reported = .ok status) :
    (status ≠ .outOfControl → v.isFinite = true) ∧
      (status = .running → v.WithinBounds options) := by
  unfold classify at h
  by_cases hv : v.isFinite = true
  · by_cases hr : reported = .running
    · subst hr
      refine ⟨fun _ => hv, fun hrun => ?_⟩
      subst hrun
      cases hx : options.real "max_x_norm" with
      | error e => simp [hv, hx, bind, Except.bind] at h
      | ok maxNorm =>
          by_cases hnorm : maxNorm < v.pointNorm
          · simp [hv, hx, hnorm, bind, Except.bind, pure, Except.pure] at h
          · cases hy : options.real "max_abs_f" with
            | error e => simp [hv, hx, hy, hnorm, bind, Except.bind] at h
            | ok maxValue =>
                by_cases hvalue : maxValue < Scalar.abs v.value
                · simp [hv, hx, hy, hnorm, hvalue, bind, Except.bind, pure, Except.pure] at h
                · exact ⟨hv, ⟨maxNorm, hx, hnorm⟩, ⟨maxValue, hy, hvalue⟩⟩
    · have hs : status = reported := by
        simpa [hv, hr, bind, Except.bind, pure, Except.pure, eq_comm] using h
      subst hs
      exact ⟨fun _ => hv, fun hrun => absurd hrun hr⟩
  · have hs : status = .outOfControl := by
      simpa [hv, bind, Except.bind, pure, Except.pure, eq_comm] using h
    subst hs
    exact ⟨fun hne => absurd rfl hne, fun hrun => by cases hrun⟩

theorem classify_of_within {options : Options R} {v : Snapshot R} (h : v.WithinBounds options) :
    classify options v .running = .ok .running := by
  obtain ⟨hv, ⟨maxNorm, hx, hnorm⟩, maxValue, hy, hvalue⟩ := h
  unfold classify
  simp [hv, hx, hy, hnorm, hvalue, bind, Except.bind, pure, Except.pure]

/-- A step that does not end out of control is classified as the method reports it. -/
theorem reported_of_classify {options : Options R} {v : Snapshot R} {reported status : Status}
    (h : classify options v reported = .ok status) (hs : status ≠ .outOfControl) :
    reported = status := by
  have hfinite := (classify_ok h).1 hs
  by_cases hr : reported = .running
  · subst hr
    unfold classify at h
    cases hx : options.real "max_x_norm" with
    | error e => simp [hfinite, hx, bind, Except.bind] at h
    | ok maxNorm =>
        by_cases hnorm : maxNorm < v.pointNorm
        · simp [hfinite, hx, hnorm, bind, Except.bind, pure, Except.pure, hs.symm] at h
        · cases hy : options.real "max_abs_f" with
          | error e => simp [hfinite, hx, hy, hnorm, bind, Except.bind] at h
          | ok maxValue =>
              by_cases hvalue : maxValue < Scalar.abs v.value
              · simp [hfinite, hx, hy, hnorm, hvalue, bind, Except.bind, pure, Except.pure,
                  hs.symm] at h
              · simpa [hfinite, hx, hy, hnorm, hvalue, bind, Except.bind, pure, Except.pure] using h
  · rw [classify_ended hfinite hr] at h
    exact Except.ok.inj h

/-- A step is classified as going on only if the method reports so. -/
theorem classify_running {options : Options R} {v : Snapshot R} {reported : Status}
    (h : classify options v reported = .ok .running) : reported = .running :=
  reported_of_classify h nofun

section

variable {n : Nat} {options : Options R} {st next : Σ n, m.State n}
  {outcome : Attempt R (Produced (m.State n) × Status)} {status : Status}

/-- A step that does not fail goes to the state that the method made, and is classified by it, or a
numerical failure keeps the state. -/
theorem concluded_eq_ok (h : concluded options st outcome = .ok (next, status)) :
    (∃ e, outcome = .error e ∧ e.isNumerical = true ∧ next = st ∧ status = .outOfControl) ∨
      ∃ made reported, outcome = .ok (.state made, reported) ∧ next = ⟨n, made⟩ ∧
        classify options (m.view made) reported = .ok status := by
  rcases outcome with e | ⟨made | typeName, reported⟩
  · cases he : e.isNumerical with
    | true =>
        have hkept : st = next ∧ Status.outOfControl = status := by
          simpa [concluded, settled, he, classify_outOfControl, Except.map] using h
        exact .inl ⟨e, rfl, he, hkept.1.symm, hkept.2.symm⟩
    | false => simp [concluded, settled, he] at h
  · cases hc : classify options (m.view made) reported with
    | error e => simp [concluded, settled, hc, Except.map] at h
    | ok status' =>
        have hmade : (⟨n, made⟩ : Σ n, m.State n) = next ∧ status' = status := by
          simpa [concluded, settled, hc, Except.map] using h
        obtain ⟨rfl, rfl⟩ := hmade
        exact .inr ⟨made, reported, rfl, rfl, hc⟩
  · simp [concluded, settled] at h

/-- A step fails with what its method fails with, unless that is numerical, over a value that is no
state, or because it cannot be classified. -/
theorem concluded_eq_error {e : Failure R} (h : concluded options st outcome = .error e) :
    outcome = .error e ∧ e.isNumerical = false ∨
      (∃ typeName reported, outcome = .ok (.foreign typeName, reported) ∧
        e = .notAState m.className .step typeName) ∨
      ∃ v reported, classify options v reported = .error e := by
  rcases outcome with e' | ⟨made | typeName, reported⟩
  · cases he : e'.isNumerical with
    | true => simp [concluded, settled, he, classify_outOfControl, Except.map] at h
    | false =>
        obtain rfl : e' = e := by simpa [concluded, settled, he] using h
        exact .inl ⟨rfl, he⟩
  · cases hc : classify options (m.view made) reported with
    | error e' =>
        obtain rfl : e' = e := by simpa [concluded, settled, hc, Except.map] using h
        exact .inr (.inr ⟨m.view made, reported, hc⟩)
    | ok status => simp [concluded, settled, hc, Except.map] at h
  · have he : .notAState m.className .step typeName = e := by simpa [concluded, settled] using h
    exact .inr (.inl ⟨typeName, reported, rfl, he.symm⟩)

/-- What a step concludes is classified last, so its status stands with the state it goes to. -/
theorem concluded_ok (h : concluded options st outcome = .ok (next, status)) :
    (status ≠ .outOfControl → (m.view next.2).isFinite = true) ∧
      (status = .running → (m.view next.2).WithinBounds options) := by
  obtain ⟨e, -, -, -, rfl⟩ | ⟨made, reported, -, rfl, hc⟩ := concluded_eq_ok h
  · exact ⟨fun hne => absurd rfl hne, nofun⟩
  · exact classify_ok hc

end

theorem concluded_absorbs {n : Nat} (options : Options R) (st : Σ n, m.State n) {e : Failure R}
    (he : e.isNumerical = true) :
    concluded options st (.error e : Attempt R (Produced (m.State n) × Status)) =
      .ok (st, .outOfControl) := by
  simp only [concluded, settled, he, if_true, classify_outOfControl]
  rfl

/-! ## The options of a run -/

def options? (s : Solver m) : Option (Options R) := s.task?.map fun t => t.options

theorem options?_of_frame {s s' : Solver m} (h : s'.frame = s.frame) :
    s'.options? = s.options? := by
  have hoptions (s : Solver m) : s.options? = s.frame.2.map fun t => t.options := by
    cases ht : s.task? with
    | none => simp [options?, frame, bare, ht]
    | some t => simp [options?, frame, bare, ht]
  rw [hoptions, hoptions, h]

/-- What becomes of a solver until it is set up again: it makes steps, its criteria ask for
gradients or stop the run, and others ask the objective that it works on whatever they like. -/
inductive Underway (s₀ : Solver m) : Solver m → Prop
  | start : Underway s₀ s₀
  | step {s : Solver m} (h : Underway s₀ s) : Underway s₀ (exec iterate s).2
  | gauge {s : Solver m} (h : Underway s₀ s) {α : Type} (g : Gauge R α) :
      Underway s₀ (exec (Solver.gauge g) s).2
  | criterion {s : Solver m} (h : Underway s₀ s) (c : Criterion R) :
      Underway s₀ (exec (stopIfHolds c) s).2
  | watch {s : Solver m} (h : Underway s₀ s) {σ : Type} (w : Watcher R σ) (v : Snapshot R)
      (seen : σ) : Underway s₀ (exec (Solver.watch w v) (s, seen)).2.1

theorem Underway.frame_eq {s₀ s : Solver m} (h : Underway s₀ s) : s.frame = s₀.frame := by
  induction h with
  | start => rfl
  | step _ ih => exact (keeps_frame_iterate _).trans ih
  | gauge _ g ih => exact (keeps_frame_gauge g _).trans ih
  | criterion _ c ih => exact (keeps_frame_stopIfHolds c _).trans ih
  | watch _ w v seen ih => exact (keeps_frame_watch w v (_, seen)).trans ih

/-! ## Steps under control -/

/-- What the next step of a solver that works with these options guarantees. -/
structure StepControlled (options : Options R) (s : Solver m) : Prop where
  finite : ∀ {status : Status} {s' : Solver m}, exec iterate s = (.ok status, s') →
    status ≠ .outOfControl → ∃ v, s'.snapshot? = some v ∧ v.isFinite = true
  bounded : ∀ {s' : Solver m}, exec iterate s = (.ok .running, s') →
    ∃ v, s'.snapshot? = some v ∧ v.WithinBounds options
  absorbed : ∀ {t : Task R} {k : Nat} {st : m.State k} {e : Failure R}, s.task? = some t →
    s.state? = some ⟨k, st⟩ → s.status = .running →
    (attemptStep t s.iterations st).1 = .error e → e.isNumerical = true →
    ∃ s', exec iterate s = (.ok .outOfControl, s') ∧ s'.state? = s.state? ∧
      s'.status = .outOfControl ∧ s'.iterations = s.iterations + 1

theorem stepControlled {options : Options R} {s : Solver m} (h : s.options? = some options) :
    StepControlled options s where
  finite := by
    intro status s' hi hs
    obtain ⟨-, -, -, -, t, k, st, next, -, -, hc, -, hnext⟩ := exec_iterate_ok hi
    exact ⟨m.view next.2, by rw [snapshot?, hnext]; rfl, (concluded_ok hc).1 hs⟩
  bounded := by
    intro s' hi
    obtain ⟨-, -, -, -, t, k, st, next, ht, -, hc, -, hnext⟩ := exec_iterate_ok hi
    have ho : t.options = options := by simpa [options?, ht] using h
    rw [ho] at hc
    exact ⟨m.view next.2, by rw [snapshot?, hnext]; rfl, (concluded_ok hc).2 rfl⟩
  absorbed := by
    intro t k st e ht hst hrun he hnumerical
    obtain ⟨events, heq⟩ :=
      exec_iterate_live ht hst (Status.isTerminal_eq_false_iff.mpr hrun)
    rw [he, concluded_absorbs _ _ hnumerical] at heq
    exact ⟨_, heq, hst.symm, rfl, rfl⟩

/-! ## Runs under control -/

structure RunControlled (options : Options R) (r : Results R) : Prop where
  history : ∀ v ∈ r.history.toList.dropLast, v.WithinBounds options
  final : r.status = .success ∨ r.status = .noProgress → r.final.isFinite = true

theorem Chronicle.withinBounds {options : Options R} {criterion? : Option (Criterion R)}
    {w : Watcher R σ} {start final : Solver m × σ} {turns : List (Turn m σ)} {finish : Finish R}
    (h : Chronicle criterion? w start turns finish final) (ho : start.1.options? = some options) :
    ∀ v ∈ (turns.map Turn.view).dropLast, v.WithinBounds options := by
  induction h using Chronicle.rec_turns with
  | idle h => simp
  | ends t h hw hend => simp
  | leads t next turns h hw hlead hrest ih =>
      have hstep := hw.step
      rw [hlead.1] at hstep
      obtain ⟨v, hv, hbounds⟩ := (stepControlled ho).bounded hstep
      have hview : v = t.view := by simpa [hw.live, eq_comm] using hv
      have hnext : next.1.options? = some options := by
        have hmade := keeps_frame_iterate t.before.1
        rw [hw.step] at hmade
        rw [← ho]
        exact options?_of_frame ((frame_of_bare (hlead.bare_next hw)).trans hmade)
      intro u hu
      cases turns with
      | nil => simp at hu
      | cons t' turns =>
          rw [List.map_cons, List.map_cons, List.dropLast_cons_cons] at hu
          rcases List.mem_cons.mp hu with rfl | hu
          · exact hview ▸ hbounds
          · exact ih hnext u hu

/-- A set up makes the accepted options those of the run. -/
theorem options?_setUp {f : Subject R} {c : Configuration R} {s s₀ : Solver m}
    {a : Accepted R f.n} {v : Snapshot R} (ha : s.accept f.n c = .ok a)
    (h : exec (setUp f c) s = (.ok v, s₀)) : s₀.options? = some a.options := by
  rw [exec_setUp_of_accept ha] at h
  obtain ⟨-, -, -, -, htask⟩ := exec_launch_ok h
  rw [options?, htask]
  rfl

theorem acceptOrder_eq_ok_iff {s : Solver m} {n : Nat} {order : Order R} {a : Accepted R n} :
    s.acceptOrder n order = .ok a ↔
      (m.hasCriterion = false → order.criterion?.isSome = true) ∧
        s.accept n order.toConfiguration = .ok a := by
  unfold acceptOrder
  cases hown : m.hasCriterion <;> cases hasked : order.criterion? <;>
    simp [bind, Except.bind]

theorem accept_of_acceptOrder {s : Solver m} {n : Nat} {order : Order R} {a : Accepted R n}
    (h : s.acceptOrder n order = .ok a) : s.accept n order.toConfiguration = .ok a :=
  (acceptOrder_eq_ok_iff.mp h).2

theorem runControlled {f : Subject R} {order : Order R} {w : Watcher R σ} {s : Solver m}
    {seen : σ} {a : Accepted R f.n} {r : Results R} {final : Solver m × σ}
    (ha : s.accept f.n order.toConfiguration = .ok a)
    (h : exec (solveWatched f order w) (s, seen) = (.ok r, final)) : RunControlled a.options r := by
  obtain ⟨a', first, s₀, turns, finish, last, ha', hl, -, hc, hr, -⟩ :=
    chronicle_of_exec_solveWatched h
  obtain rfl : a' = a := by simpa [accept_of_acceptOrder ha'] using ha
  obtain ⟨-, -, hfirst, hstatus, htask⟩ := exec_launch_ok hl
  have ho : s₀.options? = some a'.options := by
    rw [options?, htask]
    rfl
  refine ⟨?_, fun hend => ?_⟩
  · rw [hr.history]
    exact hc.withinBounds ho
  · rw [hr.status] at hend
    have hcontrol : finish.status ≠ .outOfControl := by
      intro heq
      rcases hend with hend | hend <;> rw [heq] at hend <;> cases hend
    rw [hr.final]
    cases hlast : turns.getLast? with
    | none =>
        -- a run without a step ends out of control
        obtain ⟨hover, rfl, -⟩ := hc.idle (List.getLast?_eq_none_iff.mp hlast)
        by_cases hv : first.isFinite = true
        · simp [hstatus, hv, Status.isTerminal] at hover
        · exact absurd (by simp [hstatus, hv]) hcontrol
    | some t =>
        have hw := hc.happen t (List.mem_of_getLast? hlast)
        have hgood : t.status ≠ .outOfControl := by
          cases hc.last t hlast with
          | method hs => exact hcontrol
          | criterion hc hstop =>
              rw [hstop.1]
              exact Status.noConfusion
        obtain ⟨-, -, -, -, _, _, _, next, -, -, hconcluded, -, hnext⟩ := exec_iterate_ok hw.step
        have hview : t.view = m.view next.2 := by
          have hlive := hw.live
          rw [snapshot?, hnext] at hlive
          exact (Option.some.inj hlive).symm
        show t.view.isFinite = true
        rw [hview]
        exact (concluded_ok hconcluded).1 hgood

/-- After a successful set up every step is under control, and so is every run with the same
configuration. -/
theorem run_under_control {f : Subject R} {c : Configuration R} {s s₀ s₁ : Solver m}
    {a : Accepted R f.n} {v : Snapshot R} (ha : s.accept f.n c = .ok a)
    (hs : exec (setUp f c) s = (.ok v, s₀)) (hu : Underway s₀ s₁) :
    StepControlled a.options s₁ ∧
      ∀ (σ : Type) (order : Order R) (w : Watcher R σ) (seen : σ) (r : Results R)
        (final : Solver m × σ), order.toConfiguration = c →
        exec (solveWatched f order w) (s, seen) = (.ok r, final) → RunControlled a.options r := by
  constructor
  · apply stepControlled
    rw [options?_of_frame hu.frame_eq, options?_setUp ha hs]
  · rintro σ order w seen r final rfl h
    exact runControlled ha h

section

open Scripted

/-- The run that goes home returns. -/
theorem homing_returns :
    ∃ (r : Results ℝ) (final : Solver homing × Unit),
      exec (solveWatched bowl { toConfiguration := fromAway }
        (.onlooker fun _ _ _ => ())) (Solver.new homing none, ()) = (.ok r, final) := by
  obtain ⟨s₀, hl, hs⟩ := homing_starts (Solver.new homing none)
  obtain ⟨-, -, -, hstatus, htask⟩ := exec_launch_ok hl
  have hrun : s₀.status = .running := by simp [hstatus, Snapshot.isFinite_real]
  obtain ⟨s₁, hstep, hlive⟩ := homing_steps htask rfl hs hrun
  obtain ⟨-, -, -, -, _, _, _, _, -, -, -, ht, -⟩ := exec_iterate_ok hstep
  have hw := exec_watch ht (.onlooker fun _ _ _ => ()) home ()
  have hc : Chronicle none (.onlooker fun _ _ _ => ()) (s₀, ()) [⟨(s₀, ()), .success, s₁, home, _⟩]
      ⟨.success, .method .success, none⟩ _ :=
    chronicle_singleton.mpr ⟨⟨hstep, hlive, hw⟩, rfl, .method rfl⟩
  have ha : (new homing none).acceptOrder bowl.n { toConfiguration := fromAway } =
      .ok acceptedAway := homing_accepts _
  obtain ⟨r, final, -, hr⟩ := exec_solveWatched_returns ha hl (by simp) hc
  exact ⟨r, final, hr⟩

theorem homing_under_control :
    ∃ (s₀ : Solver homing) (r : Results ℝ) (final : Solver homing × Unit),
      exec (setUp bowl fromAway) (Solver.new homing none) = (.ok away, s₀) ∧
      StepControlled homing.defaults s₀ ∧
      exec (solveWatched bowl { toConfiguration := fromAway }
        (.onlooker fun _ _ _ => ())) (Solver.new homing none, ()) = (.ok r, final) ∧
      RunControlled homing.defaults r := by
  obtain ⟨s₀, hl, -⟩ := homing_starts (Solver.new homing none)
  have hset : exec (setUp bowl fromAway) (Solver.new homing none) = (.ok away, s₀) :=
    (exec_setUp_of_accept (homing_accepts _)).trans hl
  obtain ⟨r, final, hr⟩ := homing_returns
  obtain ⟨hsteps, hruns⟩ := run_under_control (homing_accepts _) hset .start
  exact ⟨s₀, r, final, hset, hsteps, hr, hruns Unit _ _ () r final rfl hr⟩

end

end Solver

end Minima
