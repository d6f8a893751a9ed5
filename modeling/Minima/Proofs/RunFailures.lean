import Minima.Proofs.AnswerFailures
import Minima.Proofs.RunInvariants

/-!
# What runs fail with

A run of a method on offer, with options that have been checked and can be used, fails only as the
answers of its objective do, or by being cut off. Its steps absorb what is numerical, and a criterion
that fits asks for nothing but gradients at the points of the run.
-/

namespace Minima.Solver

open Dialogue

variable {R : Type} [Scalar R] {m : Method R} {σ α : Type}

section

variable {criterion? : Option (Criterion R)} {w : Watcher R σ} {s₀ : Solver m}
  {next : Solver m × σ} {turns : List (Turn m σ)}

theorem Turn.Happens.underway {t : Turn m σ} (hw : t.Happens w) (h : Underway s₀ t.before.1) :
    Underway s₀ t.after.1 := by
  have hmade := h.step
  rw [hw.step] at hmade
  have hwatched := hmade.watch w t.view t.before.2
  rwa [hw.watched] at hwatched

theorem Turn.LeadsTo.underway {t : Turn m σ} (hlead : t.LeadsTo criterion? next)
    (h : Underway s₀ t.after.1) : Underway s₀ next.1 := by
  obtain ⟨-, -, hnext⟩ := hlead
  cases criterion? with
  | none => exact hnext ▸ h
  | some c =>
      have hgauge := h.gauge (c.holds t.view t.made.iterations)
      rwa [hnext] at hgauge

/-- Along a trail a run stays underway. -/
theorem Trail.underway {start : Solver m × σ} (htrail : Trail criterion? w start turns next)
    (h : Underway s₀ start.1) : Underway s₀ next.1 := by
  induction htrail with
  | nil p => exact h
  | cons hw hlead hrest ih => exact ih (hlead.underway (hw.underway h))

end

/-- What was accepted of a run can be relied on up to the answers: those fail only as `fails` says,
the criterion fits the objective, and the options have been checked and can be used. -/
structure Dependable (fails : Failure R → Prop) (o : Offer) (f : Subject R) (a : Accepted R f.n)
    (criterion? : Option (Criterion R)) : Prop where
  answers : f.objective.FailsOnly fails
  admits : Failure.Admits fails
  cut : fails .cutOff
  fits : ∀ c, criterion? = some c → c.Fits f.n
  bounds : ∀ key ∈ ["max_x_norm", "max_abs_f"], a.options.InRange .positive key
  valid : ∃ owner, (o.method : Method R).validate owner a.options = .ok ()
  plain : o.Plain a.options
  usable : o.Usable a.options

/-- The solver works on what was accepted of `f`, in a state of its dimension. -/
abbrev Seated (f : Subject R) (a : Accepted R f.n) (s : Solver m) : Prop :=
  Upholds f a (fun _ => True) (fun _ : m.State f.n => True) s

section

variable {fails : Failure R → Prop} {o : Offer} {f : Subject R} {a : Accepted R f.n}
  {criterion? : Option (Criterion R)} {s s' : Solver (o.method : Method R)} {e : Failure R}

/-- A set up fails only as an answer does. -/
theorem launch_failsOnly (hp : Dependable fails o f a criterion?)
    (h : exec (launch f a) s = (.error e, s')) : fails e := by
  obtain ⟨owner, hvalid⟩ := hp.valid
  have hmeets : ((o.method : Method R).start (a.situation f.objective.name)
      (a.region.project a.start)).Meets (fun _ => True) (fun p => ∃ st, p = .state st) fails :=
    Offer.start_meets hvalid _
  obtain ⟨hok, herror⟩ :=
    hmeets.play_failing (fun q l e _ he => Ledger.answer_failsOnly hp.answers hp.admits l q e he) {}
  obtain ⟨v, _, hreturns⟩ | ⟨e', _, hfails, hl⟩ := exec_launch_of_states hok s
  · rw [hreturns] at h
    cases h
  · rw [hl] at h
    cases h
    exact herror _ hfails

/-- What the method comes to in a step: a state, or a failure that is absorbed or that of an answer. -/
theorem attemptStep_ends (hp : Dependable fails o f a criterion?) (ledger : Ledger R f.n)
    (count : Nat) (st : (o.method : Method R).State f.n) :
    (∀ r, (attemptStep (a.task ledger) count st).1 = .ok r → ∃ made, r.1 = .state made) ∧
      ∀ e, (attemptStep (a.task ledger) count st).1 = .error e → e.isNumerical = true ∨ fails e := by
  obtain ⟨owner, hvalid⟩ := hp.valid
  have hmeets : ((o.method : Method R).step (a.situation f.objective.name) count st).Meets
      (fun _ => True) (fun r => ∃ made, r.1 = .state made)
      (fun e => e.isNumerical = true ∨ fails e) := by
    refine (Offer.step_meets hvalid hp.plain count st).mono (fun _ h => h) (fun _ hr => hr.1) ?_
    intro e he
    rcases he hp.usable with hnumerical | rfl
    · exact .inl hnumerical
    · exact .inr hp.cut
  rw [attemptStep_task]
  exact hmeets.play_failing
    (fun q l e _ he => .inr (Ledger.answer_failsOnly hp.answers hp.admits l q e he)) ledger

/-- A step of a run that is going on fails only as an answer does, or by being cut off. -/
theorem iterate_failsOnly (hp : Dependable fails o f a criterion?) (hs : Seated f a s)
    (hrun : s.status = .running) (h : exec iterate s = (.error e, s')) : fails e := by
  obtain ⟨⟨ledger, -, htask⟩, st, -, hstate⟩ := hs
  obtain ⟨hc, -⟩ :=
    exec_iterate_live_error htask hstate (Status.isTerminal_eq_false_iff.mpr hrun) h
  obtain ⟨hok, herror⟩ := attemptStep_ends hp ledger s.iterations st
  obtain ⟨hout, hnot⟩ | ⟨typeName, reported, hout, -⟩ := concluded_error_of_bounds hp.bounds hc
  · rcases herror e hout with hnumerical | hfails
    · -- a numerical failure would have been absorbed
      rw [hnot] at hnumerical
      cases hnumerical
    · exact hfails
  · obtain ⟨made, hmade⟩ := hok _ hout
    cases hmade

/-- A gauge that asks for gradients at points of the run fails only as an answer does. -/
theorem gauge_failsOnly (hp : Dependable fails o f a criterion?) (hs : Seated f a s)
    {g : Gauge R α} (hg : Criterion.Answers f.n g) (h : exec (gauge g) s = (.error e, s')) :
    fails e := by
  obtain ⟨ledger, -, htask⟩ := hs.task
  have hanswer : ∀ (point : Array R) (l : Ledger R f.n) (e : Failure R), point.size = f.n →
      (Ledger.request f.objective (Ledger.gradient f.objective) (Tensor.ofArray point) l).1 =
        .error e → fails e :=
    fun _ l e hsize he => Ledger.request_failsOnly hp.answers hp.admits l hsize e he
  obtain ⟨-, herror⟩ :=
    (hg.mono (fun _ h => h) (fun _ h => h) fun _ h => h.elim).play_failing hanswer ledger
  rw [exec_gauge htask] at h
  exact herror e (congrArg Prod.fst h)

/-- So does the question to a criterion that fits. -/
theorem stopIfHolds_failsOnly (hp : Dependable fails o f a criterion?) (hs : Seated f a s)
    {c : Criterion R} (hc : criterion? = some c) (h : exec (stopIfHolds c) s = (.error e, s')) :
    fails e := by
  obtain ⟨st, -, hstate⟩ := hs.state
  have hlive := snapshot?_of_state hstate
  have hholds : Criterion.Answers f.n (c.holds ((o.method : Method R).view st) s.iterations) :=
    Criterion.holds_answers (hp.fits c hc) (o.point_size st)
  have hmeasure : Criterion.Answers f.n (c.measure ((o.method : Method R).view st) s.iterations) :=
    Criterion.measure_answers (hp.fits c hc) (o.point_size st)
  have hleft := preserves_upholds_gauge (fun _ _ _ => trivial)
    (c.holds ((o.method : Method R).view st) s.iterations) s hs
  rw [exec_stopIfHolds hlive] at h
  rcases hheld : exec (gauge (c.holds ((o.method : Method R).view st) s.iterations)) s with
    ⟨e' | _ | _, s₁⟩
  · rw [hheld] at h
    cases h
    exact gauge_failsOnly hp hs hholds hheld
  · rw [hheld] at h
    cases h
  · rw [hheld] at h hleft
    rcases hmeasured : exec (gauge (c.measure ((o.method : Method R).view st) s.iterations)) s₁ with
      ⟨e' | measured, s₂⟩
    · simp only [hmeasured] at h
      cases h
      exact gauge_failsOnly hp hleft hmeasure hmeasured
    · simp [hmeasured] at h

variable {visit : Snapshot R → Nat → σ → σ} {next left : Solver (o.method : Method R) × σ}

/-- A turn of a run that is going on breaks only as an answer fails, or by being cut off. -/
theorem Breaks.failsOnly (hp : Dependable fails o f a criterion?) (hs : Seated f a next.1)
    (hrun : next.1.status = .running)
    (h : Breaks criterion? (.onlooker visit) next e left) : fails e := by
  cases h with
  | step h => exact iterate_failsOnly hp hs hrun h
  | watcher hstep hlive h =>
      rw [exec_watch_onlooker hstep] at h
      cases h
  | criterion hw hgoes hc h =>
      have hafter := (hw.underway .start).upholds carries_anything hs
      exact stopIfHolds_failsOnly hp hafter hc h

/-- A run of what was accepted fails only as an answer does, or by being cut off. -/
theorem solve_failsOnly {order : Order R} {seen : σ} {final : Solver (o.method : Method R) × σ}
    (ha : s.acceptOrder f.n order = .ok a)
    (hp : Dependable fails o f a (asked? (o.method : Method R) order))
    (h : exec (solve f order visit) (s, seen) = (.error e, final)) : fails e := by
  rw [solve, exec_solveWatched_eq_error_iff ha] at h
  rcases h with ⟨s', hl, -⟩ | ⟨turns, next, hreach, ⟨-, rfl, -⟩ | ⟨-, hbreaks⟩⟩
  · exact launch_failsOnly hp hl
  · exact hp.cut
  · -- whatever turns the run has taken, the solver is still seated before the one that breaks
    obtain ⟨first, s₀, hl, htrail⟩ := hreach.trail
    have hseated := (htrail.underway .start).upholds carries_anything (carries_anything.launch hl)
    exact hbreaks.failsOnly hp hseated hreach.running

end

end Minima.Solver
