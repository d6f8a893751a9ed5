import Minima.Proofs.MethodSteps
import Minima.Proofs.NumericalFailures
import Minima.Proofs.Totality

/-!
# Mistakes in a configuration show early

A run of a method on offer on a total objective, with a criterion that fits its dimension, fails at
most before its first step has been made: it is refused, or its first step meets an option that
cannot be used. The invariant of the run is that its solver works on what was accepted, in a state of
the dimension of the objective. A criterion that does not fit is found out only when it is asked,
which is after a step.
-/

namespace Minima.Solver

variable {R : Type} [Scalar R] {m : Method R} {σ α : Type}

/-! ## The invariant of a run -/

/-- What a run of `f` works on that was accepted and has asked so much. -/
def Accepted.task {f : Subject R} (a : Accepted R f.n) (ledger : Ledger R f.n) : Task R :=
  { f with ledger, options := a.options, region := a.region }

/-- The solver works on what was accepted, in a state of the dimension of `f`, and remembers
gradients of the right size. -/
structure Sound (f : Subject R) (a : Accepted R f.n) (s : Solver m) : Prop where
  task : ∃ ledger : Ledger R f.n, ledger.Sized ∧ s.task? = some (a.task ledger)
  state : ∃ st : m.State f.n, s.state? = some ⟨f.n, st⟩

section

variable {f : Subject R} {a : Accepted R f.n} {s s' : Solver m}

theorem sized_of_run (hf : f.objective.Total) (d : Consult R f.n α) {ledger : Ledger R f.n}
    (hl : ledger.Sized) : (d.run f.objective ledger).2.Sized :=
  (Consult.run_total hf hl (Dialogue.meets_anything d)).1

theorem sound_launch (hf : f.objective.Total) {v : Snapshot R}
    (h : exec (launch f a) s = (.ok v, s')) : Sound f a s' := by
  have hsized : (opening m f a).2.Sized := sized_of_run hf _ Ledger.sized_empty
  obtain ⟨st, ledger, events, ho, -, rfl⟩ := exec_launch_made h
  rw [ho] at hsized
  exact ⟨⟨ledger, hsized, rfl⟩, st, rfl⟩

theorem attemptStep_task (ledger : Ledger R f.n) (count : Nat) (st : m.State f.n) :
    attemptStep (a.task ledger) count st =
      (m.step (a.situation f.objective.name) count st).run f.objective ledger :=
  dif_pos rfl

/-- What a step of a sound run that returns has concluded in. -/
theorem Sound.concluded_of_step (hs : Sound f a s) {status : Status}
    (h : exec iterate s = (.ok status, s')) :
    ∃ (ledger : Ledger R f.n) (st : m.State f.n) (next : Σ n, m.State n), ledger.Sized ∧
      concluded a.options ⟨f.n, st⟩ (attemptStep (a.task ledger) s.iterations st).1 =
        .ok (next, status) ∧
      s'.task? = some (a.task (attemptStep (a.task ledger) s.iterations st).2) ∧
      s'.state? = some next := by
  obtain ⟨⟨ledger, hl, htask⟩, st, hstate⟩ := hs
  obtain ⟨-, -, -, -, t, k, st', next, ht, hst, hc, ht', hnext⟩ := exec_iterate_ok h
  obtain rfl : a.task ledger = t := by simpa [htask] using ht
  obtain ⟨rfl, heq⟩ : f.n = k ∧ HEq st st' := by simpa [hstate] using hst
  obtain rfl : st = st' := eq_of_heq heq
  exact ⟨ledger, st, next, hl, hc, ht', hnext⟩

theorem sound_iterate (hf : f.objective.Total) (hs : Sound f a s) {status : Status}
    (h : exec iterate s = (.ok status, s')) : Sound f a s' := by
  obtain ⟨ledger, st, next, hl, hc, htask, hnext⟩ := hs.concluded_of_step h
  rw [attemptStep_task] at hc htask
  refine ⟨⟨_, sized_of_run hf _ hl, htask⟩, ?_⟩
  obtain ⟨-, -, -, rfl, -⟩ | ⟨made, reported, -, rfl, -⟩ := concluded_eq_ok hc
  · exact ⟨st, hnext⟩
  · exact ⟨made, hnext⟩

theorem Sound.with_ledger (hs : Sound f a s) {ledger : Ledger R f.n} (hl : ledger.Sized) :
    Sound f a { s with task? := some (a.task ledger) } :=
  ⟨⟨ledger, hl, rfl⟩, hs.state⟩

/-- A gauge that answers returns, and the run stays sound. -/
theorem sound_gauge (hf : f.objective.Total) (hs : Sound f a s) {g : Gauge R α}
    (hg : Criterion.Answers f.n g) :
    ∃ x s', exec (gauge g) s = (.ok x, s') ∧ Sound f a s' ∧ s'.bare = s.bare := by
  obtain ⟨ledger, hl, htask⟩ := hs.task
  obtain ⟨⟨x, hx⟩, hleft⟩ := gauged_total hf hl hg
  have hexec := exec_gauge htask g
  have hbare := keeps_bare_gauge g s
  rw [hexec] at hbare
  rw [show (gauged (a.task ledger).objective g (a.task ledger).ledger).1 = .ok x from hx] at hexec
  exact ⟨x, _, hexec, hs.with_ledger hleft, hbare⟩

/-- A criterion that answers does not fail a run. -/
theorem stopIfHolds_answers (hf : f.objective.Total) (hs : Sound f a s) {v : Snapshot R}
    (hv : s.snapshot? = some v) {c : Criterion R}
    (hholds : Criterion.Answers f.n (c.holds v s.iterations))
    (hmeasure : Criterion.Answers f.n (c.measure v s.iterations)) {e : Failure R} :
    exec (stopIfHolds c) s ≠ (.error e, s') := by
  intro h
  obtain ⟨held, s₁, hgauge, hs₁, -⟩ := sound_gauge hf hs hholds
  rw [exec_stopIfHolds hv, hgauge] at h
  cases held with
  | false => cases h
  | true =>
      obtain ⟨measured, s₂, hmeasured, -⟩ := sound_gauge hf hs₁ hmeasure
      simp [hmeasured] at h

end

/-! ## Runs of the methods on offer -/

/-- What was accepted of a run can be relied on: the objective answers, the criterion fits it, and
the options have been checked. -/
structure WellPosed (o : Offer) (f : Subject R) (a : Accepted R f.n)
    (criterion? : Option (Criterion R)) : Prop where
  total : f.objective.Total
  fits : ∀ c, criterion? = some c → c.Fits f.n
  bounds : ∀ key ∈ ["max_x_norm", "max_abs_f"], a.options.InRange .positive key
  valid : ∃ owner, (o.method : Method R).validate owner a.options = .ok ()
  plain : o.Plain a.options

section

variable {o : Offer} {f : Subject R} {a : Accepted R f.n} {criterion? : Option (Criterion R)}
  {s s' : Solver (o.method : Method R)} {e : Failure R} {visit : Snapshot R → Nat → σ → σ}
  {start next left : Solver (o.method : Method R) × σ} {turns : List (Turn (o.method : Method R) σ)}

theorem Sound.point_size (hs : Sound f a s) {v : Snapshot R} (hv : s.snapshot? = some v) :
    v.point.size = f.n := by
  obtain ⟨st, hst⟩ := hs.state
  have hview : (o.method : Method R).view st = v := by simpa [snapshot?, hst] using hv
  exact hview ▸ o.point_size st

/-- What the method comes to in a step of a sound run. -/
theorem attemptStep_meets (hp : WellPosed o f a criterion?) {ledger : Ledger R f.n}
    (hl : ledger.Sized) (count : Nat) (st : (o.method : Method R).State f.n) :
    (∀ r, (attemptStep (a.task ledger) count st).1 = .ok r →
      (∃ made, r.1 = .state made) ∧ (r.2 = .running → o.Usable a.options)) ∧
    ∀ e, (attemptStep (a.task ledger) count st).1 = .error e → e.Excused (o.Usable a.options) := by
  obtain ⟨owner, hvalid⟩ := hp.valid
  have hmeets := Offer.step_meets (s := a.situation f.objective.name) hvalid hp.plain count st
  rw [attemptStep_task]
  exact (Consult.run_total hp.total hl hmeets).2

/-- After a step that goes on the options are known to be usable. -/
theorem usable_of_goes_on (hp : WellPosed o f a criterion?) (hs : Sound f a s)
    (h : exec iterate s = (.ok .running, s')) : o.Usable a.options := by
  obtain ⟨ledger, st, next, hl, hc, -⟩ := hs.concluded_of_step h
  obtain ⟨-, -, -, -, hover⟩ | ⟨made, reported, hout, -, hclass⟩ := concluded_eq_ok hc
  · cases hover
  · obtain rfl : reported = .running := classify_running hclass
    exact ((attemptStep_meets hp hl s.iterations st).1 _ hout).2 rfl

/-- A step of a sound run fails only over an option that cannot be used. -/
theorem unusable_of_step_fails (hp : WellPosed o f a criterion?) (hs : Sound f a s)
    (hrun : s.status = .running) (he : e ≠ .cutOff) (h : exec iterate s = (.error e, s')) :
    ¬ o.Usable a.options ∧ s'.iterations = s.iterations := by
  obtain ⟨⟨ledger, hl, htask⟩, st, hstate⟩ := hs
  obtain ⟨hc, events, rfl⟩ :=
    exec_iterate_live_error htask hstate (Status.isTerminal_eq_false_iff.mpr hrun) h
  obtain ⟨hok, herror⟩ := attemptStep_meets hp hl s.iterations st
  refine ⟨fun husable => ?_, rfl⟩
  obtain ⟨hout, hnot⟩ | ⟨typeName, reported, hout, -⟩ := concluded_error_of_bounds hp.bounds hc
  · obtain hnumerical | hcut := herror e hout husable
    · simp [hnot] at hnumerical
    · exact he hcut
  · obtain ⟨⟨made, hmade⟩, -⟩ := hok _ hout
    cases hmade

/-- An onlooker leaves the solver as the step has left it. -/
theorem Turn.Happens.after_onlooker {t : Turn m σ}
    (hw : t.Happens (.onlooker visit)) : t.after.1 = t.made := by
  have hwatched := hw.watched
  rw [exec_watch_onlooker hw.step] at hwatched
  have hafter := (Prod.mk.inj hwatched).2
  exact (congrArg Prod.fst hafter).symm

theorem sound_after (hp : WellPosed o f a criterion?) {t : Turn (o.method : Method R) σ}
    (hw : t.Happens (.onlooker visit)) (hs : Sound f a t.before.1) : Sound f a t.after.1 := by
  rw [hw.after_onlooker]
  exact sound_iterate hp.total hs hw.step

theorem sound_next (hp : WellPosed o f a criterion?) {t : Turn (o.method : Method R) σ}
    (hw : t.Happens (.onlooker visit)) (hlead : t.LeadsTo criterion? next)
    (hs : Sound f a t.before.1) : Sound f a next.1 := by
  have hafter := sound_after hp hw hs
  obtain ⟨-, -, hnext⟩ := hlead
  cases criterion? with
  | none => exact hnext ▸ hafter
  | some c =>
      dsimp only at hnext
      have hsize := hafter.point_size hw.snapshot_after.1
      obtain ⟨held, s', hgauge, hs', -⟩ :=
        sound_gauge hp.total hafter (Criterion.holds_answers (hp.fits c rfl) hsize)
      rw [hgauge] at hnext
      have heq := (Prod.mk.inj hnext).2
      exact heq ▸ hs'

/-- Along a trail a run stays sound, and after its first turn the options are known to be usable. -/
theorem Trail.sound (hp : WellPosed o f a criterion?)
    (h : Trail criterion? (.onlooker visit) start turns next) (hs : Sound f a start.1) :
    Sound f a next.1 ∧ (turns ≠ [] → o.Usable a.options) := by
  -- on the trail from its front: each turn hands the invariant on to where it leads
  induction h with
  | nil p => exact ⟨hs, fun hne => absurd rfl hne⟩
  | @cons t next final turns hw hlead hrest ih =>
      obtain ⟨hfinal, -⟩ := ih (sound_next hp hw hlead hs)
      refine ⟨hfinal, fun _ => ?_⟩
      have hstep := hw.step
      rw [hlead.1] at hstep
      exact usable_of_goes_on hp hs hstep

/-- A turn of a sound run breaks only in its step, over an option that cannot be used. -/
theorem Breaks.unusable (hp : WellPosed o f a criterion?) (hs : Sound f a next.1)
    (hrun : next.1.status = .running) (he : e ≠ .cutOff)
    (h : Breaks criterion? (.onlooker visit) next e left) :
    ¬ o.Usable a.options ∧ left.2 = next.2 ∧ left.1.iterations = next.1.iterations := by
  cases h with
  | step h =>
      obtain ⟨hnot, hcount⟩ := unusable_of_step_fails hp hs hrun he h
      exact ⟨hnot, rfl, hcount⟩
  | watcher hstep hlive h =>
      rw [exec_watch_onlooker hstep] at h
      cases h
  | @criterion t c e s' hw hgoes hc h =>
      have hafter := sound_after hp hw hs
      have hlive := hw.snapshot_after.1
      have hsize := hafter.point_size hlive
      have hfits := hp.fits c hc
      exact absurd h (stopIfHolds_answers hp.total hafter hlive
        (Criterion.holds_answers hfits hsize) (Criterion.measure_answers hfits hsize))

/-- A set up of a method on offer on a total objective does not fail. -/
theorem launch_returns {owner : String} (hf : f.objective.Total)
    (hvalid : (o.method : Method R).validate owner a.options = .ok ())
    (s : Solver (o.method : Method R)) : ∃ v s', exec (launch f a) s = (.ok v, s') := by
  have hmeets : ((o.method : Method R).start (a.situation f.objective.name)
      (a.region.project a.start)).Meets (fun _ => True) (fun p => ∃ st, p = .state st)
      (fun _ => False) := Offer.start_meets hvalid _
  obtain ⟨-, hok, herror⟩ := Consult.run_total hf Ledger.sized_empty hmeets
  obtain hreturns | ⟨e, -, hfails, -⟩ := exec_launch_of_states hok s
  · exact hreturns
  · exact (herror e hfails).elim

end

theorem wellPosed_of_accepted {o : Offer} {f : Subject R} {order : Order R}
    {s : Solver (o.method : Method R)} {a : Accepted R f.n}
    (ha : s.acceptOrder f.n order = .ok a) (hf : f.objective.Total)
    (hfits : ∀ c, asked? (o.method : Method R) order = some c → c.Fits f.n)
    (hplain : o.Plain a.options) : WellPosed o f a (asked? o.method order) where
  total := hf
  fits := hfits
  bounds := bounds_of_accept (accept_of_acceptOrder ha)
  valid := ⟨s.name, validate_of_accept (accept_of_acceptOrder ha)⟩
  plain := hplain

/-- A run of a method on offer, on a total objective and with a criterion that fits it, fails only
before a step has been made or shown: it is refused and leaves everything as it was, or an option
that no check has looked at cannot be used. -/
theorem failures_come_first {o : Offer} {f : Subject R} (hf : f.objective.Total) {order : Order R}
    {s : Solver (o.method : Method R)}
    (hfits : ∀ c, asked? (o.method : Method R) order = some c → c.Fits f.n)
    (hplain : ∀ a, s.acceptOrder f.n order = .ok a → o.Plain a.options)
    (visit : Snapshot R → Nat → σ → σ) (seen : σ) {e : Failure R}
    {final : Solver (o.method : Method R) × σ} (he : e ≠ .cutOff)
    (h : exec (solve f order visit) (s, seen) = (.error e, final)) :
    final.2 = seen ∧
      (s.acceptOrder f.n order = .error e ∧ final.1 = s ∨
        ∃ a, s.acceptOrder f.n order = .ok a ∧ ¬ o.Usable a.options ∧
          final.1.iterations = 0) := by
  cases ha : s.acceptOrder f.n order with
  | error e' =>
      rw [solve, exec_solveWatched, ha] at h
      cases h
      exact ⟨rfl, .inl ⟨rfl, rfl⟩⟩
  | ok a =>
      have hp := wellPosed_of_accepted ha hf hfits (hplain a ha)
      rw [solve, exec_solveWatched_eq_error_iff ha] at h
      obtain ⟨owner, hvalid⟩ := hp.valid
      obtain ⟨first, s₀, hl⟩ := launch_returns hf hvalid s
      obtain ⟨s', hl', -⟩ | ⟨turns, next, hreach, ⟨-, hcut, -⟩ | ⟨-, hbreaks⟩⟩ := h
      · rw [hl] at hl'
        cases hl'
      · exact absurd hcut he
      · obtain ⟨first', s₀', hl', htrail⟩ := hreach.trail
        rw [hl] at hl'
        cases hl'
        obtain ⟨hsound, husable⟩ := htrail.sound hp (sound_launch hf hl)
        obtain ⟨hnot, hseen, hcount⟩ := hbreaks.unusable hp hsound hreach.running he
        -- a turn that leads on would have shown that the options are usable
        have hfirst : turns = [] := by
          by_contra hne
          exact hnot (husable hne)
        subst hfirst
        obtain rfl := htrail.eq_of_nil
        obtain ⟨-, hzero, -⟩ := exec_launch_ok hl
        exact ⟨hseen, .inr ⟨a, rfl, hnot, hcount.trans hzero⟩⟩

section

/-- The function `x` on the line. -/
noncomputable def ramp : Subject ℝ where
  n := 1
  objective :=
    { name := "ramp"
      value := fun x => .ok (x.get ⟨0, Nat.one_pos⟩)
      gradient? := some fun _ => .ok #[1]
      hessian? := some fun _ => .ok #[0] }

theorem ramp_total : ramp.objective.Total where
  value _ := ⟨_, rfl⟩
  gradient _ := ⟨_, rfl, rfl⟩
  hessian _ := ⟨_, rfl⟩

noncomputable def rampOrder (options : Options ℝ) (criterion : Criterion ℝ) : Order ℝ where
  toConfiguration := { Scripted.fromOrigin with options }
  criterion? := some criterion

noncomputable def rampAccepted (options : Options ℝ) : Accepted ℝ ramp.n :=
  Scripted.acceptedOrigin options

theorem ramp_accepts {s : Solver (SteepestDescent.method : Method ℝ)} {given options : Options ℝ}
    (h : s.acceptOptions given = .ok options) (criterion : Criterion ℝ) :
    s.acceptOrder ramp.n (rampOrder given criterion) = .ok (rampAccepted options) := by
  have hstart : acceptStart s.name ramp.n (Scripted.fromOrigin).start =
      .ok (rampAccepted options).start :=
    acceptStart_eq_ok_iff.mpr ⟨rfl, rfl, Linear.isFinite_real _⟩
  exact accept_eq_ok_iff.mpr ⟨hstart, rfl, h⟩

/-- Steepest descent accepts that the slope of its search is no number. -/
theorem slopeless_accepted (s : Solver (SteepestDescent.method : Method ℝ)) :
    s.acceptOptions [("c1", .absent)] =
      .ok ((SteepestDescent.method : Method ℝ).defaults.merged [("c1", .absent)]) := by
  refine acceptOptions_eq_ok_iff.mpr ⟨fun _ key hkey => ?_, fun key hkey => ?_, ?_, rfl⟩
  · obtain rfl : key = "c1" := by simpa [Options.keys] using hkey
    exact Options.has_eq_true_iff.mp rfl
  · simp only [List.mem_cons, List.not_mem_nil, or_false] at hkey
    obtain rfl | rfl := hkey
    · exact ⟨1e12, rfl, OptionRange.covers_positive (by norm_num)⟩
    · exact ⟨1e100, rfl, OptionRange.covers_positive (by norm_num)⟩
  · exact LineStep.validate_eq_ok_iff.mpr (LineStep.checked_defaults.update (by decide))

/-- Its first step finds out. -/
theorem slopeless_step_fails {s : Solver (SteepestDescent.method : Method ℝ)}
    (hs : Sound ramp (rampAccepted
      ((SteepestDescent.method : Method ℝ).defaults.merged [("c1", .absent)])) s)
    (hrun : s.status = .running) : ∃ s', exec iterate s = (.error .notANumber, s') := by
  obtain ⟨⟨ledger, -, htask⟩, st, hstate⟩ := hs
  obtain ⟨events, heq⟩ :=
    exec_iterate_live htask hstate (Status.isTerminal_eq_false_iff.mpr hrun)
  have hfails : (attemptStep ((rampAccepted
      ((SteepestDescent.method : Method ℝ).defaults.merged [("c1", .absent)])).task ledger)
      s.iterations st).1 = .error .notANumber := by
    rw [attemptStep_task]
    rfl
  rw [hfails] at heq
  exact ⟨_, heq⟩

theorem slopeless_fails_first :
    ∃ final, exec (solve ramp (rampOrder [("c1", .absent)] (.iterations 1))
        fun _ _ (shown : Nat) => shown + 1) (new SteepestDescent.method none, 0) =
        (.error .notANumber, final) ∧
      (final.2 = 0 ∧
        ((new SteepestDescent.method none).acceptOrder ramp.n
            (rampOrder [("c1", .absent)] (.iterations 1)) = .error .notANumber ∧
            final.1 = new SteepestDescent.method none ∨
          ∃ a, (new SteepestDescent.method none).acceptOrder ramp.n
              (rampOrder [("c1", .absent)] (.iterations 1)) = .ok a ∧
            ¬ Offer.steepestDescent.Usable a.options ∧ final.1.iterations = 0)) := by
  have ha := ramp_accepts (slopeless_accepted (new SteepestDescent.method none)) (.iterations 1)
  have hfits : ∀ c, asked? (SteepestDescent.method : Method ℝ)
      (rampOrder [("c1", .absent)] (.iterations 1)) = some c → c.Fits ramp.n := by
    rintro _ ⟨⟩
    exact .iterations 1
  have hplain : ∀ a : Accepted ℝ ramp.n, Offer.steepestDescent.Plain a.options := by
    rintro a ⟨⟩
  have hp := wellPosed_of_accepted (o := .steepestDescent) ha ramp_total hfits (hplain _)
  obtain ⟨owner, hvalid⟩ := hp.valid
  obtain ⟨first, s₀, hl⟩ :=
    launch_returns (o := .steepestDescent) ramp_total hvalid (new SteepestDescent.method none)
  obtain ⟨-, -, -, hstatus, -⟩ := exec_launch_ok hl
  have hrun : s₀.status = .running := by simpa [Snapshot.isFinite_real] using hstatus
  obtain ⟨s', hstep⟩ := slopeless_step_fails (sound_launch ramp_total hl) hrun
  have hfails : exec (solve ramp (rampOrder [("c1", .absent)] (.iterations 1))
      fun _ _ (shown : Nat) => shown + 1) (new SteepestDescent.method none, 0) = _ :=
    exec_solveWatched_of_first_step ha hl hrun (by decide) hstep
  exact ⟨_, hfails, failures_come_first (o := .steepestDescent) ramp_total hfits
    (fun a _ => hplain a) _ 0 nofun hfails⟩

end

end Minima.Solver
