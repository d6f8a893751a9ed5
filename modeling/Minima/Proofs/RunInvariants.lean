import Minima.Proofs.EarlyFailures
import Minima.Proofs.GroundedSteps

/-!
# What a run carries along

A method carries a property of its states along, if its start has it and its steps keep it, as long
as something holds of the ledger. Then it holds of the state after a set up, after every step, also
one that has failed or was absorbed, and after whatever is asked between the steps that keeps the
ledger as it should be. So it holds in every turn of a run.
-/

namespace Minima.Solver

variable {R : Type} [Scalar R] {m : Method R} {σ α : Type} {f : Subject R} {a : Accepted R f.n}

/-- On what was accepted of `f`, the method starts in a state with `P`, its steps keep `P`, and its
questions keep `I`. -/
structure Carries (f : Subject R) (a : Accepted R f.n) (I : Ledger R f.n → Prop)
    (P : m.State f.n → Prop) : Prop where
  start : I (opening m f a).2 ∧ ∀ st, (opening m f a).1 = .ok (.state st) → P st
  step : ∀ ledger count st, I ledger → P st →
    I (attemptStep (a.task ledger) count st).2 ∧ ∀ next reported,
      (attemptStep (a.task ledger) count st).1 = .ok (.state next, reported) → P next

/-- The solver works on what was accepted of `f`, with `I` of the ledger and `P` of the state. -/
structure Upholds (f : Subject R) (a : Accepted R f.n) (I : Ledger R f.n → Prop)
    (P : m.State f.n → Prop) (s : Solver m) : Prop where
  task : ∃ ledger, I ledger ∧ s.task? = some (a.task ledger)
  state : ∃ st, P st ∧ s.state? = some ⟨f.n, st⟩

def GaugesKeep (f : Subject R) (I : Ledger R f.n → Prop) : Prop :=
  ∀ t l, I l → I (Ledger.request f.objective (Ledger.gradient f.objective) t l).2

def Watcher.Leaves (f : Subject R) (I : Ledger R f.n → Prop) (w : Watcher R σ) : Prop :=
  ∀ v k l seen, I l → I (w v k f.n f.objective (l, seen)).2.1

variable {I : Ledger R f.n → Prop} {P : m.State f.n → Prop} {s s' : Solver m}

/-- An onlooker asks nothing. -/
theorem leaves_onlooker (visit : Snapshot R → Nat → σ → σ) : (Watcher.onlooker visit).Leaves f I :=
  fun _ _ _ _ h => h

theorem Upholds.with_ledger (h : Upholds f a I P s) {ledger : Ledger R f.n} (hl : I ledger) :
    Upholds f a I P { s with task? := some (a.task ledger) } :=
  ⟨⟨ledger, hl, rfl⟩, h.state⟩

theorem Upholds.snapshot (h : Upholds f a I P s) {v : Snapshot R} (hv : s.snapshot? = some v) :
    ∃ st, P st ∧ m.view st = v := by
  obtain ⟨st, hP, hst⟩ := h.state
  exact ⟨st, hP, by simpa [snapshot?, hst] using hv⟩

theorem snapshot?_of_state {n : Nat} {st : m.State n} (h : s.state? = some ⟨n, st⟩) :
    s.snapshot? = some (m.view st) := by
  rw [snapshot?, h]
  rfl

theorem opening_of_exec_launch {first : Snapshot R} (h : exec (launch f a) s = (.ok first, s')) :
    ∃ st, (opening m f a).1 = .ok (.state st) ∧ s'.state? = some ⟨f.n, st⟩ ∧ m.view st = first := by
  obtain ⟨st, ledger, events, ho, hview, rfl⟩ := exec_launch_made h
  exact ⟨st, congrArg Prod.fst ho, rfl, hview⟩

/-- A step that returns was made from what is upheld: it stays there after a numerical failure, or it
goes to what the method has made. -/
theorem Upholds.of_iterate (hs : Upholds f a I P s) {status : Status}
    (h : exec iterate s = (.ok status, s')) :
    ∃ ledger st, I ledger ∧ P st ∧ s.state? = some ⟨f.n, st⟩ ∧
      s'.task? = some (a.task (attemptStep (a.task ledger) s.iterations st).2) ∧
      ((∃ e, ((attemptStep (a.task ledger) s.iterations st).1 = .error e ∧ e.isNumerical = true) ∧
          s'.state? = s.state? ∧ status = .outOfControl) ∨
        ∃ next reported,
          (attemptStep (a.task ledger) s.iterations st).1 = .ok (.state next, reported) ∧
          s'.state? = some ⟨f.n, next⟩ ∧
          classify a.options (m.view next) reported = .ok status) := by
  obtain ⟨⟨ledger, hI, htask⟩, st, hP, hstate⟩ := hs
  obtain ⟨-, -, -, -, t, k, st', next, ht, hst, hc, htask', hnext⟩ := exec_iterate_ok h
  obtain rfl : a.task ledger = t := by simpa [htask] using ht
  obtain ⟨rfl, heq⟩ : f.n = k ∧ HEq st st' := by simpa [hstate] using hst
  obtain rfl : st = st' := eq_of_heq heq
  refine ⟨ledger, st, hI, hP, hstate, htask', ?_⟩
  obtain ⟨e, he, hnumerical, rfl, rfl⟩ | ⟨made, reported, hmade, rfl, hclass⟩ := concluded_eq_ok hc
  · exact .inl ⟨e, ⟨he, hnumerical⟩, by rw [hnext, hstate], rfl⟩
  · exact .inr ⟨made, reported, hmade, hnext, hclass⟩

/-- If nothing is asked of the ledger, what is upheld does not depend on it. -/
theorem Upholds.of_bare (hs : Upholds f a (fun _ => True) P s) (h : s'.bare = s.bare) :
    Upholds f a (fun _ => True) P s' := by
  obtain ⟨⟨ledger, -, htask⟩, st, hP, hstate⟩ := hs
  have hsame : s'.bare.task? = s.bare.task? := by rw [h]
  have hstate' : s'.bare.state? = s.bare.state? := by rw [h]
  simp only [bare, htask, Option.map_some, Option.map_eq_some_iff] at hsame
  obtain ⟨⟨⟨n, objective, ledger'⟩, options, region⟩, htask', heq⟩ := hsame
  cases heq
  exact ⟨⟨ledger', trivial, htask'⟩, st, hP, hstate'.trans hstate⟩

theorem Carries.launch (h : Carries f a I P) {v : Snapshot R}
    (hl : exec (launch f a) s = (.ok v, s')) : Upholds f a I P s' := by
  obtain ⟨hI, hP⟩ := h.start
  obtain ⟨st, ledger, events, ho, -, rfl⟩ := exec_launch_made hl
  rw [ho] at hI hP
  exact ⟨⟨ledger, hI, rfl⟩, st, hP st rfl, rfl⟩

/-- Every method carries along that its states are of the dimension of the objective. -/
theorem carries_anything : Carries (m := m) f a (fun _ => True) fun _ => True where
  start := ⟨trivial, fun _ _ => trivial⟩
  step _ _ _ _ _ := ⟨trivial, fun _ _ _ => trivial⟩

/-- A step upholds the invariant, whether it returns, fails or is absorbed: unless the method has
made a state, the state stays. -/
theorem Carries.iterate (h : Carries f a I P) :
    Preserves (Upholds f a I P) (iterate : Engine m Status) := by
  intro s hs
  obtain ⟨⟨ledger, hI, htask⟩, st, hP, hstate⟩ := hs
  cases hrun : s.status.isTerminal with
  | true =>
      rw [exec_iterate_finished htask hstate hrun]
      exact ⟨⟨ledger, hI, htask⟩, st, hP, hstate⟩
  | false =>
      obtain ⟨hleft, hnext⟩ := h.step ledger s.iterations st hI hP
      obtain ⟨events, heq⟩ := exec_iterate_live htask hstate hrun
      rw [heq]
      cases hc : concluded (a.task ledger).options ⟨f.n, st⟩
          (attemptStep (a.task ledger) s.iterations st).1 with
      | error e => exact ⟨⟨_, hleft, rfl⟩, st, hP, hstate⟩
      | ok r =>
          obtain ⟨next, status⟩ := r
          refine ⟨⟨_, hleft, rfl⟩, ?_⟩
          obtain ⟨-, -, -, rfl, -⟩ | ⟨made, reported, hmade, rfl, -⟩ := concluded_eq_ok hc
          · exact ⟨st, hP, rfl⟩
          · exact ⟨made, hnext made reported hmade, rfl⟩

theorem gauged_keeps (hI : GaugesKeep f I) (g : Gauge R α) {l : Ledger R f.n} (hl : I l) :
    I (gauged f.objective g l).2 := by
  unfold gauged
  induction g generalizing l with
  | done x => exact hl
  | fail e => exact hl
  | ask point next ih =>
      have hleft := hI (Tensor.ofArray point) l hl
      simp only [Dialogue.play]
      rcases hr : Ledger.request f.objective (Ledger.gradient f.objective) (Tensor.ofArray point) l
        with ⟨e | x, l'⟩
      · rw [hr] at hleft
        exact hleft
      · rw [hr] at hleft
        exact ih x hleft

theorem preserves_upholds_gauge (hI : GaugesKeep f I) (g : Gauge R α) :
    Preserves (Upholds f a I P) (gauge g : Engine m α) := by
  intro s hs
  obtain ⟨ledger, hl, htask⟩ := hs.task
  rw [exec_gauge htask]
  exact hs.with_ledger (gauged_keeps hI g hl)

theorem preserves_upholds_snapshot :
    Preserves (Upholds f a I P) (snapshot : Engine m (Snapshot R)) := by
  intro s hs
  cases hv : s.snapshot? with
  | none => rwa [exec_snapshot_absent hv]
  | some v => rwa [exec_snapshot hv]

theorem preserves_upholds_stopIfHolds (hI : GaugesKeep f I) (c : Criterion R) :
    Preserves (Upholds f a I P) (stopIfHolds c : Engine m (Option R)) := by
  refine preserves_bind preserves_upholds_snapshot fun v => preserves_get_bind fun s => ?_
  refine preserves_bind (preserves_upholds_gauge hI _) fun held => ?_
  cases held with
  | false => exact fun s hs => hs
  | true =>
      refine preserves_bind (preserves_upholds_gauge hI _) fun measured => ?_
      exact fun s hs => ⟨hs.task, hs.state⟩

theorem preserves_upholds_watch {w : Watcher R σ} (hw : w.Leaves f I) (v : Snapshot R) :
    Preserves (fun p => Upholds f a I P p.1) (watch w v : Watched m σ Unit) := by
  rintro ⟨s, seen⟩ hs
  obtain ⟨ledger, hl, htask⟩ := hs.task
  rw [exec_watch htask]
  exact hs.with_ledger (hw v s.iterations ledger seen hl)

/-- If nothing is asked of the ledger, what a run carries along holds at any time. -/
theorem Underway.upholds {s₀ : Solver m} (hu : Underway s₀ s)
    (h : Carries f a (fun _ => True) P) (h₀ : Upholds f a (fun _ => True) P s₀) :
    Upholds f a (fun _ => True) P s := by
  have hgauges : GaugesKeep f fun _ => True := fun _ _ _ => trivial
  induction hu with
  | start => exact h₀
  | step _ ih => exact h.iterate _ ih
  | gauge _ g ih => exact preserves_upholds_gauge hgauges g _ ih
  | criterion _ c ih => exact preserves_upholds_stopIfHolds hgauges c _ ih
  | watch _ w v seen ih => exact preserves_upholds_watch (fun _ _ _ _ _ => trivial) v (_, seen) ih

section

variable {criterion? : Option (Criterion R)} {w : Watcher R σ} {start final : Solver m × σ}
  {turns : List (Turn m σ)} {finish : Finish R}

/-- What holds after the step of a turn holds before the next one. -/
theorem Turn.LeadsTo.upholds {t : Turn m σ} {next : Solver m × σ} (hlead : t.LeadsTo criterion? next)
    (ht : t.Happens w) (hI : GaugesKeep f I) (hw : w.Leaves f I) (hs : Upholds f a I P t.made) :
    Upholds f a I P next.1 := by
  have hafter : Upholds f a I P t.after.1 := by
    have hwatch := preserves_upholds_watch hw t.view (t.made, t.before.2) hs
    rwa [ht.watched] at hwatch
  obtain ⟨-, -, hnext⟩ := hlead
  cases criterion? with
  | none => exact hnext ▸ hafter
  | some c =>
      have hgauge := preserves_upholds_gauge hI (c.holds t.view t.made.iterations) t.after.1 hafter
      rwa [hnext] at hgauge

/-- What a run carries along holds after every step of it. -/
theorem Chronicle.upholds (hc : Chronicle criterion? w start turns finish final)
    (h : Carries f a I P) (hI : GaugesKeep f I) (hw : w.Leaves f I)
    (h₀ : Upholds f a I P start.1) : ∀ t ∈ turns, Upholds f a I P t.made := by
  have hmade {t : Turn m σ} (ht : t.Happens w) (hs : Upholds f a I P t.before.1) :
      Upholds f a I P t.made := by
    have hstep := h.iterate t.before.1 hs
    rwa [ht.step] at hstep
  induction hc using Chronicle.rec_turns with
  | idle hc => simp
  | ends t hc ht hend => simpa using hmade ht h₀
  | leads t next turns hc ht hlead hrest ih =>
      have hstep := hmade ht h₀
      simpa using ⟨hstep, ih (hlead.upholds ht hI hw hstep)⟩

/-- All states that a run shows, from the first to the last, have what it carries along. -/
theorem shown_of_solveWatched {order : Order R} {seen : σ} {r : Results R}
    {final : Solver m × σ} (ha : s.acceptOrder f.n order = .ok a) (h : Carries f a I P)
    (hI : GaugesKeep f I) (hw : w.Leaves f I)
    (hr : exec (solveWatched f order w) (s, seen) = (.ok r, final)) :
    ∀ v ∈ r.final :: r.history.toList, ∃ st, P st ∧ m.view st = v := by
  obtain ⟨a', first, s₀, turns, finish, last, ha', hl, -, hc, hrecounts, -⟩ :=
    chronicle_of_exec_solveWatched hr
  obtain rfl : a = a' := Except.ok.inj (ha.symm.trans ha')
  have h₀ : Upholds f a I P s₀ := h.launch hl
  have hturns := hc.upholds h hI hw h₀
  have hhistory : ∀ v ∈ r.history.toList, ∃ st, P st ∧ m.view st = v := by
    intro v hv
    rw [hrecounts.history] at hv
    obtain ⟨t, ht, rfl⟩ := List.mem_map.mp (by simpa using hv : v ∈ turns.map Turn.view)
    exact (hturns t ht).snapshot (hc.happen t ht).live
  intro v hv
  rcases List.mem_cons.mp hv with rfl | hv
  · -- the last state shown, or the first one if no step was made
    rw [hrecounts.final]
    cases hlast : turns.getLast? with
    | none =>
        obtain ⟨-, -, hfirst, -⟩ := exec_launch_ok hl
        exact h₀.snapshot hfirst
    | some t =>
        have ht := List.mem_of_getLast? hlast
        exact (hturns t ht).snapshot (hc.happen t ht).live
  · exact hhistory v hv

end

/-! ## Runs of the methods on offer -/

/-- A method on offer carries along that its states are grounded, if answers are as `told` says while
`I` holds of the ledger. -/
theorem carries_grounded (o : Offer) (f : Subject R) (a : Accepted R f.n) {I : Ledger R f.n → Prop}
    {told : Lore R f.n} (hempty : I {})
    (hanswer : ∀ q l, I l → I (Ledger.answer f.objective q l).2 ∧
      ∀ r, (Ledger.answer f.objective q l).1 = .ok r → told q r) :
    Carries (m := o.method) f a I (o.Grounded a.region told) where
  start := by
    have hstart : Consult.Grounded a.region told
        (fun p => ∀ st, p = .state st → o.Grounded a.region told st)
        (o.method.start (a.situation f.objective.name) (a.region.project a.start)) :=
      o.start_grounded (a.situation f.objective.name) ⟨a.start, rfl⟩
    obtain ⟨hI, hpost, -⟩ := hstart.play (fun q l _ => hanswer q l) hempty
    exact ⟨hI, fun st hst => hpost _ hst st rfl⟩
  step := by
    intro ledger count st hI hst
    have hstep : Consult.Grounded a.region told
        (fun r => ∀ next, r.1 = .state next → o.Grounded a.region told next)
        (o.method.step (a.situation f.objective.name) count st) :=
      o.step_grounded (a.situation f.objective.name) hst count
    rw [attemptStep_task]
    obtain ⟨hleft, hpost, -⟩ := hstep.play (fun q l _ => hanswer q l) hI
    exact ⟨hleft, fun next reported hnext => hpost _ hnext next rfl⟩

end Minima.Solver
