import Minima.Proofs.DescentSteps
import Minima.Proofs.LateFailures
import Minima.Proofs.LimitedRuns
import Minima.Proofs.RunInvariants

/-!
# Runs do not go up

From one snapshot to the next the value that a run shows never rises, whatever method on offer is
run, if it is not the one with a fixed step. So a run ends no higher than anything that it has shown.
Methods along a line come down with every step but the last, which may stay where it is.
-/

namespace Minima

/-! ## Courses -/

/-- What comes after `u` goes on as `going` says, except that the last of it may come as `ending`
says. -/
inductive Course {α : Type} (going ending : α → α → Prop) : α → List α → Prop
  | rest (u : α) : Course going ending u []
  | ends {u v : α} (h : ending u v) : Course going ending u [v]
  | leads {u v : α} {l : List α} (h : going u v) (hl : Course going ending v l) :
      Course going ending u (v :: l)

def Snapshot.Falls {R : Type} [Scalar R] (u v : Snapshot R) : Prop := v.value < u.value

instance {R : Type} [Scalar R] [Scalar.Ordered R] :
    Trans (Snapshot.Falls (R := R)) (Snapshot.Falls (R := R)) (Snapshot.Falls (R := R)) where
  trans h h' := Scalar.lt_trans h' h

namespace Course

section

variable {α : Type} {going ending : α → α → Prop} {u : α} {l : List α}

theorem mono {going' ending' : α → α → Prop} (h : Course going ending u l)
    (hgoing : ∀ u v, going u v → going' u v) (hending : ∀ u v, ending u v → ending' u v) :
    Course going' ending' u l := by
  induction h with
  | rest u => exact .rest u
  | ends h => exact .ends (hending _ _ h)
  | leads h _ ih => exact .leads (hgoing _ _ h) ih

theorem isChain (h : Course going going u l) : (u :: l).IsChain going := by
  induction h with
  | rest u => exact .singleton u
  | ends h => exact .cons_cons h (.singleton _)
  | leads h _ ih => exact .cons_cons h ih

/-- All but the last go on, and the last one follows somehow. -/
theorem split (h : Course going ending u l) (hne : l ≠ []) :
    ∃ earlier v w, u :: l = earlier ++ [v, w] ∧ (earlier ++ [v]).IsChain going ∧
      (going v w ∨ ending v w) := by
  induction h with
  | rest u => exact absurd rfl hne
  | @ends u v h => exact ⟨[], u, v, rfl, .singleton u, .inr h⟩
  | @leads u v l h _ ih =>
      cases l with
      | nil => exact ⟨[], u, v, rfl, .singleton u, .inl h⟩
      | cons x l =>
          obtain ⟨earlier, y, z, heq, hchain, hlast⟩ := ih (by simp)
          refine ⟨u :: earlier, y, z, by rw [heq]; rfl, ?_, hlast⟩
          cases earlier with
          | nil =>
              obtain ⟨rfl, -⟩ : v = y ∧ x :: l = [z] := by simpa using heq
              exact .cons_cons h hchain
          | cons v' earlier =>
              obtain ⟨rfl, -⟩ : v = v' ∧ x :: l = earlier ++ [y, z] := by simpa using heq
              exact .cons_cons h hchain

/-- Either the last one goes on too, or it repeats the one before. -/
theorem chain_or_repeats (h : Course going (fun u v => going u v ∨ v = u) u l) :
    (u :: l).IsChain going ∨
      ∃ earlier v, u :: l = earlier ++ [v, v] ∧ (earlier ++ [v]).IsChain going := by
  by_cases hne : l = []
  · subst hne
    exact .inl (.singleton u)
  obtain ⟨earlier, v, w, heq, hchain, hlast⟩ := h.split hne
  have hcases : going v w ∨ w = v := by tauto
  rcases hcases with hgoing | rfl
  · have happend : earlier ++ [v, w] = (earlier ++ [v]) ++ [w] := by simp
    refine .inl ?_
    rw [heq, happend, List.isChain_append]
    exact ⟨hchain, .singleton w, by simpa using hgoing⟩
  · exact .inr ⟨earlier, w, heq, hchain⟩

end

variable {R : Type} [Scalar R] [Scalar.Ordered R] {first : Snapshot R} {l : List (Snapshot R)}

/-- If the value never rises, it is the least in the end. -/
theorem last_value_le {going ending : Snapshot R → Snapshot R → Prop}
    (h : Course going ending first l) (hgoing : ∀ u v, going u v → v.value ≤ u.value)
    (hending : ∀ u v, ending u v → v.value ≤ u.value)
    (hdefined : Scalar.isNaN first.value = false) :
    ∀ v ∈ first :: l, (l.getLast?.getD first).value ≤ v.value := by
  induction h with
  | rest u => simpa using Scalar.le_self hdefined
  | @ends u v h =>
      have hle := hending u v h
      simpa using And.intro hle (Scalar.le_self (Scalar.Ordered.defined_of_le hle).1)
  | @leads u v l h _ ih =>
      have hle := hgoing u v h
      have hrest := ih (Scalar.Ordered.defined_of_le hle).1
      have hlast : ((v :: l).getLast?.getD u) = l.getLast?.getD v := by
        rw [List.getLast?_cons]
        rfl
      rw [hlast]
      intro w hw
      rcases List.mem_cons.mp hw with rfl | hw
      · exact Scalar.Ordered.le_trans (hrest v (by simp)) hle
      · exact hrest w hw

end Course

/-- Where there are values everywhere, a request for one succeeds whatever is remembered. -/
theorem Ledger.value_returns {R : Type} [Scalar R] {n : Nat} {f : Objective R n}
    (hf : ∀ x, ∃ y, f.value x = .ok y) (x : Vector R n) (l : Ledger R n) :
    ∃ y, (value f x l).1 = .ok y := by
  unfold value
  cases remembered? l.lastValue x with
  | some y => exact ⟨y, rfl⟩
  | none =>
      obtain ⟨y, hy⟩ := hf x
      rw [hy]
      exact ⟨y, rfl⟩

namespace Solver

open Dialogue

section

variable {R : Type} [Scalar R] {m : Method R} {σ : Type} {f : Subject R} {a : Accepted R f.n}
  {P : m.State f.n → Prop}

/-- The snapshots of a run, in their order. -/
theorem Chronicle.course {criterion? : Option (Criterion R)} {w : Watcher R σ}
    {start final : Solver m × σ} {turns : List (Turn m σ)} {finish : Finish R}
    {going ending : Snapshot R → Snapshot R → Prop}
    (hc : Chronicle criterion? w start turns finish final)
    (hcarries : Carries f a (fun _ => True) P)
    (hstep : ∀ s s' status v v', Upholds f a (fun _ => True) P s →
      exec iterate s = (.ok status, s') → s.snapshot? = some v → s'.snapshot? = some v' →
      ending v v' ∧ (status = .running → going v v'))
    (h₀ : Upholds f a (fun _ => True) P start.1) {first : Snapshot R}
    (hfirst : start.1.snapshot? = some first) : Course going ending first (turns.map Turn.view) := by
  induction hc using Chronicle.rec_turns generalizing first with
  | idle hc => exact .rest first
  | ends t hc ht hend =>
      exact .ends (hstep _ _ _ _ _ h₀ ht.step hfirst ht.live).1
  | leads t next turns hc ht hlead hrest ih =>
      have hmade : Upholds f a (fun _ => True) P t.made := by
        have hkept := hcarries.iterate t.before.1 h₀
        rwa [ht.step] at hkept
      have hbare := hlead.bare_next ht
      have hlive : next.1.snapshot? = some t.view := (snapshot?_of_bare hbare).trans ht.live
      refine .leads ?_ (ih (hmade.of_bare hbare) hlive)
      exact (hstep _ _ _ _ _ h₀ ht.step hfirst ht.live).2 hlead.1

end

/-! ## The methods on offer -/

section

variable {R : Type} [Scalar R] [Scalar.Ordered R] {o : Offer} {f : Subject R} {a : Accepted R f.n}
  {s s' : Solver (o.method : Method R)} {first : Snapshot R} {status : Status}

theorem attemptStep_descends {ledger : Ledger R f.n} {count : Nat}
    {st next : (o.method : Method R).State f.n} {reported : Status}
    (h : (attemptStep (a.task ledger) count st).1 = .ok (.state next, reported)) :
    o.Descends st (next, reported) := by
  rw [attemptStep_task] at h
  exact (o.step_descends (a.situation f.objective.name) count st).of_run h next rfl

theorem carries_level (ho : o ≠ .gradientDescent) (hl : exec (launch f a) s = (.ok first, s'))
    (hdefined : Scalar.isNaN first.value = false) :
    Carries (m := o.method) f a (fun _ => True) fun st => (o.method.view st).value ≤ first.value where
  start := by
    obtain ⟨st, hst, -, hview⟩ := opening_of_exec_launch hl
    refine ⟨trivial, fun st' hst' => ?_⟩
    obtain rfl : st = st' := by simpa [hst] using hst'
    rw [hview]
    exact Scalar.le_self hdefined
  step := by
    intro ledger count st _ hle
    refine ⟨trivial, fun next reported hnext => ?_⟩
    have hstep := attemptStep_descends hnext
    exact Scalar.Ordered.le_trans (hstep.value_le ho (Scalar.Ordered.defined_of_le hle).1) hle

omit [Scalar.Ordered R] in
/-- Where the objective has values everywhere, no step of pattern search fails. -/
theorem attemptStep_pattern_returns {a : Accepted R f.n} {owner : String}
    (hvalid : HookeJeeves.validate owner a.options = .ok ())
    (hvalues : ∀ x, ∃ y, f.objective.value x = .ok y) (ledger : Ledger R f.n) (count : Nat)
    (st : (HookeJeeves.method : Method R).State f.n) {e : Failure R} :
    (attemptStep (a.task ledger) count st).1 ≠ .error e := by
  intro h
  have hmeets : ((HookeJeeves.method : Method R).step (a.situation f.objective.name) count st).Meets
      Question.IsValue (fun _ => True) (fun _ => False) :=
    meets_bind (HookeJeeves.step_valued hvalid count st) fun _ _ => meets_pure trivial
  have hanswer : ∀ (q : Question R f.n) l, q.IsValue → True →
      (∃ r, (Ledger.answer f.objective q l).1 = .ok r) ∧ True := by
    intro q l hq _
    cases q with
    | value x => exact ⟨Ledger.value_returns hvalues x l, trivial⟩
    | gradient x => exact hq.elim
    | hessian x => exact hq.elim
  rw [attemptStep_task] at h
  exact (hmeets.play hanswer (s := ledger) trivial).2.2 e h

/-- What a step of a solver from `s`, which shows `v`, to `s'`, which shows `v'`, does to the
value. -/
structure StepDescends (o : Offer) (f : Subject R) (s s' : Solver (o.method : Method R))
    (status : Status) (v v' : Snapshot R) : Prop where
  never : v'.value ≤ v.value
  along : (o.method : Method R).usesLineSearch = true →
    Scalar.isFinite v'.value = true ∧ v'.value < v.value ∨
      s'.state? = s.state? ∧ status.isTerminal = true
  pattern : o = .hookeJeeves → (∀ x, ∃ y, f.objective.value x = .ok y) → v.Shifts v'

theorem Upholds.step_descends (ho : o ≠ .gradientDescent) {owner : String}
    (hvalid : (o.method : Method R).validate owner a.options = .ok ())
    (hs : Upholds f a (fun _ => True) (fun st => (o.method.view st).value ≤ first.value) s)
    (h : exec iterate s = (.ok status, s')) {v v' : Snapshot R} (hv : s.snapshot? = some v)
    (hv' : s'.snapshot? = some v') : StepDescends o f s s' status v v' := by
  obtain ⟨ledger, st, -, hle, hstate, -, hcases⟩ := hs.of_iterate h
  obtain rfl := Option.some.inj ((snapshot?_of_state hstate).symm.trans hv)
  have hdefined := (Scalar.Ordered.defined_of_le hle).1
  obtain ⟨e, ⟨he, -⟩, hkept, rfl⟩ | ⟨next, reported, hmade, hnext, hclass⟩ := hcases
  · -- a numerical failure keeps the state
    obtain rfl := Option.some.inj ((snapshot?_of_state (hkept.trans hstate)).symm.trans hv')
    refine ⟨Scalar.le_self hdefined, fun _ => .inr ⟨hkept, rfl⟩, ?_⟩
    rintro rfl hvalues
    exact absurd he (attemptStep_pattern_returns hvalid hvalues ledger s.iterations st)
  · obtain rfl := Option.some.inj ((snapshot?_of_state hnext).symm.trans hv')
    have hstep := attemptStep_descends hmade
    refine ⟨hstep.value_le ho hdefined, fun hline => ?_, fun heq _ => hstep.shifts heq⟩
    rcases hstep.strides hline with hlower | ⟨hkept, hend⟩
    · exact .inl hlower
    · -- a rejected step is classified as it is reported, or as out of control
      refine .inr ⟨by rw [hnext, hstate, ← hkept], ?_⟩
      by_contra hrun
      obtain rfl := Status.isTerminal_eq_false_iff.mp (Bool.eq_false_iff.mpr hrun)
      exact hend (classify_running hclass)

/-- What the results of a run that started with the snapshot `first` show of its values. -/
structure RunDescends (o : Offer) (f : Subject R) (first : Snapshot R) (r : Results R) : Prop where
  least : ∀ v ∈ first :: r.history.toList, r.value ≤ v.value
  along : (o.method : Method R).usesLineSearch = true →
    (first :: r.history.toList).Pairwise Snapshot.Falls ∨
      ∃ earlier v, first :: r.history.toList = earlier ++ [v, v] ∧
        (earlier ++ [v]).Pairwise Snapshot.Falls
  pattern : o = .hookeJeeves → (∀ x, ∃ y, f.objective.value x = .ok y) →
    (first :: r.history.toList).IsChain Snapshot.Shifts

theorem runDescends (ho : o ≠ .gradientDescent) {σ : Type} {order : Order R} {w : Watcher R σ}
    {seen : σ} {r : Results R} {final : Solver (o.method : Method R) × σ}
    (ha : s.accept f.n order.toConfiguration = .ok a)
    (hl : exec (launch f a) s = (.ok first, s')) (hdefined : Scalar.isNaN first.value = false)
    (h : exec (solveWatched f order w) (s, seen) = (.ok r, final)) : RunDescends o f first r := by
  obtain ⟨a', first', s₀, turns, finish, last, ha', hl', -, hc, hr, -⟩ :=
    chronicle_of_exec_solveWatched h
  obtain rfl : a' = a := Except.ok.inj ((accept_of_acceptOrder ha').symm.trans ha)
  rw [hl] at hl'
  cases hl'
  have hcarries := carries_level ho hl hdefined
  have hvalid := validate_of_accept ha
  obtain ⟨-, -, hfirst, -⟩ := exec_launch_ok hl
  -- everything that two snapshots in a row have to do with each other
  have hcourse : Course
      (fun v v' => v'.value ≤ v.value ∧
        ((o.method : Method R).usesLineSearch = true → v.Falls v') ∧
        (o = .hookeJeeves → (∀ x, ∃ y, f.objective.value x = .ok y) → v.Shifts v'))
      (fun v v' => v'.value ≤ v.value ∧
        ((o.method : Method R).usesLineSearch = true → v.Falls v' ∨ v' = v) ∧
        (o = .hookeJeeves → (∀ x, ∃ y, f.objective.value x = .ok y) → v.Shifts v'))
      first (turns.map Turn.view) := by
    refine hc.course hcarries ?_ (hcarries.launch hl) hfirst
    intro s s' status v v' hs hi hv hv'
    have hstep := hs.step_descends ho hvalid hi hv hv'
    constructor
    · refine ⟨hstep.never, fun hline => ?_, hstep.pattern⟩
      rcases hstep.along hline with ⟨-, hlower⟩ | ⟨hkept, -⟩
      · exact .inl hlower
      · have hsame : s'.snapshot? = s.snapshot? := by simp [snapshot?, hkept]
        exact .inr (Option.some.inj (hv'.symm.trans (hsame.trans hv)))
    · intro hrun
      refine ⟨hstep.never, fun hline => ?_, hstep.pattern⟩
      rcases hstep.along hline with ⟨-, hlower⟩ | ⟨-, hend⟩
      · exact hlower
      · rw [hrun] at hend
        cases hend
  have hhistory : r.history.toList = turns.map Turn.view := by simp [hr.history]
  have hfinal : r.value = ((turns.map Turn.view).getLast?.getD first).value := by
    rw [Results.value, hr.final, List.getLast?_map]
  rw [← hhistory] at hcourse hfinal
  refine ⟨?_, fun hline => ?_, fun heq hvalues => ?_⟩
  · rw [hfinal]
    exact hcourse.last_value_le (fun _ _ h => h.1) (fun _ _ h => h.1) hdefined
  · have hfalls := (hcourse.mono (fun _ _ h => h.2.1 hline) fun _ _ h => h.2.1 hline).chain_or_repeats
    rcases hfalls with hfalls | ⟨earlier, v, heq, hfalls⟩
    · exact .inl hfalls.pairwise
    · exact .inr ⟨earlier, v, heq, hfalls.pairwise⟩
  · exact (hcourse.mono (fun _ _ h => h.2.2 heq hvalues) fun _ _ h => h.2.2 heq hvalues).isChain

/-- After a set up with a finite value, no step of a method on offer raises the value that is shown,
and no run ends above anything that it has shown. A method along a line stores a finite smaller value
or stays where it is and stops; pattern search comes down exactly where it moves. -/
theorem never_loses_ground (ho : o ≠ .gradientDescent) {c : Configuration R}
    {s₀ : Solver (o.method : Method R)} (hset : exec (setUp f c) s = (.ok first, s₀))
    (hfinite : Scalar.isFinite first.value = true) :
    (∀ s₁ : Solver (o.method : Method R), Underway s₀ s₁ →
      ∃ v, s₁.snapshot? = some v ∧ v.value ≤ first.value ∧
        ∀ status s₂, exec iterate s₁ = (.ok status, s₂) →
          ∃ v', s₂.snapshot? = some v' ∧ StepDescends o f s₁ s₂ status v v') ∧
      ∀ (σ : Type) (order : Order R) (w : Watcher R σ) (seen : σ) (r : Results R)
        (final : Solver (o.method : Method R) × σ), order.toConfiguration = c →
        exec (solveWatched f order w) (s, seen) = (.ok r, final) → RunDescends o f first r := by
  have hdefined := Scalar.Lawful.defined_of_finite hfinite
  rw [exec_setUp] at hset
  cases ha : s.accept f.n c with
  | error e => simp [ha] at hset
  | ok a =>
      rw [ha] at hset
      have hvalid := validate_of_accept ha
      have hcarries := carries_level ho hset hdefined
      refine ⟨fun s₁ hu => ?_, ?_⟩
      · have hs := hu.upholds hcarries (hcarries.launch hset)
        obtain ⟨st, hle, hstate⟩ := hs.state
        refine ⟨_, snapshot?_of_state hstate, hle, fun status s₂ hi => ?_⟩
        have hmade := hcarries.iterate s₁ hs
        rw [hi] at hmade
        obtain ⟨next, -, hnext⟩ := hmade.state
        exact ⟨_, snapshot?_of_state hnext,
          hs.step_descends ho hvalid hi (snapshot?_of_state hstate) (snapshot?_of_state hnext)⟩
      · rintro σ order w seen r final rfl h
        exact runDescends ho ha hset hdefined h

end

/-- Newton's method on the saddle, its first step and its run. -/
theorem newton_does_not_rise :
    ∃ first v v' status s₀ s₁ r final,
      exec (setUp saddle onSaddle) (new Offer.newton.method none) = (.ok first, s₀) ∧
      exec iterate s₀ = (.ok status, s₁) ∧ s₀.snapshot? = some v ∧ s₁.snapshot? = some v' ∧
      StepDescends .newton saddle s₀ s₁ status v v' ∧
      exec (solve saddle twoStepsOnSaddle fun _ _ (_ : Unit) => ())
        (new Offer.newton.method none, ()) = (.ok r, final) ∧ 0 < r.history.size ∧
      RunDescends .newton saddle first r := by
  obtain ⟨r, final, hr⟩ := saddle_run_returns (o := .newton) rfl (new Offer.newton.method none)
  have hmade := history_ne_of_real hr
  obtain ⟨a, first, s₀, turns, finish, last, ha, hl, -, hc, hrecounts, -⟩ :=
    chronicle_of_exec_solveWatched hr
  have hset : exec (setUp saddle onSaddle) (new Offer.newton.method none) = (.ok first, s₀) :=
    (exec_setUp_of_accept (accept_of_acceptOrder ha)).trans hl
  obtain ⟨t, ht⟩ : ∃ t, turns.head? = some t := by
    cases turns with
    | nil => simp [hrecounts.history] at hmade
    | cons t turns => exact ⟨t, rfl⟩
  have hstep := (hc.happen t (List.mem_of_head? ht)).step
  rw [hc.first t ht] at hstep
  obtain ⟨hsteps, hruns⟩ := never_loses_ground (o := .newton) nofun hset rfl
  obtain ⟨v, hv, -, hnext⟩ := hsteps s₀ .start
  obtain ⟨v', hv', hdescends⟩ := hnext _ _ hstep
  exact ⟨first, v, v', t.status, s₀, t.made, r, final, hset, hstep, hv, hv', hdescends, hr, hmade,
    hruns Unit twoStepsOnSaddle _ () r final rfl hr⟩

end Solver

end Minima
