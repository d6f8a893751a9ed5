import Minima.Proofs.FirstTrials
import Minima.Proofs.Memory
import Minima.Proofs.RunInvariants

/-!
# Runs that are read off

Where equal points have equal answers and what is remembered is true, the engine goes as the method
reads the objective: the state of a set up is what the start reads, and the state after a step is
what the step reads.
-/

namespace Minima

section

variable {R : Type} [Scalar R] {n : Nat} {f : Objective R n} {l : Ledger R n} {α : Type}

def Ledger.through (f : Objective R n) (qs : List (Question R n)) (l : Ledger R n) : Ledger R n :=
  qs.foldl (fun l q => (Ledger.answer f q l).2) l

theorem Ledger.through_truthful (hf : f.RespectsEquality) (hl : l.Truthful f)
    (qs : List (Question R n)) : (l.through f qs).Truthful f := by
  induction qs generalizing l with
  | nil => exact hl
  | cons q qs ih => exact ih (Ledger.answer_truthful hf hl q).2

/-- With a truthful ledger a computation goes as it is read, and its questions are put to the
ledger. -/
theorem Consult.run_of_follows {d : Consult R n α} {qs : List (Question R n)} {x : α}
    (hf : f.RespectsEquality) (hl : l.Truthful f) (hd : d.Follows (Ledger.plainAnswer f) qs x) :
    d.run f l = (.ok x, l.through f qs) := by
  induction d generalizing l qs with
  | done y =>
      obtain ⟨⟨⟩, rfl⟩ := hd
      rfl
  | fail e => cases hd.read
  | ask q next ih =>
      obtain ⟨r, rest, hr, rfl, hnext⟩ := hd.of_ask
      obtain ⟨hanswer, hleft⟩ := Ledger.answer_truthful hf hl q
      have hasked : Ledger.answer f q l = (.ok r, (Ledger.answer f q l).2) :=
        Prod.ext (hanswer.trans hr) rfl
      show Dialogue.play _ _ _ = _
      rw [Dialogue.play, hasked]
      exact ih r hleft hnext

end

namespace Solver

variable {R : Type} [Scalar R] {m : Method R} {σ α : Type} {f : Subject R} {a : Accepted R f.n}
  {s : Solver m} {st next : m.State f.n} {reported status : Status}

/-- The solver works on what was accepted of `f`, remembers what is true and stands in `st`. -/
abbrev StandsAt (f : Subject R) (a : Accepted R f.n) (st : m.State f.n) (s : Solver m) : Prop :=
  Upholds f a (Ledger.Truthful f.objective) (fun u => u = st) s

theorem StandsAt.state_eq (hs : StandsAt f a st s) : s.state? = some ⟨f.n, st⟩ := by
  obtain ⟨_, rfl, hstate⟩ := hs.state
  exact hstate

theorem StandsAt.snapshot (hs : StandsAt f a st s) : s.snapshot? = some (m.view st) :=
  snapshot?_of_state hs.state_eq

abbrev StandsWith (f : Subject R) (a : Accepted R f.n) (l : Ledger R f.n) (st : m.State f.n)
    (s : Solver m) : Prop :=
  Upholds f a (fun l' => l' = l) (fun u => u = st) s

theorem StandsWith.standsAt {l : Ledger R f.n} (hs : StandsWith f a l st s)
    (hl : l.Truthful f.objective) : StandsAt f a st s := by
  obtain ⟨⟨l', rfl, htask⟩, hstate⟩ := hs
  exact ⟨⟨l', hl, htask⟩, hstate⟩

theorem StandsAt.exists_with (hs : StandsAt f a st s) :
    ∃ l : Ledger R f.n, l.Truthful f.objective ∧ StandsWith f a l st s := by
  obtain ⟨⟨l, hl, htask⟩, hstate⟩ := hs
  exact ⟨l, hl, ⟨l, rfl, htask⟩, hstate⟩

section

variable {l : Ledger R f.n} {qs : List (Question R f.n)}

theorem exec_launch_of_follows (hf : f.objective.RespectsEquality)
    (hstart : (m.start (a.situation f.objective.name) (a.region.project a.start)).Follows
      (Ledger.plainAnswer f.objective) qs (.state st)) (s : Solver m) :
    ∃ s₀, exec (launch f a) s = (.ok (m.view st), s₀) ∧
      StandsWith f a (Ledger.through f.objective qs {}) st s₀ := by
  obtain ⟨events, heq⟩ := exec_launch f a s
  have hopening : opening m f a = (.ok (.state st), Ledger.through f.objective qs {}) :=
    Consult.run_of_follows hf (Ledger.truthful_empty f.objective) hstart
  rw [hopening] at heq
  exact ⟨_, heq, ⟨_, rfl, rfl⟩, st, rfl, rfl⟩

theorem exec_iterate_of_follows (hf : f.objective.RespectsEquality) (hl : l.Truthful f.objective)
    (hs : StandsWith f a l st s) (hrun : s.status = .running)
    (hstep : (m.step (a.situation f.objective.name) s.iterations st).Follows
      (Ledger.plainAnswer f.objective) qs (.state next, reported))
    (hclass : classify a.options (m.view next) reported = .ok status) :
    ∃ s', exec iterate s = (.ok status, s') ∧
      StandsWith f a (l.through f.objective qs) next s' := by
  obtain ⟨⟨l', hl', htask⟩, st', hst', hstate⟩ := hs
  subst l' st'
  have hattempt : attemptStep (a.task l) s.iterations st =
      (.ok (.state next, reported), l.through f.objective qs) :=
    (attemptStep_task l s.iterations st).trans (Consult.run_of_follows hf hl hstep)
  have hconcluded : concluded (a.task l).options ⟨f.n, st⟩
      (attemptStep (a.task l) s.iterations st).1 = .ok (⟨f.n, next⟩, status) := by
    rw [hattempt]
    show (classify a.options (m.view next) reported).map _ = _
    rw [hclass]
    rfl
  obtain ⟨events, heq⟩ :=
    exec_iterate_live htask hstate (Status.isTerminal_eq_false_iff.mpr hrun)
  rw [hconcluded, hattempt] at heq
  exact ⟨_, heq, ⟨_, rfl, rfl⟩, next, rfl, rfl⟩

end

theorem exec_launch_of_read (hf : f.objective.RespectsEquality)
    (hread : (m.start (a.situation f.objective.name) (a.region.project a.start)).read
      (Ledger.plainAnswer f.objective) = .ok (.state st)) (s : Solver m) :
    ∃ s₀, exec (launch f a) s = (.ok (m.view st), s₀) ∧ StandsAt f a st s₀ := by
  obtain ⟨s₀, hl, hs⟩ := exec_launch_of_follows hf ⟨hread, rfl⟩ s
  exact ⟨s₀, hl, hs.standsAt (Ledger.through_truthful hf (Ledger.truthful_empty _) _)⟩

theorem exec_iterate_of_read (hf : f.objective.RespectsEquality) (hs : StandsAt f a st s)
    (hrun : s.status = .running)
    (hread : (m.step (a.situation f.objective.name) s.iterations st).read
      (Ledger.plainAnswer f.objective) = .ok (.state next, reported))
    (hclass : classify a.options (m.view next) reported = .ok status) :
    ∃ s', exec iterate s = (.ok status, s') ∧ StandsAt f a next s' := by
  obtain ⟨l, hl, hwith⟩ := hs.exists_with
  obtain ⟨s', hi, hnext⟩ := exec_iterate_of_follows hf hl hwith hrun ⟨hread, rfl⟩ hclass
  exact ⟨s', hi, hnext.standsAt (Ledger.through_truthful hf hl _)⟩

/-- What a gauge is answered without any memory. -/
def plainGauge {n : Nat} (f : Objective R n) (point : Array R) : Attempt R (Array R) := do
  Ledger.rawGradient f (← Ledger.point? f (Tensor.ofArray point))

theorem gauged_truthful {n : Nat} {f : Objective R n} (hf : f.RespectsEquality) (g : Gauge R α)
    {l : Ledger R n} (hl : l.Truthful f) :
    (gauged f g l).1 = g.read (plainGauge f) ∧ (gauged f g l).2.Truthful f := by
  unfold gauged
  induction g generalizing l with
  | done x => exact ⟨rfl, hl⟩
  | fail e => exact ⟨rfl, hl⟩
  | ask point next ih =>
      simp only [Dialogue.play, Dialogue.read, plainGauge, Ledger.request]
      cases hp : Ledger.point? f (Tensor.ofArray point) with
      | error e => exact ⟨rfl, hl⟩
      | ok x =>
          obtain ⟨hanswer, hleft⟩ := Ledger.gradient_truthful hf hl x
          rw [Attempt.ok_bind, ← hanswer]
          dsimp only
          rcases hr : Ledger.gradient f x l with ⟨e | y, l'⟩
          · rw [hr] at hleft
            exact ⟨rfl, hleft⟩
          · rw [hr] at hleft
            exact ih y hleft

theorem exec_gauge_of_read (hf : f.objective.RespectsEquality) (hs : StandsAt f a st s)
    (g : Gauge R α) :
    ∃ s', exec (gauge g) s = (g.read (plainGauge f.objective), s') ∧ StandsAt f a st s' ∧
      s'.bare = s.bare := by
  obtain ⟨ledger, htruthful, htask⟩ := hs.task
  obtain ⟨hanswer, hleft⟩ := gauged_truthful hf g htruthful
  have hbare := keeps_bare_gauge g s
  have heq := exec_gauge htask g
  rw [heq] at hbare
  exact ⟨_, heq.trans (Prod.ext hanswer rfl), hs.with_ledger hleft, hbare⟩

section

variable {n : Nat} {f : Objective R n} {v : Snapshot R} {x : Vector R n} {g : Array R} {k : Nat}

theorem read_gradientLength (hx : v.point = x.toArray) (hg : Ledger.rawGradient f x = .ok g) :
    (Criterion.gradientLength v.point).read (plainGauge f) = .ok (Linear.norm g.toVector) := by
  have hpoint : Ledger.point? f (Tensor.ofArray x.toArray) = .ok x := by
    simp [Ledger.point?, Tensor.toVector?, Tensor.ofArray]
    rfl
  have hanswer : plainGauge f v.point = .ok g := by
    rw [plainGauge, hx, hpoint, Attempt.ok_bind, hg]
  show (Dialogue.ask v.point _).read (plainGauge f) = _
  rw [Dialogue.read, hanswer]
  rfl

/-- The criterion compares the length of the gradient at the point. -/
theorem read_holds_gradientNorm (hx : v.point = x.toArray) (hg : Ledger.rawGradient f x = .ok g)
    (t : R) :
    ((Criterion.gradientNorm t).holds v k).read (plainGauge f) =
      .ok (decide (Linear.norm g.toVector < t)) := by
  rw [Criterion.holds]
  exact Dialogue.read_bind_of_ok (read_gradientLength hx hg)

theorem read_measure_gradientNorm (hx : v.point = x.toArray) (hg : Ledger.rawGradient f x = .ok g)
    (t : R) :
    ((Criterion.gradientNorm t).measure v k).read (plainGauge f) = .ok (Linear.norm g.toVector) := by
  rw [Criterion.measure]
  exact read_gradientLength hx hg

end

/-! ## Runs -/

/-- The step from `st` with `k` steps before it is read as one to `next` with a status. -/
def ReadsStep (f : Subject R) (a : Accepted R f.n) (k : Nat) (st next : m.State f.n)
    (status : Status) : Prop :=
  ∃ reported, (m.step (a.situation f.objective.name) k st).read (Ledger.plainAnswer f.objective) =
      .ok (.state next, reported) ∧ classify a.options (m.view next) reported = .ok status

/-- The steps along `states` are read to go on without the criterion being fulfilled, up to the one
after `last` others, which ends the run. -/
structure ReadsRun (f : Subject R) (a : Accepted R f.n) (criterion? : Option (Criterion R))
    (states : Nat → m.State f.n) (last : Nat) (status : Status) : Prop where
  goes : ∀ k < last, ReadsStep f a k (states k) (states (k + 1)) .running
  unfulfilled : ∀ k < last, ∀ c ∈ criterion?,
    (c.holds (m.view (states (k + 1))) (k + 1)).read (plainGauge f.objective) = .ok false
  ends : ReadsStep f a last (states last) (states (last + 1)) status
  terminal : status.isTerminal = true

section

variable (visit : Snapshot R → Nat → σ → σ) (seen : σ)

/-- A step that is read happens so before an onlooker. -/
theorem turn_of_readsStep (hf : f.objective.RespectsEquality) (hs : StandsAt f a st s)
    (hrun : s.status = .running) (h : ReadsStep f a s.iterations st next status) :
    ∃ t : Turn m σ, t.before = (s, seen) ∧ t.Happens (.onlooker visit) ∧ t.status = status ∧
      t.view = m.view next ∧ t.after.1 = t.made ∧ StandsAt f a next t.made ∧
      t.made.status = status ∧ t.made.iterations = s.iterations + 1 := by
  obtain ⟨reported, hread, hclass⟩ := h
  obtain ⟨made, hi, hnext⟩ := exec_iterate_of_read hf hs hrun hread hclass
  obtain ⟨-, hstatus, -, hcount, -⟩ := exec_iterate_ok hi
  exact ⟨⟨(s, seen), status, made, m.view next, made, visit (m.view next) made.iterations seen⟩, rfl,
    ⟨hi, hnext.snapshot, exec_watch_onlooker hi visit _ seen⟩, rfl, rfl, rfl, hnext, hstatus, hcount⟩

/-- It leads on if it goes on and the criterion is not fulfilled. -/
theorem Turn.leadsTo_of_reads {criterion? : Option (Criterion R)} {t : Turn m σ}
    (hf : f.objective.RespectsEquality) (hstatus : t.status = .running)
    (hlooked : t.after.1 = t.made) (hs : StandsAt f a st t.made)
    (hc : ∀ c ∈ criterion?,
      (c.holds t.view t.made.iterations).read (plainGauge f.objective) = .ok false) :
    ∃ s', t.LeadsTo criterion? (s', t.after.2) ∧ StandsAt f a st s' ∧ s'.bare = t.made.bare := by
  cases criterion? with
  | none => exact ⟨t.after.1, ⟨hstatus, rfl, rfl⟩, hlooked ▸ hs, by rw [hlooked]⟩
  | some c =>
      obtain ⟨s', hgauge, hs', hbare⟩ := exec_gauge_of_read hf hs (c.holds t.view t.made.iterations)
      rw [hc c rfl] at hgauge
      exact ⟨s', ⟨hstatus, rfl, hlooked ▸ hgauge⟩, hs', hbare⟩

/-- From any of its states on, the steps that are read are the turns of a run. -/
theorem chronicle_of_readsRun {criterion? : Option (Criterion R)} {states : Nat → m.State f.n}
    {last : Nat} (hf : f.objective.RespectsEquality)
    (h : ReadsRun f a criterion? states last status) {rest : Nat} (hrest : s.iterations + rest = last)
    (hs : StandsAt f a (states s.iterations) s) (hrun : s.status = .running) :
    ∃ turns final, Chronicle criterion? (.onlooker visit) (s, seen) turns
        ⟨status, .method status, none⟩ final ∧
      turns.map Turn.view =
        (List.range' (s.iterations + 1) (rest + 1)).map fun k => m.view (states k) := by
  -- on the number of steps that go on before the last one
  induction rest generalizing s seen with
  | zero =>
      obtain rfl : s.iterations = last := by omega
      obtain ⟨t, hbefore, ht, hstatus, hview, -⟩ :=
        turn_of_readsStep visit seen hf hs hrun h.ends
      subst hstatus
      exact ⟨[t], t.after, chronicle_singleton.mpr ⟨ht, hbefore, .method h.terminal⟩, by simp [hview]⟩
  | succ rest ih =>
      have hk : s.iterations < last := by omega
      obtain ⟨t, hbefore, ht, hstatus, hview, hlooked, hnext, hgoes, hcount⟩ :=
        turn_of_readsStep visit seen hf hs hrun (h.goes _ hk)
      have hc : ∀ c ∈ criterion?,
          (c.holds t.view t.made.iterations).read (plainGauge f.objective) = .ok false := by
        rw [hview, hcount]
        exact h.unfulfilled _ hk
      obtain ⟨s', hlead, hs', hbare⟩ := Turn.leadsTo_of_reads hf hstatus hlooked hnext hc
      have hcount' : s'.iterations = s.iterations + 1 := (iterations_of_bare hbare).trans hcount
      obtain ⟨turns, final, hchronicle, hviews⟩ := ih t.after.2
        (by omega : s'.iterations + rest = last) (hcount' ▸ hs') ((status_of_bare hbare).trans hgoes)
      refine ⟨t :: turns, final, hbefore ▸ hchronicle.cons ht hlead, ?_⟩
      rw [List.map_cons, hviews, hview, hcount', List.range'_succ (n := rest + 1), List.map_cons]

/-- A run whose steps are read one after the other, until one of them ends it, returns that. -/
theorem exec_solve_of_reads (hf : f.objective.RespectsEquality) {order : Order R}
    (ha : s.acceptOrder f.n order = .ok a) {states : Nat → m.State f.n} {last : Nat}
    (hhorizon : last < order.horizon)
    (hstart : (m.start (a.situation f.objective.name) (a.region.project a.start)).read
      (Ledger.plainAnswer f.objective) = .ok (.state (states 0)))
    (hfinite : (m.view (states 0)).isFinite = true)
    (h : ReadsRun f a (asked? m order) states last status)
    (visit : Snapshot R → Nat → σ → σ) (seen : σ) :
    ∃ s₀ r final, exec (launch f a) s = (.ok (m.view (states 0)), s₀) ∧
      exec (solve f order visit) (s, seen) = (.ok r, final) ∧ r.status = status ∧
      r.iterations = last + 1 ∧ r.final = m.view (states (last + 1)) ∧
      r.history.toList = (List.range' 1 (last + 1)).map fun k => m.view (states k) := by
  obtain ⟨s₀, hl, hs⟩ := exec_launch_of_read hf hstart s
  obtain ⟨-, hcount, -, hstatus, -⟩ := exec_launch_ok hl
  obtain ⟨turns, end', hc, hviews⟩ := chronicle_of_readsRun visit seen hf h
    (by omega : s₀.iterations + last = last) (hcount ▸ hs) (hstatus.trans (if_pos hfinite))
  rw [hcount] at hviews
  have hlength : turns.length = last + 1 := by simpa using congrArg List.length hviews
  obtain ⟨r, final, hr, hrun⟩ := exec_solveWatched_returns ha hl (by omega) hc
  refine ⟨s₀, r, final, hl, hrun, hr.status, hr.iterations.trans hlength, ?_, ?_⟩
  · rw [hr.final, ← List.getLast?_map, hviews]
    simp [List.getLast?_range']
  · simp [hr.history, hviews]

/-- A run whose first step ends it returns that. -/
theorem exec_solve_of_first_read (hf : f.objective.RespectsEquality) {order : Order R}
    (ha : s.acceptOrder f.n order = .ok a) (hhorizon : 0 < order.horizon)
    (hstart : (m.start (a.situation f.objective.name) (a.region.project a.start)).read
      (Ledger.plainAnswer f.objective) = .ok (.state st))
    (hfinite : (m.view st).isFinite = true)
    (hstep : (m.step (a.situation f.objective.name) 0 st).read
      (Ledger.plainAnswer f.objective) = .ok (.state next, reported))
    (hclass : classify a.options (m.view next) reported = .ok status)
    (hend : status.isTerminal = true) (visit : Snapshot R → Nat → σ → σ) (seen : σ) :
    ∃ s₀ r final, exec (launch f a) s = (.ok (m.view st), s₀) ∧
      exec (solve f order visit) (s, seen) = (.ok r, final) ∧ r.status = status ∧
      r.iterations = 1 ∧ r.final = m.view next ∧ r.history = #[m.view next] := by
  have hreads : ReadsRun f a (asked? m order) (fun k => if k = 0 then st else next) 0 status :=
    ⟨nofun, nofun, ⟨reported, hstep, hclass⟩, hend⟩
  obtain ⟨s₀, r, final, hl, hrun, hstatus, hcount, hfinal, hhistory⟩ :=
    exec_solve_of_reads hf ha hhorizon hstart hfinite hreads visit seen
  exact ⟨s₀, r, final, hl, hrun, hstatus, hcount, hfinal, Array.toList_inj.mp hhistory⟩

end

/-- A run that its criterion ends after the first step returns that. -/
theorem exec_solve_of_stop {order : Order R} {c : Criterion R} {s₀ s₁ s₂ s₃ : Solver m}
    {first v : Snapshot R} {measured : R} (hasked : asked? m order = some c)
    (ha : s.acceptOrder f.n order = .ok a) (hhorizon : 0 < order.horizon)
    (hl : exec (launch f a) s = (.ok first, s₀)) (hi : exec iterate s₀ = (.ok .running, s₁))
    (hv : s₁.snapshot? = some v) (hholds : exec (gauge (c.holds v 1)) s₁ = (.ok true, s₂))
    (hmeasure : exec (gauge (c.measure v 1)) s₂ = (.ok measured, s₃))
    (visit : Snapshot R → Nat → σ → σ) (seen : σ) :
    ∃ r final, exec (solve f order visit) (s, seen) = (.ok r, final) ∧ r.status = .success ∧
      r.cause = .criterion c ∧ r.measured? = some measured ∧ r.iterations = 1 ∧ r.final = v ∧
      ∀ t, s₃.task? = some t →
        r.evaluations = ⟨t.ledger.values, t.ledger.gradients, t.ledger.hessians⟩ := by
  obtain ⟨-, hcount, -⟩ := exec_launch_ok hl
  obtain ⟨-, -, -, hone, -⟩ := exec_iterate_ok hi
  rw [hcount] at hone
  have hone : s₁.iterations = 1 := hone
  rw [← hone] at hholds hmeasure
  have hw := exec_watch_onlooker hi visit v seen
  have hstop : Turn.StoppedBy ⟨(s₀, seen), .running, s₁, v, (s₁, visit v s₁.iterations seen)⟩ c
      measured ({ s₃ with status := .success }, visit v s₁.iterations seen) :=
    ⟨rfl, rfl, s₂, s₃, hholds, hmeasure, rfl⟩
  have hc : Chronicle (asked? m order) (.onlooker visit) (s₀, seen)
      [⟨(s₀, seen), .running, s₁, v, _⟩] ⟨.success, .criterion c, some measured⟩ _ :=
    chronicle_singleton.mpr ⟨⟨hi, hv, hw⟩, rfl, .criterion hasked hstop⟩
  have hlength := Nat.succ_le_of_lt hhorizon
  obtain ⟨r, final, hr, hrun⟩ := exec_solveWatched_returns ha hl (by simpa using hlength) hc
  refine ⟨r, final, hrun, hr.status, hr.cause, hr.measured, hr.iterations, hr.final, fun t ht => ?_⟩
  obtain ⟨t', ht', hevaluations⟩ := hr.evaluations
  obtain rfl : t' = t := Option.some.inj (ht'.symm.trans ht)
  exact hevaluations

/-- So does one whose step and whose criterion are read. -/
theorem exec_solve_of_first_stop (hf : f.objective.RespectsEquality) {order : Order R}
    {c : Criterion R} (hasked : asked? m order = some c) (ha : s.acceptOrder f.n order = .ok a)
    (hhorizon : 0 < order.horizon)
    (hstart : (m.start (a.situation f.objective.name) (a.region.project a.start)).read
      (Ledger.plainAnswer f.objective) = .ok (.state st))
    (hfinite : (m.view st).isFinite = true)
    (hstep : (m.step (a.situation f.objective.name) 0 st).read
      (Ledger.plainAnswer f.objective) = .ok (.state next, reported))
    (hclass : classify a.options (m.view next) reported = .ok .running) {measured : R}
    (hholds : (c.holds (m.view next) 1).read (plainGauge f.objective) = .ok true)
    (hmeasure : (c.measure (m.view next) 1).read (plainGauge f.objective) = .ok measured)
    (visit : Snapshot R → Nat → σ → σ) (seen : σ) :
    ∃ s₀ r final, exec (launch f a) s = (.ok (m.view st), s₀) ∧
      exec (solve f order visit) (s, seen) = (.ok r, final) ∧ r.status = .success ∧
      r.cause = .criterion c ∧ r.iterations = 1 ∧ r.final = m.view next := by
  obtain ⟨s₀, hl, hs⟩ := exec_launch_of_read hf hstart s
  obtain ⟨-, hcount, -, hstatus, -⟩ := exec_launch_ok hl
  rw [← hcount] at hstep
  obtain ⟨s₁, hi, hnext⟩ :=
    exec_iterate_of_read hf hs (hstatus.trans (if_pos hfinite)) hstep hclass
  obtain ⟨s₂, hgauge, hstands, -⟩ := exec_gauge_of_read hf hnext (c.holds (m.view next) 1)
  obtain ⟨s₃, hgauge', -⟩ := exec_gauge_of_read hf hstands (c.measure (m.view next) 1)
  rw [hholds] at hgauge
  rw [hmeasure] at hgauge'
  obtain ⟨r, final, hrun, hsuccess, hcause, -, hone, hfinal, -⟩ :=
    exec_solve_of_stop hasked ha hhorizon hl hi hnext.snapshot hgauge hgauge' visit seen
  exact ⟨s₀, r, final, hl, hrun, hsuccess, hcause, hone, hfinal⟩

end Solver

end Minima
