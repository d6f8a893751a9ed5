import Minima.Proofs.FailedRuns
import Minima.Proofs.RunInvariants
import Minima.Proofs.StepBudgets

/-!
# Runs end

An objective halts if none of its functions is cut off; then no difference is. A run keeps within a
budget if its start, its steps and the questions to its criterion do, and if every turn that goes on
after the last that is allowed is ruled out: by the step, where the method counts its steps, and by
the criterion elsewhere. The horizon of the run plays no part in that: however far it is, the run is
not cut off by it.
-/

namespace Minima

open Dialogue Attempt

variable {R : Type} {n : Nat} {α : Type}

/-! ## Objectives that halt -/

/-- No function of the objective is cut off. -/
structure Objective.Halting (f : Objective R n) : Prop where
  value : ∀ x, (f.value x).Halts
  gradient : ∀ {g}, f.gradient? = some g → ∀ x, (g x).Halts
  hessian : ∀ {h}, f.hessian? = some h → ∀ x, (h x).Halts

theorem Failure.admits_uncut : Failure.Admits (Failure.Uncut : Failure R → Prop) where
  division := nofun
  power := nofun
  shape := nofun

theorem Objective.Halting.failsOnly {f : Objective R n} (hf : f.Halting) :
    f.FailsOnly Failure.Uncut :=
  ⟨hf.value, hf.gradient, hf.hessian⟩

/-! ## What is spent -/

variable [Scalar R]

namespace Ledger

/-- How often the objective was evaluated, in whatever way. -/
def total (l : Ledger R n) : Nat := l.values + l.gradients + l.hessians

/-- An answer costs one evaluation at most and is not cut off. -/
def Affordable (l : Ledger R n) (r : Attempt R α × Ledger R n) : Prop :=
  r.2.total ≤ l.total + 1 ∧ r.1.Halts

variable {f : Objective R n} (l : Ledger R n)

theorem total_value_le (x : Vector R n) : (value f x l).2.total ≤ l.total + 1 := by
  unfold value
  cases remembered? l.lastValue x with
  | some v => exact Nat.le_succ _
  | none => cases f.value x <;> simp only [total] <;> omega

theorem total_gradient_le (x : Vector R n) : (gradient f x l).2.total ≤ l.total + 1 := by
  unfold gradient
  cases remembered? l.lastGradient x with
  | some g => exact Nat.le_succ _
  | none => cases rawGradient f x <;> simp only [total] <;> omega

theorem total_hessian_le (x : Vector R n) : (hessian f x l).2.total ≤ l.total + 1 := by
  unfold hessian
  cases remembered? l.lastHessian x with
  | some h => exact Nat.le_succ _
  | none => cases rawHessian f x <;> simp only [total] <;> omega

theorem total_answer_le (q : Question R n) : (answer f q l).2.total ≤ l.total + 1 := by
  cases q with
  | value x => exact total_value_le l x
  | hessian x => exact total_hessian_le l x
  | gradient x =>
      have htotal := total_gradient_le (f := f) l x
      rcases hr : gradient f x l with ⟨e | g, l'⟩
      · rw [hr] at htotal
        simpa only [answer, hr] using htotal
      · rw [hr] at htotal
        simpa only [answer, hr] using htotal

theorem answer_affordable (hf : f.Halting) (q : Question R n) :
    l.Affordable (answer f q l) :=
  ⟨total_answer_le l q, answer_failsOnly hf.failsOnly Failure.admits_uncut l q⟩

theorem request_affordable (hf : f.Halting) (t : Tensor R) :
    l.Affordable (request f (gradient f) t l) := by
  unfold request point?
  cases t.toVector? n with
  | some x =>
      exact ⟨total_gradient_le l x, gradient_failsOnly hf.failsOnly Failure.admits_uncut l x⟩
  | none => exact ⟨Nat.le_succ _, halts_throw nofun⟩

end Ledger

theorem Dialogue.Within.run {f : Objective R n} (hf : f.Halting) {d : Consult R n α}
    {post : α → Prop} {k : Nat} (hd : d.Within post Failure.Uncut k) (l : Ledger R n) :
    (d.run f l).2.total ≤ l.total + k ∧ (∀ a, (d.run f l).1 = .ok a → post a) ∧
      (d.run f l).1.Halts :=
  hd.play (fun q l => Ledger.answer_affordable l hf q) l

theorem Dialogue.Within.gauged {f : Objective R n} (hf : f.Halting) {g : Gauge R α}
    {post : α → Prop} {k : Nat} (hg : g.Within post Failure.Uncut k) (l : Ledger R n) :
    (Solver.gauged f g l).2.total ≤ l.total + k ∧ (∀ a, (Solver.gauged f g l).1 = .ok a → post a) ∧
      (Solver.gauged f g l).1.Halts :=
  hg.play (fun point l => Ledger.request_affordable l hf (Tensor.ofArray point)) l

namespace Solver

variable {m : Method R} {σ : Type} {f : Subject R} {a : Accepted R f.n}
  {criterion? : Option (Criterion R)} {limit first each : Nat}

theorem classify_halts (options : Options R) (v : Snapshot R) (status : Status) :
    (classify options v status).Halts := by
  refine halts_ite (fun _ => halts_pure _) fun _ => ?_
  refine halts_ite (fun _ => halts_pure _) fun _ => ?_
  refine halts_bind (options.real_halts _) fun maxNorm => ?_
  refine halts_ite (fun _ => halts_pure _) fun _ => ?_
  refine halts_bind (options.real_halts _) fun maxValue => ?_
  exact halts_ite (fun _ => halts_pure _) fun _ => halts_pure _

/-- What an accepted run does in `limit` steps: its start takes `first` evaluations and a step `each`
at most, the criterion asks for a gradient when it is asked and for two more when it holds, and if
there is none the method counts its steps. -/
structure Thrifty (m : Method R) (f : Subject R) (a : Accepted R f.n)
    (criterion? : Option (Criterion R)) (limit first each : Nat) : Prop where
  halting : f.objective.Halting
  positive : 0 < limit
  start : (m.start (a.situation f.objective.name) (a.region.project a.start)).Halts first
  step : ∀ count (st : m.State f.n), (m.step (a.situation f.objective.name) count st).Within
    (fun r => criterion? = none → r.2 = .running → count + 1 < limit) Failure.Uncut each
  holds : ∀ c ∈ criterion?, ∀ v count,
    (c.holds v count).Within (fun held => held = false → count < limit) Failure.Uncut 1
  measure : ∀ c ∈ criterion?, ∀ v count, (c.measure v count).Halts 2

/-- The solver works on what was accepted, and has spent no more than `b` evaluations. -/
abbrev Spends (f : Subject R) (a : Accepted R f.n) (b : Nat) (s : Solver m) : Prop :=
  Upholds f a (fun l => l.total ≤ b) (fun _ => True) s

section

variable {s s' : Solver m} {b k : Nat}

theorem Spends.mono {b' : Nat} (h : Spends f a b s) (hb : b ≤ b') : Spends f a b' s := by
  obtain ⟨⟨ledger, hl, htask⟩, hstate⟩ := h
  exact ⟨⟨ledger, Nat.le_trans hl hb, htask⟩, hstate⟩

theorem Spends.le (h : Spends f a b s) {t : Task R} (ht : s.task? = some t) :
    t.ledger.total ≤ b := by
  obtain ⟨ledger, hl, htask⟩ := h.task
  obtain rfl : a.task ledger = t := by simpa [htask] using ht
  exact hl

/-- A step keeps to its share, and the last one that is allowed does not go on unless there is a
criterion to stop it. -/
theorem Thrifty.iterate (h : Thrifty m f a criterion? limit first each) (hs : Spends f a b s) :
    Spends f a (b + each) (exec iterate s).2 ∧ Attempt.Halts (exec iterate s).1 ∧
      (criterion? = none → (exec iterate s).1 = .ok .running → s.iterations + 1 < limit) := by
  obtain ⟨⟨ledger, hl, htask⟩, st, -, hstate⟩ := hs
  cases hrun : s.status.isTerminal with
  | true =>
      rw [exec_iterate_finished htask hstate hrun]
      exact ⟨⟨⟨ledger, Nat.le_trans hl (Nat.le_add_right b each), htask⟩, st, trivial, hstate⟩,
        halts_throw nofun, nofun⟩
  | false =>
      obtain ⟨hspent, hpost, hhalts⟩ := (h.step s.iterations st).run h.halting ledger
      rw [← attemptStep_task] at hspent hpost hhalts
      have hleft : (attemptStep (a.task ledger) s.iterations st).2.total ≤ b + each :=
        Nat.le_trans hspent (Nat.add_le_add_right hl each)
      obtain ⟨events, heq⟩ := exec_iterate_live htask hstate hrun
      rw [heq]
      cases hc : concluded (a.task ledger).options ⟨f.n, st⟩
          (attemptStep (a.task ledger) s.iterations st).1 with
      | error e =>
          refine ⟨⟨⟨_, hleft, rfl⟩, st, trivial, hstate⟩, ?_, nofun⟩
          rintro _ ⟨⟩
          obtain ⟨he, -⟩ | ⟨typeName, -, -, rfl⟩ | ⟨v, reported, he⟩ := concluded_eq_error hc
          · exact hhalts e he
          · exact nofun
          · exact classify_halts _ v reported e he
      | ok r =>
          obtain ⟨next, status⟩ := r
          obtain ⟨-, -, -, rfl, rfl⟩ | ⟨made, reported, hmade, rfl, hclass⟩ := concluded_eq_ok hc
          · exact ⟨⟨⟨_, hleft, rfl⟩, st, trivial, rfl⟩, nofun, nofun⟩
          · refine ⟨⟨⟨_, hleft, rfl⟩, made, trivial, rfl⟩, nofun, ?_⟩
            rintro hnone ⟨⟩
            exact hpost _ hmade hnone (classify_running hclass)

theorem Spends.gauge (hf : f.objective.Halting) (hs : Spends f a b s) {g : Gauge R α}
    {post : α → Prop} (hg : g.Within post Failure.Uncut k) :
    Spends f a (b + k) (exec (gauge g) s).2 ∧ (∀ x, (exec (gauge g) s).1 = .ok x → post x) ∧
      Attempt.Halts (exec (gauge g) s).1 := by
  obtain ⟨ledger, hl, htask⟩ := hs.task
  obtain ⟨hspent, hpost, hhalts⟩ := hg.gauged hf ledger
  rw [exec_gauge htask]
  refine ⟨⟨⟨_, ?_, rfl⟩, hs.state⟩, hpost, hhalts⟩
  show (gauged f.objective g ledger).2.total ≤ b + k
  omega

/-- A criterion that is asked and does not stop the run leaves a step to be made. -/
theorem Thrifty.stopIfHolds (h : Thrifty m f a criterion? limit first each) (hs : Spends f a b s)
    {c : Criterion R} (hc : c ∈ criterion?) :
    Spends f a (b + 3) (exec (stopIfHolds c) s).2 ∧ Attempt.Halts (exec (stopIfHolds c) s).1 ∧
      ((exec (stopIfHolds c) s).1 = .ok none → s.iterations < limit) := by
  obtain ⟨st, -, hstate⟩ := hs.state
  have hv : s.snapshot? = some (m.view st) := by
    rw [snapshot?, hstate]
    rfl
  obtain ⟨hasked, hheld, hhalts⟩ := hs.gauge h.halting (h.holds c hc (m.view st) s.iterations)
  rw [exec_stopIfHolds hv]
  rcases hr : exec (Solver.gauge (c.holds (m.view st) s.iterations)) s with ⟨e | held, s₁⟩
  · rw [hr] at hasked hhalts
    exact ⟨hasked.mono (by omega), fun _ h => hhalts _ (by cases h; rfl), fun h => by cases h⟩
  · rw [hr] at hasked hheld
    cases held with
    | false => exact ⟨hasked.mono (by omega), halts_pure _, fun _ => hheld false rfl rfl⟩
    | true =>
        obtain ⟨hmeasured, -, hhalts'⟩ :=
          hasked.gauge h.halting (h.measure c hc (m.view st) s.iterations)
        dsimp only
        rcases hr' : exec (Solver.gauge (c.measure (m.view st) s.iterations)) s₁ with ⟨e | x, s₂⟩
        · rw [hr'] at hmeasured hhalts'
          exact ⟨hmeasured, fun _ h => hhalts' _ (by cases h; rfl), fun h => by cases h⟩
        · rw [hr'] at hmeasured
          exact ⟨⟨hmeasured.task, hmeasured.state⟩, halts_pure _, fun h => by cases h⟩

/-- A criterion that stops the run changes its status, and what its objective has been asked. -/
theorem keeps_iterations_stopIfHolds (c : Criterion R) :
    Keeps (fun s => s.iterations) (stopIfHolds c : Engine m (Option R)) := by
  have hgauge {β : Type} (g : Gauge R β) : Keeps (fun s => s.iterations) (gauge g : Engine m β) :=
    (keeps_bare_gauge g).reading fun s => s.iterations
  refine keeps_bind (keeps_bare_snapshot.reading fun s => s.iterations) fun v => ?_
  refine keeps_get_bind fun s => keeps_bind (hgauge _) fun held => ?_
  cases held with
  | false => exact keeps_pure none
  | true =>
      refine keeps_bind (hgauge _) fun measured => ?_
      exact keeps_bind (keeps_modify fun s => rfl) fun _ => keeps_pure _

/-- A turn that the criterion does not end leaves a step to be made, or its step has ended the
run. -/
theorem Thrifty.advance (h : Thrifty m f a criterion? limit first each) (hs : Spends f a b s)
    (visit : Snapshot R → Nat → σ → σ) (seen : σ) :
    Spends f a (b + (each + 3)) (exec (advance criterion? (.onlooker visit)) (s, seen)).2.1 ∧
      Attempt.Halts (exec (advance criterion? (.onlooker visit)) (s, seen)).1 ∧
      ∀ x, (exec (advance criterion? (.onlooker visit)) (s, seen)).1 = .ok x →
        (exec (advance criterion? (.onlooker visit)) (s, seen)).2.1.iterations = s.iterations + 1 ∧
          (x.2 = none →
            (exec (advance criterion? (.onlooker visit)) (s, seen)).2.1.status = .running →
              s.iterations + 1 < limit) := by
  obtain ⟨hmade, hhalts, hgoes⟩ := h.iterate hs
  rcases hi : exec Solver.iterate s with ⟨e | status, made⟩
  · rw [hi] at hmade hhalts
    have hfails : exec (Solver.advance criterion? (.onlooker visit)) (s, seen) =
        (.error e, made, seen) := exec_advance_eq_error_iff.mpr (.step hi)
    rw [hfails]
    exact ⟨hmade.mono (by omega), fun _ h => hhalts _ (by cases h; rfl), fun _ h => by cases h⟩
  rw [hi] at hmade hgoes
  obtain ⟨-, hstatus, -, hcount, -⟩ := exec_iterate_ok hi
  obtain ⟨st, -, hstate⟩ := hmade.state
  have hv : made.snapshot? = some (m.view st) := by
    rw [snapshot?, hstate]
    rfl
  have hw : Turn.Happens (.onlooker visit) ⟨(s, seen), status, made, m.view st,
      (made, visit (m.view st) made.iterations seen)⟩ :=
    ⟨hi, hv, exec_watch_onlooker hi visit (m.view st) seen⟩
  cases hs : status.isTerminal with
  | true =>
      rw [exec_advance_unasked hw (.inl hs)]
      refine ⟨hmade.mono (by omega), halts_pure _, fun x _ => ⟨hcount, fun _ hrun => ?_⟩⟩
      rw [hstatus.symm.trans hrun] at hs
      cases hs
  | false =>
      cases criterion? with
      | none =>
          rw [exec_advance_unasked hw (.inr rfl)]
          have hrun : status = .running := Status.isTerminal_eq_false_iff.mp hs
          exact ⟨hmade.mono (by omega), halts_pure _,
            fun x _ => ⟨hcount, fun _ _ => hgoes rfl (by rw [hrun])⟩⟩
      | some c =>
          obtain ⟨hstopped, hstops, hleft⟩ := h.stopIfHolds hmade (c := c) rfl
          rw [exec_advance_asked hw hs]
          dsimp only
          have hsame : (exec (Solver.stopIfHolds c) made).2.iterations = made.iterations :=
            keeps_iterations_stopIfHolds c made
          rcases hr : exec (Solver.stopIfHolds c) made with ⟨e | measured?, s'⟩
          · rw [hr] at hstopped hstops
            exact ⟨hstopped.mono (by omega), fun _ h => hstops _ (by cases h; rfl), fun _ h => by cases h⟩
          · rw [hr] at hstopped hleft hsame
            refine ⟨hstopped.mono (by omega), halts_pure _, ?_⟩
            rintro _ ⟨⟩
            refine ⟨hsame.trans hcount, fun hnone _ => ?_⟩
            cases measured? with
            | none => exact hcount ▸ hleft rfl
            | some x => cases hnone

/-- The loop makes no step more than is allowed, however far its horizon is. -/
theorem Thrifty.loop (h : Thrifty m f a criterion? limit first each)
    (visit : Snapshot R → Nat → σ → σ) (history : Array (Snapshot R)) (seen : σ) (fuel : Nat)
    (hs : Spends f a b s)
    (hfuel : limit ≤ s.iterations + fuel) (hcount : s.iterations ≤ limit)
    (hrun : s.status = .running → s.iterations < limit) :
    Spends f a (b + (limit - s.iterations) * (each + 3))
        (exec (loop criterion? (.onlooker visit) fuel history) (s, seen)).2.1 ∧
      Attempt.Halts (exec (loop criterion? (.onlooker visit) fuel history) (s, seen)).1 ∧
      ∀ ending, (exec (loop criterion? (.onlooker visit) fuel history) (s, seen)).1 = .ok ending →
        (exec (loop criterion? (.onlooker visit) fuel history) (s, seen)).2.1.iterations ≤ limit := by
  induction fuel generalizing s b seen history with
  | zero =>
      cases hover : s.status.isTerminal with
      | true =>
          rw [exec_loop_ended seen hover]
          exact ⟨hs.mono (Nat.le_add_right _ _), nofun, fun _ _ => hcount⟩
      | false =>
          have hlt := hrun (Status.isTerminal_eq_false_iff.mp hover)
          omega
  | succ fuel ih =>
      cases hover : s.status.isTerminal with
      | true =>
          rw [exec_loop_ended seen hover]
          exact ⟨hs.mono (Nat.le_add_right _ _), nofun, fun _ _ => hcount⟩
      | false =>
          -- the share of this turn, and those of the turns that are left
          obtain ⟨left, hleft⟩ : ∃ left, limit - s.iterations = left + 1 :=
            ⟨limit - s.iterations - 1, by
              have hlt := hrun (Status.isTerminal_eq_false_iff.mp hover)
              omega⟩
          have hshare : b + (limit - s.iterations) * (each + 3) =
              b + (each + 3) + left * (each + 3) := by
            rw [hleft, Nat.succ_mul]
            omega
          obtain ⟨hspent, hhalts, hnext⟩ := h.advance hs visit seen
          rw [exec_loop_succ seen hover, hshare]
          rcases hr : exec (Solver.advance criterion? (.onlooker visit)) (s, seen) with
            ⟨e | ⟨v, _ | ⟨c, measured⟩⟩, next⟩
          · rw [hr] at hspent hhalts
            exact ⟨hspent.mono (by omega), fun _ h => hhalts _ (by cases h; rfl), nofun⟩
          · rw [hr] at hspent hnext
            obtain ⟨hmade, hgoes⟩ := hnext _ rfl
            change next.1.iterations = s.iterations + 1 at hmade
            have hrest := ih (history.push v) next.2 (s := next.1) hspent (by omega) (by omega)
              fun hrun' => by
                have hlt := hgoes rfl hrun'
                omega
            rw [show limit - next.1.iterations = left by omega] at hrest
            exact hrest
          · rw [hr] at hspent hnext
            obtain ⟨hmade, -⟩ := hnext _ rfl
            have hlast : next.1.iterations ≤ limit := by
              change next.1.iterations = s.iterations + 1 at hmade
              omega
            exact ⟨hspent.mono (by omega), nofun, fun _ _ => hlast⟩

/-- A start keeps to its share, whether it fails or not. -/
theorem Thrifty.launch (h : Thrifty m f a criterion? limit first each) (s : Solver m) :
    (∀ t, (exec (launch f a) s).2.task? = some t → t.ledger.total ≤ first) ∧
      Attempt.Halts (exec (launch f a) s).1 ∧
      ∀ v, (exec (launch f a) s).1 = .ok v → Spends f a first (exec (launch f a) s).2 := by
  obtain ⟨hspent, -, hhalts⟩ := h.start.run h.halting {}
  have htotal : (opening m f a).2.total ≤ first := by
    rw [show ({} : Ledger R f.n).total + first = first from Nat.zero_add first] at hspent
    exact hspent
  have hadopted {ledger : Ledger R f.n} (hl : ledger.total ≤ first) {t : Task R}
      (ht : some (a.task ledger) = some t) : t.ledger.total ≤ first := by
    cases ht
    exact hl
  obtain ⟨events, heq⟩ := exec_launch f a s
  rw [heq]
  rcases ho : opening m f a with ⟨e | st | typeName, ledger⟩
  · rw [ho] at htotal
    refine ⟨fun t => hadopted htotal, ?_, nofun⟩
    rintro _ ⟨⟩
    exact hhalts e (congrArg Prod.fst ho)
  · rw [ho] at htotal
    exact ⟨fun t => hadopted htotal, nofun, fun _ _ => ⟨⟨ledger, htotal, rfl⟩, st, trivial, rfl⟩⟩
  · rw [ho] at htotal
    exact ⟨fun t => hadopted htotal, halts_throw nofun, nofun⟩

/-! ## Runs -/

/-- The run was not cut off, and took `limit` steps and `budget` evaluations at most: what it returns
says so, and no more is spent if it fails. -/
structure KeepsTo (limit budget : Nat) (p : Attempt R (Results R) × Solver m × σ) : Prop where
  halts : Attempt.Halts p.1
  steps : ∀ r, p.1 = .ok r → r.iterations ≤ limit
  evaluations : ∀ r, p.1 = .ok r →
    r.evaluations.values + r.evaluations.gradients + r.evaluations.hessians ≤ budget
  spent : ∀ t, p.2.1.task? = some t → t.ledger.total ≤ budget

theorem keepsTo_error {budget : Nat} {e : Failure R} {left : Solver m × σ} (he : e.Uncut)
    (hspent : ∀ t, left.1.task? = some t → t.ledger.total ≤ budget) :
    KeepsTo limit budget (.error e, left) where
  halts := by
    rintro _ ⟨⟩
    exact he
  steps r hr := by cases hr
  evaluations r hr := by cases hr
  spent := hspent

/-- A run keeps to its limit and its budget, wherever its horizon is beyond the limit. -/
theorem Thrifty.runAccepted {order : Order R}
    (h : Thrifty m f a (asked? m order) limit first each) (hlong : limit ≤ order.horizon)
    (visit : Snapshot R → Nat → σ → σ) (s : Solver m) (seen : σ) :
    KeepsTo limit (first + limit * (each + 3))
      (exec (runAccepted f a order (.onlooker visit)) (s, seen)) := by
  obtain ⟨hstart, hhalts, hspends⟩ := h.launch s
  rw [Solver.runAccepted, exec_bind, exec_unwatched]
  rcases hl : exec (Solver.launch f a) s with ⟨e | v, s₀⟩
  · rw [hl] at hstart hhalts
    exact keepsTo_error (hhalts e rfl) fun t ht =>
      Nat.le_trans (hstart t ht) (Nat.le_add_right _ _)
  rw [hl] at hspends
  obtain ⟨-, hcount, -⟩ := exec_launch_ok hl
  obtain ⟨hspent, hhalts, hsteps⟩ := h.loop visit #[] seen order.horizon (s := s₀) (hspends v rfl)
    (by omega) (by omega) fun _ => hcount ▸ h.positive
  rw [hcount, Nat.sub_zero] at hspent
  dsimp only
  rw [exec_bind]
  rcases hloop : exec (Solver.loop (asked? m order) (.onlooker visit) order.horizon #[]) (s₀, seen)
    with ⟨e | ending, last⟩
  · rw [hloop] at hspent hhalts
    exact keepsTo_error (hhalts e rfl) fun t ht => hspent.le ht
  rw [hloop] at hspent hsteps
  obtain ⟨⟨ledger, hledger, htask⟩, st, -, hstate⟩ := hspent
  have hv : last.1.snapshot? = some (m.view st) := by
    rw [snapshot?, hstate]
    rfl
  dsimp only
  rw [exec_unwatched, exec_results htask hv]
  refine ⟨halts_pure _, ?_, ?_, ?_⟩
  · rintro _ ⟨⟩
    exact hsteps ending rfl
  · rintro _ ⟨⟩
    exact hledger
  · intro t ht
    rw [show last.1.task? = some t from ht] at htask
    cases htask
    exact hledger

/-- A run whose configuration is checked without being cut off keeps to its limit and its budget if
what was accepted does. -/
theorem solve_keepsTo {order : Order R} {s : Solver m} (hfresh : s.task? = none)
    (hchecked : Attempt.Halts (s.acceptOrder f.n order))
    (h : ∀ a, s.acceptOrder f.n order = .ok a → Thrifty m f a (asked? m order) limit first each)
    (hlong : limit ≤ order.horizon) (visit : Snapshot R → Nat → σ → σ) (seen : σ) :
    KeepsTo limit (first + limit * (each + 3)) (exec (solve f order visit) (s, seen)) := by
  rw [solve, exec_solveWatched]
  cases ha : s.acceptOrder f.n order with
  | error e =>
      refine keepsTo_error (hchecked e ha) fun t ht => ?_
      rw [show s.task? = some t from ht] at hfresh
      cases hfresh
  | ok a => exact (h a ha).runAccepted hlong visit s seen

end

end Solver

end Minima
