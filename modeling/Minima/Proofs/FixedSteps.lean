import Minima.Scalar.Real
import Minima.Proofs.MonotoneRuns

/-!
# Fixed steps may end above

Gradient descent with a fixed step goes on only where the value has fallen, so a run comes down with
every step but the last. The last step is stored whatever it leads to: it is judged by the gradient
first, and a short gradient is a success also on a hump. So the run ends at the least of the values
it has shown exactly if its last step did not go up.
-/

namespace Minima

open Dialogue

namespace GradientDescent

variable {R : Type} [Scalar R] {n : Nat} {s : Situation R n}

theorem judge_running {options : Options R} {count : Nat} {old new : Iterate R n}
    (h : judge options count old new = .ok .running) (hfinite : Scalar.isFinite new.value = true) :
    new.value < old.value := by
  by_contra hnot
  obtain ⟨tol, -, h⟩ := Attempt.bind_eq_ok.mp h
  by_cases hshort : Linear.norm new.gradient < tol
  · rw [if_pos hshort] at h
    cases h
  · rw [if_neg hshort, if_pos ⟨hnot, hfinite⟩] at h
    cases h

/-- A step that goes on to a finite value has come down. -/
theorem step_falls (count : Nat) (it : Iterate R n) :
    (step s count it).Always fun r =>
      r.2 = .running → Scalar.isFinite r.1.value = true → r.1.value < it.value := by
  refine yields_lift_bind fun h _ => ?_
  refine yields_question_bind trivial fun value _ => yields_question_bind trivial fun gradient _ => ?_
  refine yields_lift_bind fun status hstatus => yields_pure ?_
  rintro rfl hfinite
  exact judge_running hstatus hfinite

end GradientDescent

namespace Solver

section

variable {R : Type} [Scalar R] {f : Subject R} {a : Accepted R f.n}
  {s s' : Solver (GradientDescent.method : Method R)}

/-- After a step with which the run goes on, a smaller value is shown. -/
theorem Upholds.falls (hs : Upholds f a (fun _ => True) (fun _ => True) s)
    (h : exec iterate s = (.ok .running, s')) {v v' : Snapshot R} (hv : s.snapshot? = some v)
    (hv' : s'.snapshot? = some v') : v.Falls v' := by
  obtain ⟨ledger, st, -, -, hstate, -, hcases⟩ := hs.of_iterate h
  obtain rfl := Option.some.inj ((snapshot?_of_state hstate).symm.trans hv)
  obtain ⟨-, -, -, hrun⟩ | ⟨next, reported, hmade, hnext, hclass⟩ := hcases
  · cases hrun
  · obtain rfl := Option.some.inj ((snapshot?_of_state hnext).symm.trans hv')
    have hreported := classify_running hclass
    have hfinite := (classify_ok hclass).1 nofun
    rw [attemptStep_task] at hmade
    have hstep : ((GradientDescent.method : Method R).step (a.situation f.objective.name)
        s.iterations st).Always fun r => ∀ it, r.1 = .state it → r.2 = .running →
          Scalar.isFinite it.value = true → it.value < Iterate.value st :=
      yields_bind (GradientDescent.step_falls s.iterations st) fun r hr => yields_pure (by
        rintro _ ⟨⟩
        exact hr)
    refine hstep.of_run hmade next rfl hreported ?_
    simp only [Snapshot.isFinite, Bool.and_eq_true] at hfinite
    exact hfinite.1

/-- A run of gradient descent that ends in success or without progress has come down with every step
but the last, and it ends at the least of the values it has shown exactly if the last step did not go
up. -/
theorem fixed_steps_end_least_iff [Scalar.Ordered R] {σ : Type} {order : Order R} {w : Watcher R σ}
    {seen : σ} {r : Results R} {final : Solver (GradientDescent.method : Method R) × σ}
    (h : exec (solveWatched f order w) (s, seen) = (.ok r, final))
    (hend : r.status = .success ∨ r.status = .noProgress) :
    ∃ first s₀ earlier u, exec (setUp f order.toConfiguration) s = (.ok first, s₀) ∧
      first :: r.history.toList = earlier ++ [u, r.final] ∧
      (earlier ++ [u]).Pairwise Snapshot.Falls ∧
      ((∀ v ∈ first :: r.history.toList, r.value ≤ v.value) ↔ r.value ≤ u.value) := by
  obtain ⟨a, first, s₀, turns, finish, last, ha, hl, -, hc, hr, -⟩ :=
    chronicle_of_exec_solveWatched h
  obtain ⟨-, -, hfirst, hstatus, -⟩ := exec_launch_ok hl
  have hset : exec (setUp f order.toConfiguration) s = (.ok first, s₀) :=
    (exec_setUp_of_accept (accept_of_acceptOrder ha)).trans hl
  have hcourse : Course Snapshot.Falls (fun _ _ => True) first (turns.map Turn.view) := by
    refine hc.course carries_anything ?_ (carries_anything.launch hl) hfirst
    intro s s' status v v' hs hi hv hv'
    refine ⟨trivial, ?_⟩
    rintro rfl
    exact hs.falls hi hv hv'
  -- a run without a step ends out of control
  have hne : turns ≠ [] := by
    intro hnil
    obtain ⟨hover, rfl, -⟩ := hc.idle hnil
    rw [hr.status] at hend
    cases hv : first.isFinite with
    | true => simp [hstatus, hv, Status.isTerminal] at hover
    | false => simp [hstatus, hv] at hend
  obtain ⟨earlier, u, v, heq, hchain, -⟩ := hcourse.split (by simpa using hne)
  have hhistory : r.history.toList = turns.map Turn.view := by simp [hr.history]
  have hfinal : r.final = v := by
    have hlast : (first :: turns.map Turn.view).getLast? = some v := by rw [heq]; simp
    obtain ⟨t, turns, rfl⟩ := List.exists_cons_of_ne_nil hne
    rw [hr.final, ← List.getLast?_map]
    rw [List.map_cons, List.getLast?_cons_cons] at hlast
    rw [List.map_cons, hlast]
    rfl
  rw [← hhistory, ← hfinal] at heq
  refine ⟨first, s₀, earlier, u, hset, heq, hchain.pairwise, ?_⟩
  rw [heq]
  constructor
  · intro hleast
    exact hleast u (by simp)
  · intro hle v hv
    have hcases : v ∈ earlier ∨ v = u ∨ v = r.final := by simpa using hv
    rcases hcases with hv | rfl | rfl
    · have hfalls : v.Falls u := (List.pairwise_append.mp hchain.pairwise).2.2 v hv u (by simp)
      exact Scalar.Ordered.le_trans hle (Scalar.Lawful.le_of_lt hfalls)
    · exact hle
    · exact Scalar.le_self (Scalar.Ordered.defined_of_le hle).1

end

/-! ## A success on a hump -/

section

/-- The function `6 x⁴ - 7 x²`, which has a hump at zero between two hollows. -/
noncomputable def hump : Subject ℝ where
  n := 1
  objective :=
    { name := "hump"
      value := fun x => .ok (6 * x.get ⟨0, Nat.one_pos⟩ ^ 4 - 7 * x.get ⟨0, Nat.one_pos⟩ ^ 2)
      gradient? := some fun x =>
        .ok #[24 * x.get ⟨0, Nat.one_pos⟩ ^ 3 - 14 * x.get ⟨0, Nat.one_pos⟩]
      hessian? := none }

noncomputable def fromOne : Order ℝ where
  start := Tensor.ofVector #v[1]

noncomputable def humpAccepted : Accepted ℝ hump.n where
  options := (GradientDescent.method : Method ℝ).defaults
  region := .everywhere
  start := #v[1]

noncomputable def humpSituation : Situation ℝ 1 := humpAccepted.situation hump.objective.name

noncomputable def slope : Iterate ℝ 1 where
  value := 6 * 1 ^ 4 - 7 * 1 ^ 2
  point := #v[1]
  gradient := #v[24 * 1 ^ 3 - 14 * 1]
  alpha := 0.0
  step := 0.0

theorem hump_start : ((GradientDescent.method : Method ℝ).start humpSituation
    (humpAccepted.region.project humpAccepted.start)).read
      (Ledger.plainAnswer (n := 1) hump.objective) = .ok (.state slope) := rfl

/-- The first step goes onto the hump, where the gradient vanishes. -/
theorem hump_step : ∃ next : Iterate ℝ 1,
    (GradientDescent.step humpSituation 0 slope).read
      (Ledger.plainAnswer (n := 1) hump.objective) = .ok (next, .success) ∧ next.value = 0 := by
  obtain ⟨x, hx⟩ : ∃ x, x = humpSituation.region.project
      (slope.point - (0.1 : ℝ) * slope.gradient) := ⟨_, rfl⟩
  have hzero : x.get ⟨0, Nat.one_pos⟩ = 0 := by
    rw [hx]
    show (slope.point - (0.1 : ℝ) * slope.gradient).get ⟨0, Nat.one_pos⟩ = 0
    simp [Vector.get, slope]
    norm_num
  have hvalue : Ledger.plainAnswer (n := 1) hump.objective (.value x) = .ok 0 := by
    show Except.ok (6 * x.get ⟨0, Nat.one_pos⟩ ^ 4 - 7 * x.get ⟨0, Nat.one_pos⟩ ^ 2) = _
    rw [hzero]
    norm_num
  obtain ⟨g, hg⟩ : ∃ g : Vector ℝ 1, g = #v[24 * x.get ⟨0, Nat.one_pos⟩ ^ 3 -
      14 * x.get ⟨0, Nat.one_pos⟩] := ⟨_, rfl⟩
  have hgradient : Ledger.plainAnswer (n := 1) hump.objective (.gradient x) = .ok g := by
    rw [hg]
    rfl
  have hshort : Linear.norm g < (1e-6 : ℝ) := by
    have hflat : g.get ⟨0, Nat.one_pos⟩ = 0 := by
      have hentry : g.get ⟨0, Nat.one_pos⟩ = 24 * x.get ⟨0, Nat.one_pos⟩ ^ 3 -
          14 * x.get ⟨0, Nat.one_pos⟩ := by
        rw [hg]
        rfl
      rw [hentry, hzero]
      norm_num
    rw [norm_line, hflat]
    norm_num
  have hsize : humpSituation.options.real "step_size" = .ok 0.1 := rfl
  have htol : humpSituation.options.real "grad_tol" = .ok 1e-6 := rfl
  have hjudge (new : Iterate ℝ 1) (h : new.gradient = g) :
      GradientDescent.judge humpSituation.options 0 slope new = .ok .success := by
    unfold GradientDescent.judge
    rw [htol, Attempt.ok_bind, h, if_pos hshort]
    rfl
  unfold GradientDescent.step
  rw [read_lift_bind hsize]
  dsimp only
  rw [← hx]
  refine ⟨_, (read_question_bind hvalue).trans ((read_question_bind hgradient).trans
    ((read_lift_bind (hjudge _ rfl)).trans rfl)), rfl⟩

/-- The run ends in success after this step, above where it began. -/
theorem hump_runs :
    ∃ (first : Snapshot ℝ) (r : Results ℝ) (s₀ : Solver (GradientDescent.method : Method ℝ))
      (final : Solver (GradientDescent.method : Method ℝ) × Unit),
      exec (setUp hump fromOne.toConfiguration) (new GradientDescent.method none) =
        (.ok first, s₀) ∧
      exec (solve hump fromOne fun _ _ _ => ()) (new GradientDescent.method none, ()) =
        (.ok r, final) ∧
      first.value = -1 ∧ r.status = .success ∧ r.value = 0 := by
  have ha : (new GradientDescent.method none).acceptOrder hump.n fromOne = .ok humpAccepted :=
    accept_vector (Offer.presettable .gradientDescent) _ #v[1]
  obtain ⟨next, hread, hvalue⟩ := hump_step
  obtain ⟨s₀, r, final, hl, hrun, hstatus, -, hend, -⟩ :=
    exec_solve_of_first_read (Objective.respectsEquality_real hump.objective) ha (by simp [fromOne])
      hump_start (Snapshot.isFinite_real _) (Dialogue.read_bind_of_ok hread)
      (classify_ended (Snapshot.isFinite_real _) nofun) rfl (fun _ _ _ => ()) ()
  have hset : exec (setUp hump fromOne.toConfiguration) (new GradientDescent.method none) =
      (.ok ((GradientDescent.method : Method ℝ).view slope), s₀) :=
    (exec_setUp_of_accept (accept_of_acceptOrder ha)).trans hl
  have hbegin : ((GradientDescent.method : Method ℝ).view slope).value = -1 := by
    show (6 * 1 ^ 4 - 7 * 1 ^ 2 : ℝ) = -1
    norm_num
  have hvalue' : r.value = 0 := by
    rw [Results.value, hend]
    exact hvalue
  exact ⟨_, r, s₀, final, hset, hrun, hbegin, hstatus, hvalue'⟩

/-- A success is judged by the gradient alone: this one is above the value of the set up. -/
theorem success_above_start :
    ∃ (first : Snapshot ℝ) (r : Results ℝ) (s₀ : Solver (GradientDescent.method : Method ℝ))
      (final : Solver (GradientDescent.method : Method ℝ) × Unit),
      exec (setUp hump fromOne.toConfiguration) (new GradientDescent.method none) =
        (.ok first, s₀) ∧
      exec (solve hump fromOne fun _ _ _ => ()) (new GradientDescent.method none, ()) =
        (.ok r, final) ∧
      r.status = .success ∧ ¬ r.value ≤ first.value := by
  obtain ⟨first, r, s₀, final, hset, hrun, hstart, hstatus, hend⟩ := hump_runs
  refine ⟨first, r, s₀, final, hset, hrun, hstatus, ?_⟩
  rw [hstart, hend]
  norm_num

theorem hump_end :
    ∃ (r : Results ℝ) (final : Solver (GradientDescent.method : Method ℝ) × Unit),
      exec (solve hump fromOne fun _ _ _ => ()) (new GradientDescent.method none, ()) =
        (.ok r, final) ∧
      r.status = .success ∧
      ∃ first s₀ earlier u,
        exec (setUp hump fromOne.toConfiguration) (new GradientDescent.method none) =
          (.ok first, s₀) ∧
        first :: r.history.toList = earlier ++ [u, r.final] ∧
        (earlier ++ [u]).Pairwise Snapshot.Falls ∧
        ((∀ v ∈ first :: r.history.toList, r.value ≤ v.value) ↔ r.value ≤ u.value) := by
  obtain ⟨-, r, -, final, -, hrun, -, hstatus, -⟩ := hump_runs
  exact ⟨r, final, hrun, hstatus, fixed_steps_end_least_iff hrun (.inl hstatus)⟩

end

end Solver

end Minima
