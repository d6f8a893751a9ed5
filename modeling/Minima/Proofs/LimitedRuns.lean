import Minima.Proofs.EarlyFailures
import Minima.Proofs.PlanBudgets
import Minima.Proofs.PlannedOptions

/-!
# Limited runs return

On a total objective a run fails only over its options, and with a limit to its steps it is not cut off
before. So if the method can use its options, the run returns.
-/

namespace Minima

open Attempt Dialogue

variable {R : Type} [Scalar R] {σ : Type}

theorem Objective.Total.halting {n : Nat} {f : Objective R n} (hf : f.Total) : f.Halting where
  value x := by
    obtain ⟨v, hv⟩ := hf.value x
    rw [hv]
    exact halts_pure v
  gradient hg x := by
    obtain ⟨g, hx, -⟩ := hf.gradient x
    simp only [Ledger.rawGradient, hg] at hx
    rw [hx]
    exact halts_pure g
  hessian hh x := by
    obtain ⟨h, hx⟩ := hf.hessian x
    simp only [Ledger.rawHessian, hh] at hx
    obtain ⟨entries, hentries, -⟩ := bind_eq_ok.mp hx
    rw [hentries]
    exact halts_pure entries

namespace Offer

/-- The steps of every method can use its defaults. -/
theorem usable_defaults (o : Offer) :
    o.Plain (o.method : Method R).defaults ∧ o.Usable (o.method : Method R).defaults := by
  have halong (ho : (o.method : Method R).usesLineSearch = true) :
      LineStep.Usable (o.method : Method R).defaults := by
    obtain ⟨more, hmore⟩ := o.listing_along (R := R) ho
    have hagree : (o.method : Method R).defaults.AgreeBut ["line_search"]
        (Method.commonDefaults ++ LineStep.defaults ++ more) := by
      intro key _
      rw [o.method_defaults, hmore]
    exact LineStep.usable_of_agree hagree
  have hplain (ho : o ≠ .nelderMead) : o.Plain (o.method : Method R).defaults :=
    fun hsame => absurd hsame ho
  cases o with
  | gradientDescent => exact ⟨hplain (by decide), trivial⟩
  | hookeJeeves => exact ⟨hplain (by decide), trivial⟩
  | nelderMead =>
      rw [method_defaults]
      constructor
      · rintro - key hkey text htext
        simp only [List.mem_cons, List.not_mem_nil, or_false] at hkey
        rcases hkey with rfl | rfl | rfl <;> cases htext
      · exact ⟨serves_of_ok (x := 1.0) rfl, serves_of_ok (x := 1e-10) rfl⟩
  | _ => exact ⟨hplain (by decide), halong rfl⟩

end Offer

namespace Criterion

/-- If the criterion does not hold after some steps, there are fewer than `limit` of them. Asking it is
cheap. -/
structure Limits (limit : Nat) (c : Criterion R) : Prop where
  holds : ∀ v k, (c.holds v k).Within (fun held => held = false → k < limit) Failure.Uncut 1
  measure : ∀ v k, (c.measure v k).Halts 2

theorem limits_iterations (limit : Nat) : (Criterion.iterations (R := R) limit).Limits limit where
  holds v k := by
    rw [holds]
    refine within_pure fun hnot => ?_
    exact Nat.lt_of_not_le (of_decide_eq_false hnot)
  measure v k := by
    rw [measure]
    exact within_pure trivial

theorem Plain.limits_join {c : Criterion R} (h : c.Plain) (limit : Nat) :
    (join .any c (.iterations limit)).Limits limit :=
  ⟨h.holds_join limit, h.measure_join limit⟩

theorem Plain.fits_limited {c : Criterion R} (hplain : c.Plain) {n : Nat} (h : c.Fits n)
    (limit : Nat) : (join .any c (.iterations limit)).Fits n := by
  rw [hplain.join_iterations]
  refine .compound .any fun c' hc => ?_
  simp only [List.mem_cons, List.not_mem_nil, or_false] at hc
  rcases hc with rfl | rfl
  · exact h
  · exact .iterations _

end Criterion

namespace Solver

variable {o : Offer} {f : Subject R} {a : Accepted R f.n} {order : Order R} {limit : Nat}
  {s : Solver (o.method : Method R)} {c : Criterion R}

/-- With a criterion that limits the steps, a method that is asked for one is thrifty. -/
theorem thrifty_of_criterion (hf : f.objective.Total)
    (hc : (o.method : Method R).hasCriterion = false) (hcriterion : order.criterion? = some c)
    (hlimits : c.Limits limit) (hlimit : 0 < limit) (hbounded : o.Bounded limit a.options) :
    Thrifty o.method f a (asked? o.method order) limit (f.n + 2) (2 * f.n + 310) := by
  have hasked : asked? (o.method : Method R) order = some c := by
    rw [asked?, hc, hcriterion]
    rfl
  rw [hasked]
  refine ⟨hf.halting, hlimit, o.start_halts _ _, fun count st => ?_, ?_, ?_⟩
  · have hstep := o.step_within (s := a.situation f.objective.name) hbounded count st
    refine hstep.mono (Nat.le_refl _) fun r _ hnone => ?_
    cases hnone
  · rintro _ ⟨⟩
    exact hlimits.holds
  · rintro _ ⟨⟩
    exact hlimits.measure

/-- A thrifty run on a total objective returns, if the criterion fits and the method can use its
options. -/
theorem thrifty_run_returns {first each : Nat} (hf : f.objective.Total)
    (hthrifty : Thrifty o.method f a (asked? o.method order) limit first each)
    (hlong : limit ≤ order.horizon) (ha : s.acceptOrder f.n order = .ok a)
    (hfits : ∀ c, order.criterion? = some c → c.Fits f.n) (hplain : o.Plain a.options)
    (husable : o.Usable a.options) (visit : Snapshot R → Nat → σ → σ) (seen : σ) :
    ∃ r final, exec (solve f order visit) (s, seen) = (.ok r, final) := by
  have hasked : ∀ c, asked? (o.method : Method R) order = some c → c.Fits f.n := by
    intro c hc
    apply hfits
    rw [asked?] at hc
    split at hc
    · cases hc
    · exact hc
  have hunique {a' : Accepted R f.n} (ha' : s.acceptOrder f.n order = .ok a') : a = a' :=
    Except.ok.inj (ha.symm.trans ha')
  have hkeeps : KeepsTo limit (first + limit * (each + 3)) (exec (solve f order visit) (s, seen)) := by
    rw [solve, exec_solveWatched, ha]
    exact hthrifty.runAccepted hlong visit s seen
  rcases hrun : exec (solve f order visit) (s, seen) with ⟨e | r, final⟩
  · rw [hrun] at hkeeps
    obtain ⟨-, ⟨hrefused, -⟩ | ⟨a', ha', hnot, -⟩⟩ := failures_come_first hf hasked
      (fun a' ha' => hunique ha' ▸ hplain) visit seen (hkeeps.halts e rfl) hrun
    · rw [ha] at hrefused
      cases hrefused
    · exact (hnot (hunique ha' ▸ husable)).elim
  · exact ⟨r, final, rfl⟩

/-- A method can use its defaults within any limit, if it is asked for a criterion. -/
theorem usable_of_defaults [Newton.Climbs R] (hc : (o.method : Method R).hasCriterion = false)
    (hdefaults : a.options = (o.method : Method R).defaults) (limit : Nat) :
    o.Bounded limit a.options ∧ o.Plain a.options ∧ o.Usable a.options := by
  have hbounded : o.Bounded limit ((o.method : Method R).defaults.merged []) :=
    o.bounded_merged hc limit (by simp [Options.keys]) (by simp [Options.keys])
  rw [hdefaults]
  exact ⟨hbounded, o.usable_defaults⟩

/-- A run with the defaults of such a method returns, when the criterion limits its steps. -/
theorem default_run_returns [Newton.Climbs R] (hc : (o.method : Method R).hasCriterion = false)
    (hf : f.objective.Total) (hcriterion : order.criterion? = some c) (hlimits : c.Limits limit)
    (hfits : c.Fits f.n) (hlimit : 0 < limit) (hlong : limit ≤ order.horizon)
    (ha : s.acceptOrder f.n order = .ok a) (hdefaults : a.options = (o.method : Method R).defaults)
    (visit : Snapshot R → Nat → σ → σ) (seen : σ) :
    ∃ r final, exec (solve f order visit) (s, seen) = (.ok r, final) := by
  obtain ⟨hbounded, hplain, husable⟩ := usable_of_defaults hc hdefaults limit
  refine thrifty_run_returns hf (thrifty_of_criterion hf hc hcriterion hlimits hlimit hbounded) hlong ha
    ?_ hplain husable visit seen
  intro c' hgiven
  obtain rfl := Option.some.inj (hcriterion.symm.trans hgiven)
  exact hfits

/-- Over the reals there is no start at which a run ends before its first step. -/
theorem history_ne_of_real {m : Method ℝ} {f : Subject ℝ} {order : Order ℝ} {w : Watcher ℝ σ}
    {s : Solver m} {seen : σ} {r : Results ℝ} {final : Solver m × σ}
    (h : exec (solveWatched f order w) (s, seen) = (.ok r, final)) : 0 < r.history.size := by
  obtain ⟨a, first, s₀, turns, finish, last, -, hl, -, hc, hr, -⟩ := chronicle_of_exec_solveWatched h
  obtain ⟨-, -, -, hstatus, -⟩ := exec_launch_ok hl
  have hrun : s₀.status = .running := by simpa [Snapshot.isFinite_real] using hstatus
  rw [hr.history]
  cases turns with
  | nil =>
      obtain ⟨hterminal, -⟩ := hc.idle rfl
      rw [hrun] at hterminal
      cases hterminal
  | cons t turns => simp

/-! A function of two variables that is neither linear nor convex. -/

/-- The function `x² y + y²` on the plane. -/
noncomputable def saddle : Subject ℝ where
  n := 2
  objective :=
    Catalogue.plane "saddle" (fun x y => x ^ 2 * y + y ^ 2)
      (some fun x y => #[(x + x) * y, x ^ 2 + (y + y)])
      (some fun x y => #v[#v[y + y, x + x], #v[x + x, 1 + 1]])
      fun _ _ => true

theorem saddle_total : saddle.objective.Total where
  value _ := ⟨_, rfl⟩
  gradient _ := ⟨_, rfl, rfl⟩
  hessian _ := ⟨_, rfl⟩

noncomputable def onSaddle : Configuration ℝ := { start := Tensor.ofVector #v[1, -1] }

noncomputable def saddleAccepted (o : Offer) : Accepted ℝ saddle.n :=
  { options := (o.method : Method ℝ).defaults, region := .everywhere, start := #v[1, -1] }

theorem onSaddle_accepted (o : Offer) (s : Solver (o.method : Method ℝ)) :
    s.accept saddle.n onSaddle = .ok (saddleAccepted o) :=
  accept_vector o.presettable s #v[1, -1]

noncomputable def twoStepsOnSaddle : Order ℝ where
  toConfiguration := onSaddle
  criterion? := some (.iterations 2)

theorem saddle_run_returns (hc : (o.method : Method ℝ).hasCriterion = false)
    (s : Solver (o.method : Method ℝ)) :
    ∃ r final, exec (solve saddle twoStepsOnSaddle fun _ _ (_ : Unit) => ()) (s, ()) =
      (.ok r, final) := by
  have ha : s.acceptOrder saddle.n twoStepsOnSaddle = .ok (saddleAccepted o) :=
    acceptOrder_eq_ok_iff.mpr ⟨fun _ => rfl, onSaddle_accepted o s⟩
  exact default_run_returns hc saddle_total rfl (Criterion.limits_iterations 2) (.iterations 2)
    (by decide) (by decide) ha rfl _ ()

end Solver

end Minima
