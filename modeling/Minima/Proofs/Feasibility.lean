import Minima.Proofs.LimitedRuns
import Minima.Proofs.ScalarLaws

/-!
# Every point that a run looks at is feasible

Nothing but the methods brings points into the region, each method in its own places. Still every
point at which a set up or a step of a method on offer asks the objective lies in the region, and so
does every point of every state, of a simplex as of a pattern, unless a component of it is undefined.
A finite state is feasible. The points that differences take values at are not meant: they are asked
for by the objective, and can lie outside.
-/

namespace Minima

variable {R : Type} [Scalar R] {n : Nat}

/-! ## Regions -/

/-- What clamping to an interval comes to: something in it, or nothing defined. -/
theorem Scalar.clamp_between [Scalar.Lawful R] {lo hi : R} (hlo : isNaN lo = false)
    (hhi : isNaN hi = false) (h : ¬hi < lo) (x : R) :
    isNaN (clamp lo hi x) = true ∨ lo ≤ clamp lo hi x ∧ clamp lo hi x ≤ hi := by
  have hself {a : R} (ha : isNaN a = false) : a ≤ a := by
    by_cases hlt : a < a
    · exact Lawful.le_of_lt hlt
    · exact Lawful.le_of_not_lt ha ha hlt
  have hbounds : lo ≤ hi := Lawful.le_of_not_lt hhi hlo h
  by_cases hx : isNaN x = true
  · left
    simp [clamp, hx]
  right
  by_cases hlow : lo < x
  · by_cases hhigh : x < hi
    · have heq : clamp lo hi x = x := by simp [clamp, hx, hlow, hhigh]
      rw [heq]
      exact ⟨Lawful.le_of_lt hlow, Lawful.le_of_lt hhigh⟩
    · have heq : clamp lo hi x = hi := by simp [clamp, hx, hlow, hhigh]
      rw [heq]
      exact ⟨hbounds, hself hhi⟩
  · by_cases hhigh : lo < hi
    · have heq : clamp lo hi x = lo := by simp [clamp, hx, hlo, hlow, hhigh]
      rw [heq]
      exact ⟨hself hlo, hbounds⟩
    · have heq : clamp lo hi x = hi := by simp [clamp, hx, hlo, hlow, hhigh]
      rw [heq]
      exact ⟨hbounds, hself hhi⟩

namespace Region

/-- The point lies in the region, or it has an undefined component. -/
def Admits (r : Region R n) (p : Vector R n) : Prop :=
  match r with
  | .everywhere => True
  | .box b =>
    (∀ i : Fin n, b.lower.get i ≤ p.get i ∧ p.get i ≤ b.upper.get i) ∨
      ∃ i : Fin n, Scalar.isNaN (p.get i) = true

def Contains : Region R n → Vector R n → Prop
  | .everywhere, _ => True
  | .box b, p => b.contains p = true

/-- Whatever is brought into a region is admitted to it. -/
theorem admits_of_reached [Scalar.Lawful R] {r : Region R n} {p : Vector R n} (h : r.Reached p) :
    r.Admits p := by
  obtain ⟨x, rfl⟩ := h
  cases r with
  | everywhere => trivial
  | box b =>
      have hcomponent (i : Fin n) : (b.project x).get i =
          Scalar.clamp (b.lower.get i) (b.upper.get i) (x.get i) := by
        show (Vector.ofFn _)[i.val] = _
        rw [Vector.getElem_ofFn]
      have hclamp (i : Fin n) := by
        have hdefined := b.defined i
        rw [Bool.or_eq_false_iff] at hdefined
        exact Scalar.clamp_between hdefined.1 hdefined.2 (b.ordered i) (x.get i)
      by_cases hdefined : ∃ i : Fin n, Scalar.isNaN ((b.project x).get i) = true
      · exact .inr hdefined
      · left
        intro i
        show b.lower.get i ≤ (b.project x).get i ∧ (b.project x).get i ≤ b.upper.get i
        rw [hcomponent]
        rcases hclamp i with hnan | hbetween
        · exact absurd ⟨i, by rw [hcomponent]; exact hnan⟩ hdefined
        · exact hbetween

/-- A finite point that is admitted is contained. -/
theorem Admits.contains [Scalar.Lawful R] {r : Region R n} {p : Vector R n} (h : r.Admits p)
    (hp : Linear.isFinite p = true) : r.Contains p := by
  cases r with
  | everywhere => trivial
  | box b =>
      rcases h with hbetween | ⟨i, hi⟩
      · simp only [Contains, Box.contains, List.all_eq_true, Bool.and_eq_true, decide_eq_true_eq]
        exact fun i _ => hbetween i
      · have hfinite : Scalar.isFinite (p.get i) = true := by
          have hall : ∀ (j : Nat) (hj : j < n), Scalar.isFinite p[j] = true := by
            simpa [Linear.isFinite] using hp
          exact hall i.val i.isLt
        rw [Scalar.Lawful.defined_of_finite hfinite] at hi
        cases hi

end Region

/-- All points of the snapshot are admitted, and contained if the snapshot is finite. -/
structure Snapshot.Feasible (r : Region R n) (v : Snapshot R) : Prop where
  admitted : ∀ c ∈ v.points, ∃ p : Vector R n, p.toArray = c ∧ r.Admits p
  contained : v.isFinite = true → ∀ c ∈ v.points, ∃ p : Vector R n, p.toArray = c ∧ r.Contains p

theorem NelderMead.State.reached_points {r : Region R n} {told : Lore R n}
    {st : NelderMead.State R n} (h : st.Grounded r told) :
    ∀ c ∈ st.view.points, ∃ p : Vector R n, p.toArray = c ∧ r.Reached p := by
  intro c hc
  rw [points_view] at hc
  obtain ⟨v, hv, rfl⟩ := List.mem_map.mp hc
  exact ⟨v.point, rfl, (h v (Vector.mem_toList_iff.mp hv)).reached⟩

/-- All points that a grounded state shows have been brought into the region. -/
theorem Offer.reached_points {o : Offer} {r : Region R n} {told : Lore R n}
    {st : (o.method : Method R).State n} (h : o.Grounded r told st) :
    ∀ c ∈ ((o.method : Method R).view st).points, ∃ p : Vector R n, p.toArray = c ∧ r.Reached p := by
  -- apart from a simplex, a state shows one point
  have hsingle {x : Vector R n} (hx : r.Reached x) :
      ∀ c ∈ [x.toArray], ∃ p : Vector R n, p.toArray = c ∧ r.Reached p := by
    intro c hc
    exact ⟨x, (List.mem_singleton.mp hc).symm, hx⟩
  cases o with
  | nelderMead => exact NelderMead.State.reached_points h
  | hookeJeeves => exact hsingle h.reached
  | gradientDescent | steepestDescent => exact hsingle h.sampled.reached
  | _ => exact hsingle h.sampled.reached

theorem Offer.feasible_view [Scalar.Lawful R] {o : Offer} {r : Region R n} {told : Lore R n}
    {st : (o.method : Method R).State n} (h : o.Grounded r told st) :
    ((o.method : Method R).view st).Feasible r where
  admitted := by
    intro c hc
    obtain ⟨p, hp, hreached⟩ := o.reached_points h c hc
    exact ⟨p, hp, Region.admits_of_reached hreached⟩
  contained := by
    intro hfinite c hc
    obtain ⟨p, rfl, hreached⟩ := o.reached_points h c hc
    rw [Snapshot.isFinite, Bool.and_eq_true, List.all_eq_true] at hfinite
    exact ⟨p, rfl, (Region.admits_of_reached hreached).contains (hfinite.2 _ hc)⟩

namespace Solver

/-! ## Runs -/

variable {m : Method R} {σ : Type}

/-- The points at which a set up asks the objective. -/
def launchPoints (m : Method R) (f : Subject R) (a : Accepted R f.n) : List (Vector R f.n) :=
  ((m.start (a.situation f.objective.name) (a.region.project a.start)).asked
    (Ledger.answer f.objective) {}).map Question.point

def stepPoints (s : Solver m) : List (Array R) :=
  match s.task?, s.state? with
  | some t, some ⟨k, st⟩ =>
    if h : k = t.n then
      ((m.step t.situation s.iterations (h ▸ st)).asked (Ledger.answer t.objective) t.ledger).map
        fun q => q.point.toArray
    else []
  | _, _ => []

def unheard {R : Type} {n : Nat} : Lore R n := fun _ _ => True

section

variable {o : Offer} {f : Subject R} {a : Accepted R f.n} {s : Solver (o.method : Method R)}

theorem carries_unheard (o : Offer) (f : Subject R) (a : Accepted R f.n) :
    Carries (m := o.method) f a (fun _ => True) (o.Grounded a.region unheard) :=
  carries_grounded o f a trivial fun _ _ _ => ⟨trivial, fun _ _ => trivial⟩

theorem reached_launchPoints (o : Offer) (f : Subject R) (a : Accepted R f.n) :
    ∀ p ∈ launchPoints o.method f a, a.region.Reached p := by
  intro p hp
  obtain ⟨q, hq, rfl⟩ := List.mem_map.mp hp
  have hstart : Consult.Grounded a.region unheard
      (fun p => ∀ st, p = .state st → o.Grounded a.region unheard st)
      (o.method.start (a.situation f.objective.name) (a.region.project a.start)) :=
    o.start_grounded (a.situation f.objective.name) ⟨a.start, rfl⟩
  exact hstart.of_asked q hq

theorem stepPoints_eq {ledger : Ledger R f.n} {st : (o.method : Method R).State f.n}
    (htask : s.task? = some (a.task ledger)) (hstate : s.state? = some ⟨f.n, st⟩) :
    stepPoints s =
      (((o.method : Method R).step (a.situation f.objective.name) s.iterations st).asked
        (Ledger.answer f.objective) ledger).map fun q => q.point.toArray := by
  simp only [stepPoints, htask, hstate]
  exact dif_pos rfl

theorem reached_stepPoints
    (h : Upholds f a (fun _ => True) (o.Grounded a.region unheard) s) :
    ∀ c ∈ stepPoints s, ∃ p : Vector R f.n, p.toArray = c ∧ a.region.Reached p := by
  obtain ⟨⟨ledger, -, htask⟩, st, hst, hstate⟩ := h
  have hstep : Consult.Grounded a.region unheard
      (fun r => ∀ next, r.1 = .state next → o.Grounded a.region unheard next)
      (o.method.step (a.situation f.objective.name) s.iterations st) :=
    o.step_grounded (a.situation f.objective.name) hst s.iterations
  intro c hc
  rw [stepPoints_eq htask hstate] at hc
  obtain ⟨q, hq, rfl⟩ := List.mem_map.mp hc
  exact ⟨q.point, rfl, hstep.of_asked q hq⟩

/-- With an accepted configuration, a method on offer asks at admitted points only while it is set up
and in all its steps, and the states that it comes to are feasible: whatever is asked or watched
between the steps, and in the whole history of a run. -/
theorem run_stays_feasible [Scalar.Lawful R] {c : Configuration R}
    (ha : s.accept f.n c = .ok a) :
    (∀ p ∈ launchPoints o.method f a, a.region.Admits p) ∧
      (∀ v s₀ s₁, exec (setUp f c) s = (.ok v, s₀) → Underway s₀ s₁ →
        (∀ p ∈ stepPoints s₁, ∃ q : Vector R f.n, q.toArray = p ∧ a.region.Admits q) ∧
          ∀ u, s₁.snapshot? = some u → u.Feasible a.region) ∧
      ∀ (σ : Type) (order : Order R) (w : Watcher R σ) (seen : σ) (r : Results R)
        (final : Solver (o.method : Method R) × σ), order.toConfiguration = c →
        exec (solveWatched f order w) (s, seen) = (.ok r, final) →
        ∀ v ∈ r.final :: r.history.toList, v.Feasible a.region := by
  have hcarries := carries_unheard o f a
  refine ⟨?_, ?_, ?_⟩
  · intro p hp
    exact Region.admits_of_reached (reached_launchPoints o f a p hp)
  · intro v s₀ s₁ hset hu
    rw [exec_setUp_of_accept ha] at hset
    have hnow := hu.upholds hcarries (hcarries.launch hset)
    refine ⟨?_, ?_⟩
    · intro p hp
      obtain ⟨q, hq, hreached⟩ := reached_stepPoints hnow p hp
      exact ⟨q, hq, Region.admits_of_reached hreached⟩
    · intro u hu
      obtain ⟨st, hst, rfl⟩ := hnow.snapshot hu
      exact Offer.feasible_view hst
  · rintro σ order w seen r final rfl hr v hv
    obtain ⟨a', -, -, -, -, -, hacceptOrder, -⟩ := chronicle_of_exec_solveWatched hr
    obtain rfl : a = a' := Except.ok.inj (ha.symm.trans (accept_of_acceptOrder hacceptOrder))
    obtain ⟨st, hst, rfl⟩ := shown_of_solveWatched hacceptOrder hcarries
      (fun _ _ _ => trivial) (fun _ _ _ _ _ => trivial) hr v hv
    exact Offer.feasible_view hst

end

/-! Newton's method on the saddle, in the unit square, from a point outside of it. -/

noncomputable def unitSquare : Box ℝ 2 where
  lower := 0
  upper := #v[1, 1]
  defined _ := rfl
  ordered := by
    intro i
    fin_cases i
    · show ¬(1 : ℝ) < 0
      norm_num
    · show ¬(1 : ℝ) < 0
      norm_num

noncomputable def fromOutside : Configuration ℝ where
  start := Tensor.ofVector Scripted.farPoint
  constraints := .box unitSquare

noncomputable def insideSquare : Accepted ℝ saddle.n where
  options := (Newton.method : Method ℝ).defaults
  region := .box unitSquare
  start := Scripted.farPoint

noncomputable def twoStepsInSquare : Order ℝ where
  toConfiguration := fromOutside
  criterion? := some (.iterations 2)

theorem accepts_fromOutside (s : Solver (Offer.newton.method : Method ℝ)) :
    s.accept saddle.n fromOutside = .ok insideSquare :=
  accept_within Offer.newton.presettable s Scripted.farPoint rfl

theorem project_insideSquare : unitSquare.project Scripted.farPoint = #v[1, 1] := by
  have hclamp {x : ℝ} (hx : 1 < x) : Scalar.clamp (0 : ℝ) 1 x = 1 := by
    have hlow : (0 : ℝ) < x := by linarith
    simp [Scalar.clamp, hlow, hx.not_gt, Scalar.isNaN]
  ext i hi
  obtain rfl | rfl : i = 0 ∨ i = 1 := by omega
  · exact hclamp (x := 3) (by norm_num)
  · exact hclamp (x := 4) (by norm_num)

theorem launchPoints_in_square :
    launchPoints Offer.newton.method saddle insideSquare = [#v[1, 1], #v[1, 1]] := by
  have hpoints : launchPoints Offer.newton.method saddle insideSquare =
      [unitSquare.project Scripted.farPoint, unitSquare.project Scripted.farPoint] := rfl
  rw [hpoints, project_insideSquare]

/-- The method starts in the corner, and there the first step asks for the Hessian. -/
theorem newton_starts_in_square :
    ∃ v s₀ rest, exec (setUp saddle fromOutside) (new Offer.newton.method none) = (.ok v, s₀) ∧
      stepPoints s₀ = #[1, 1] :: rest := by
  have ha := accepts_fromOutside (new Offer.newton.method none)
  have hvalid := validate_of_accept ha
  obtain ⟨v, s₀, hl⟩ :=
    launch_returns (o := .newton) saddle_total hvalid (new Offer.newton.method none)
  have hset : exec (setUp saddle fromOutside) (new Offer.newton.method none) = (.ok v, s₀) :=
    (exec_setUp_of_accept ha).trans hl
  obtain ⟨st, ledger, events, ho, -, rfl⟩ := exec_launch_made hl
  obtain ⟨first, asked, hfirst, hpoint⟩ : ∃ first asked,
      opening Offer.newton.method saddle insideSquare = (.ok (.state first), asked) ∧
        (Newton.State.iterate first).point = unitSquare.project Scripted.farPoint := ⟨_, _, rfl, rfl⟩
  rw [hfirst] at ho
  obtain ⟨hmade, rfl⟩ := Prod.mk.inj ho
  obtain rfl : first = st := Produced.state.inj (Except.ok.inj hmade)
  obtain ⟨rest, hrest⟩ : ∃ rest, ((Newton.method : Method ℝ).step
      (insideSquare.situation saddle.objective.name) 0 first).asked
        (Ledger.answer saddle.objective) asked = .hessian (Newton.State.iterate first).point :: rest :=
    Dialogue.asked_ask ..
  rw [project_insideSquare] at hpoint
  refine ⟨v, _, rest.map fun q => q.point.toArray, hset, ?_⟩
  rw [stepPoints_eq rfl rfl]
  refine (congrArg (List.map fun q => q.point.toArray) hrest).trans ?_
  rw [List.map_cons, Question.point, hpoint]

theorem newton_returns_in_square :
    ∃ r final, exec (solve saddle twoStepsInSquare fun _ _ (_ : Unit) => ())
      (new Offer.newton.method none, ()) = (.ok r, final) := by
  have ha : (new Offer.newton.method none).acceptOrder saddle.n twoStepsInSquare =
      .ok insideSquare := accepts_fromOutside _
  exact default_run_returns (o := .newton) rfl saddle_total rfl (Criterion.limits_iterations _)
    (.iterations _) (by decide) (by decide) ha rfl _ ()

/-- The set up, the first step and a run stay in the square. -/
theorem newton_stays_in_square :
    ∃ v s₀ rest r final,
      exec (setUp saddle fromOutside) (new Offer.newton.method none) = (.ok v, s₀) ∧
      launchPoints Offer.newton.method saddle insideSquare = [#v[1, 1], #v[1, 1]] ∧
      (∀ p ∈ [#v[1, 1], #v[1, 1]], Region.Admits (.box unitSquare) p) ∧
      stepPoints s₀ = #[1, 1] :: rest ∧
      (∀ p ∈ #[1, 1] :: rest, ∃ q : Vector ℝ 2, q.toArray = p ∧ Region.Admits (.box unitSquare) q) ∧
      exec (solve saddle twoStepsInSquare fun _ _ (_ : Unit) => ())
        (new Offer.newton.method none, ()) = (.ok r, final) ∧ 0 < r.history.size ∧
      ∀ u ∈ r.final :: r.history.toList, u.Feasible (.box unitSquare) := by
  obtain ⟨v, s₀, rest, hset, hrest⟩ := newton_starts_in_square
  obtain ⟨r, final, hr⟩ := newton_returns_in_square
  obtain ⟨hlaunch, hsteps, hruns⟩ :=
    run_stays_feasible (f := saddle) (accepts_fromOutside (new Offer.newton.method none))
  have hnow := (hsteps v s₀ s₀ hset .start).1
  rw [launchPoints_in_square] at hlaunch
  rw [hrest] at hnow
  exact ⟨v, s₀, rest, r, final, hset, launchPoints_in_square, hlaunch, hrest, hnow, hr,
    history_ne_of_real hr, hruns Unit twoStepsInSquare _ () r final rfl hr⟩

end Solver

end Minima
