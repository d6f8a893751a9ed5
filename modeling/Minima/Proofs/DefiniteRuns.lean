import Minima.Scalar.Real
import Minima.Proofs.Feasibility
import Minima.Proofs.InverseUpdates
import Minima.Proofs.Marches

/-!
# The approximate inverse along a run

Over the reals a step of the quasi-Newton method does one of three things to its state: it is rejected
and the state stays, it keeps the approximation of the inverse, or it corrects it along a step of
positive curvature. That the approximation is given up for the identity never shows: it happens only
where the gradient vanishes, and from there no step is accepted. So the approximation is positive
definite in every state of every run, and a state that is marked as corrected fulfils the secant
equation.
-/

namespace Minima

open Dialogue Linear Matrix

variable {n : Nat}

/-! ## Steps without a direction -/

theorem Scalar.clamp_of_mem {lo hi x : ℝ} (hlo : lo ≤ x) (hhi : x ≤ hi) : clamp lo hi x = x := by
  have hraised : (if isNaN x || decide (lo < x) then x else lo) = x := by
    rcases hlo.eq_or_lt with rfl | hlt
    · simp
    · simp [hlt]
  rw [clamp, hraised]
  rcases hhi.eq_or_lt with rfl | hlt
  · simp
  · simp [hlt]

/-- A point that was brought into a region is not moved by it. -/
theorem Region.project_reached {r : Region ℝ n} {x : Vector ℝ n} (h : r.Reached x) :
    r.project x = x := by
  have hadmitted := admits_of_reached h
  cases r with
  | everywhere => rfl
  | box b =>
      rcases hadmitted with hbetween | ⟨i, hi⟩
      · refine ext_get (funext fun i => ?_)
        rw [project, Box.project, get_ofFn]
        exact Scalar.clamp_of_mem (hbetween i).1 (hbetween i).2
      · cases hi

namespace LineStep

variable {s : Situation ℝ n} {it : Iterate ℝ n} {f : Objective ℝ n}

/-- Without a direction a step leads back to where it began, and is rejected. -/
theorem descend_still (hit : it.Grounded s.region (truth f)) :
    (descend s it 0).Yields (fun _ => True) (truth f) fun r => r.1 = none := by
  have hstays (alpha : ℝ) : along s.region it.point 0 alpha = it.point := by
    have hpoint : it.point + alpha * (0 : Vector ℝ n) = it.point := by
      refine ext_get (funext fun i => ?_)
      simp [get_eq_getElem]
    rw [along, hpoint]
    exact Region.project_reached hit.sampled.reached
  refine yields_bind (yields_anything _) fun outcome _ => ?_
  refine yields_join (yields_pure trivial) (yields_anything _) fun alpha _ => ?_
  refine yields_question_bind trivial fun value hvalue => ?_
  rw [hstays] at hvalue
  obtain rfl : it.value = value := Except.ok.inj (hit.sampled.value.symm.trans hvalue)
  refine yields_ite (fun _ => yields_pure rfl) fun _ => ?_
  exact yields_ite (fun _ => yields_pure rfl) fun hlower => absurd (lt_irrefl _) hlower

end LineStep

/-! ## Steps of the quasi-Newton method -/

namespace QuasiNewton

variable {s : Situation ℝ n} {st next : State ℝ n} {f : Objective ℝ n}

noncomputable def shift (st next : State ℝ n) : Vector ℝ n := next.iterate.point - st.iterate.point

noncomputable def turn (st next : State ℝ n) : Vector ℝ n :=
  next.iterate.gradient - st.iterate.gradient

/-- What a step does to a state that `count` steps were made before. -/
inductive Advance (count : Nat) (st next : State ℝ n) : Prop
  | stays (hsame : next = st)
  | keeps (hidle : next.updated = false) (hinverse : next.inverse = st.inverse)
  | corrects (hdone : next.updated = true) (hcurved : 0 < dot (shift st next) (turn st next))
      (hinverse : next.inverse.toMatrix =
        update (uncorrected count st.inverse.toMatrix (shift st next).get (turn st next).get)
          (shift st next).get (turn st next).get)

/-- The approximation stays positive definite. -/
theorem Advance.posDef {count : Nat} (h : Advance count st next)
    (hst : st.inverse.toMatrix.PosDef) : next.inverse.toMatrix.PosDef := by
  cases h with
  | stays hsame => rwa [hsame]
  | keeps hidle hinverse => rwa [hinverse]
  | corrects hdone hcurved hinverse =>
      rw [dot_real] at hcurved
      rw [hinverse]
      exact posDef_update (posDef_uncorrected hst hcurved count) hcurved

/-- What a state has to do with the next one of a run: if the next one is marked as corrected, its
approximation maps the change of the gradient to that of the point, and otherwise it is the old
one. -/
structure Follows (st next : State ℝ n) : Prop where
  secant : next.updated = true → next.inverse.mulVec (turn st next) = shift st next
  kept : next.updated = false → next.inverse = st.inverse

theorem Advance.follows {count : Nat} (h : Advance count st next) : Follows st next := by
  cases h with
  | stays hsame =>
      subst hsame
      refine ⟨fun _ => ?_, fun _ => rfl⟩
      have hrest (x : Vector ℝ n) : x - x = 0 := ext_get (by rw [get_sub, sub_self, get_zero])
      rw [turn, shift, hrest, hrest, Square.mulVec_zero]
  | keeps hidle hinverse => exact ⟨fun hdone => by simp [hidle] at hdone, fun _ => hinverse⟩
  | corrects hdone hcurved hinverse =>
      refine ⟨fun _ => ext_get ?_, fun hidle => by simp [hdone] at hidle⟩
      rw [dot_real] at hcurved
      rw [Square.get_mulVec, hinverse, update_mulVec _ hcurved.ne']

/-- A step from a state with a positive definite approximation advances it. -/
theorem step_advances (heps : ∀ eps, s.options.real "curvature_eps" = .ok eps → 0 ≤ eps)
    (hst : st.iterate.Grounded s.region (truth f)) (hdefinite : st.inverse.toMatrix.PosDef)
    (count : Nat) :
    (step s count st).Yields (fun _ => True) (truth f) fun r => Advance count st r.1 := by
  rw [step]
  rcases hd : direction st with ⟨p, b⟩
  -- without a slope there is no direction, and no step is accepted
  have hslope : (LineStep.descend s st.iterate p).Yields (fun _ => True) (truth f)
      fun r => st.iterate.gradient = 0 → r.1 = none := by
    by_cases hflat : st.iterate.gradient = 0
    · obtain rfl : (0 : Vector ℝ n) = p :=
        congrArg Prod.fst ((direction_of_flat hflat).symm.trans hd)
      exact (LineStep.descend_still hst).mono (fun _ h => h) fun _ h _ => h
    · exact (yields_anything _).mono (fun _ h => h) fun _ _ h => absurd h hflat
  refine yields_bind hslope ?_
  rintro ⟨_ | next, status⟩ hr
  · exact yields_pure (.stays rfl)
  have hsteep : st.iterate.gradient ≠ 0 := fun hflat => nomatch hr hflat
  obtain rfl : st.inverse = b :=
    congrArg Prod.snd ((direction_of_posDef hdefinite hsteep).symm.trans hd)
  refine yields_lift_bind fun eps hread => ?_
  refine yields_ite (fun htest => ?_) fun htest => yields_pure (.keeps (eq_false_of_ne_true htest) rfl)
  have hcurved := curved_of_test (heps eps hread) (of_decide_eq_true htest)
  obtain ⟨b', hb', hinverse⟩ := correction_real count st.inverse hcurved
  refine yields_lift_bind fun inverse hok => yields_pure (.corrects htest hcurved ?_)
  obtain rfl : b' = inverse := Except.ok.inj (hb'.symm.trans hok)
  exact hinverse

/-- The iterate rests on the truth about `f`, and the approximation is positive definite. -/
def State.Sound (r : Region ℝ n) (f : Objective ℝ n) (st : State ℝ n) : Prop :=
  st.iterate.Grounded r (truth f) ∧ st.inverse.toMatrix.PosDef

/-- The first state has the identity for its approximation. -/
def State.Untouched (st : State ℝ n) : Prop :=
  st.inverse = Square.identity n ∧ st.updated = false

/-- What holds of the approximations in a run that begins in `first` and passes through `states`: they
are symmetric and positive definite, so that each leads downhill where there is a slope and is given
up only where there is none, and each follows from the one before. -/
structure StaysDefinite (first : State ℝ n) (states : List (State ℝ n)) : Prop where
  symmetric : ∀ st ∈ first :: states, st.inverse.transpose = st.inverse
  definite : ∀ st ∈ first :: states, st.inverse.toMatrix.PosDef
  downhill : ∀ st ∈ first :: states, st.iterate.gradient ≠ 0 →
    dot st.iterate.gradient (st.inverse.negate.mulVec st.iterate.gradient) < 0
  reset : ∀ st ∈ first :: states,
    direction st ≠ (st.inverse.negate.mulVec st.iterate.gradient, st.inverse) →
    st.iterate.gradient = 0
  follow : (first :: states).IsChain Follows

theorem staysDefinite_of_march {first : State ℝ n} {states : List (State ℝ n)}
    (hfirst : first.inverse.toMatrix.PosDef) (hmarch : March Advance 0 first states)
    (hstates : ∀ st ∈ states, st.inverse.toMatrix.PosDef) : StaysDefinite first states := by
  have hdefinite : ∀ st ∈ first :: states, st.inverse.toMatrix.PosDef := by
    simpa using ⟨hfirst, hstates⟩
  refine ⟨fun st hst => Square.ext_toMatrix ?_, hdefinite,
    fun st hst => downhill_of_posDef (hdefinite st hst), fun st hst hreset => ?_,
    hmarch.isChain fun _ _ _ h => h.follows⟩
  · rw [Square.toMatrix_transpose]
    exact (hdefinite st hst).isHermitian
  · by_contra hsteep
    exact hreset (direction_of_posDef (hdefinite st hst) hsteep)

end QuasiNewton

/-! ## Runs -/

namespace Solver

open QuasiNewton

variable {f : Subject ℝ} {a : Accepted ℝ f.n}

theorem untouched_of_opening {st : QuasiNewton.State ℝ f.n}
    (h : (opening (Offer.quasiNewton.method : Method ℝ) f a).1 = .ok (.state st)) : st.Untouched := by
  have hstart : ((Offer.quasiNewton.method : Method ℝ).start (a.situation f.objective.name)
      (a.region.project a.start)).Yields (fun _ => True) (fun _ _ => True)
      fun p => ∀ st, p = .state st → QuasiNewton.State.Untouched st := by
    refine yields_bind (yields_anything _) fun it _ => yields_pure ?_
    rintro _ ⟨⟩
    exact ⟨rfl, rfl⟩
  have hanswer : ∀ (q : Question ℝ f.n) (l : Ledger ℝ f.n), True → True →
      True ∧ ∀ r, (Ledger.answer f.objective q l).1 = .ok r → True :=
    fun _ _ _ _ => ⟨trivial, fun _ _ => trivial⟩
  exact (hstart.play hanswer trivial).2.1 _ h st rfl

theorem advance_of_attemptStep (heps : ∀ eps, a.options.real "curvature_eps" = .ok eps → 0 ≤ eps)
    {ledger : Ledger ℝ f.n} {count : Nat} {st next : (Offer.quasiNewton.method : Method ℝ).State f.n}
    {reported : Status} (hl : Ledger.Truthful f.objective ledger)
    (hst : State.Sound a.region f.objective st)
    (h : (attemptStep (a.task ledger) count st).1 = .ok (.state next, reported)) :
    Advance count st next := by
  have hf := (Session.congruent_real f.objective).respectsEquality
  have hstep := yields_wrapped (Q := fun r => ∀ next, r.1 = .state next → Advance count st next)
    (step_advances (s := a.situation f.objective.name) heps hst.1 hst.2 count)
    (by rintro next status hadvance _ ⟨⟩; exact hadvance)
  rw [attemptStep_task] at h
  exact (hstep.play (fun q l _ => answer_tells_truth hf q l) hl).2.1 _ h next rfl

/-- The steps of the quasi-Newton method lead from one sound state to the next by an advance. -/
theorem leads_advances (heps : ∀ eps, a.options.real "curvature_eps" = .ok eps → 0 ≤ eps) :
    Leads (m := Offer.quasiNewton.method) f a (Ledger.Truthful f.objective)
      (State.Sound a.region f.objective) Advance := by
  have htruth := carries_truth .quasiNewton a (Session.congruent_real f.objective).respectsEquality
  refine { start := ⟨htruth.start.1, fun st hst => ?_⟩, step := ?_, still := ?_, makes := ?_ }
  · refine ⟨htruth.start.2 st hst, ?_⟩
    rw [(untouched_of_opening hst).1, Square.toMatrix_identity]
    exact .one
  · intro ledger count st hl hst
    obtain ⟨hleft, hgrounded⟩ := htruth.step ledger count st hl hst.1
    refine ⟨hleft, fun next reported hnext => ⟨hgrounded next reported hnext, ?_⟩⟩
    exact (advance_of_attemptStep heps hl hst hnext).posDef hst.2
  · exact fun count st => .stays rfl
  · exact fun ledger count st hl hst next reported hnext => advance_of_attemptStep heps hl hst hnext

end Solver

namespace Session

open QuasiNewton

variable {f : Subject ℝ} {c : Configuration ℝ} {s s₀ : Session (Offer.quasiNewton.method : Method ℝ)}
  {v : Snapshot ℝ}

/-- After a set up of the quasi-Newton method the state has the identity for its approximation, and all
that follows is a march of advances. -/
theorem passes_advances (hf : (exec subject s).1 = .ok f)
    (hset : exec (setUp c) s = (.ok v, s₀)) :
    ∃ first : QuasiNewton.State ℝ f.n, s₀.solver.state? = some ⟨f.n, first⟩ ∧ first.Untouched ∧
      Passes f c s s₀ fun states => March Advance 0 first states ∧
        ∀ st ∈ states, st.inverse.toMatrix.PosDef := by
  obtain ⟨a, ha, -⟩ := exec_setUp_ok hf hset
  have hvalid := Solver.validate_of_accept ha
  obtain ⟨-, eps', heps', hcovers⟩ := QuasiNewton.validate_eq_ok_iff.mp hvalid
  have heps : ∀ eps, a.options.real "curvature_eps" = .ok eps → 0 ≤ eps := by
    intro eps heps
    obtain rfl : eps' = eps := Except.ok.inj (heps'.symm.trans heps)
    have hnot : ¬ eps' < 0.0 := by simpa [OptionRange.covers] using hcovers
    norm_num at hnot
    exact hnot
  obtain ⟨first, hopening, hstate, -, hpasses⟩ := passes_march hf
    (congruent_real f.objective).respectsEquality hset ha (Solver.leads_advances heps)
  refine ⟨first, hstate, Solver.untouched_of_opening hopening, hpasses.mono ?_⟩
  rintro states ⟨hmarch, hsound⟩
  exact ⟨hmarch, fun st hst => (hsound st hst).2⟩

/-- After a set up of the quasi-Newton method, whatever is done, the approximation of the inverse is
symmetric and positive definite in every state. A state that is marked as corrected fulfils the secant
equation, and another one has the approximation of the state before. So the method goes downhill as
long as there is a slope, and gives the approximation up only where there is none. -/
theorem inverses_stay_definite (hf : (exec subject s).1 = .ok f)
    (hset : exec (setUp c) s = (.ok v, s₀)) :
    ∃ first : QuasiNewton.State ℝ f.n, s₀.solver.state? = some ⟨f.n, first⟩ ∧
      first.inverse = Square.identity f.n ∧ first.updated = false ∧
      Passes f c s s₀ (StaysDefinite first) := by
  obtain ⟨first, hstate, ⟨hidentity, hidle⟩, hpasses⟩ := passes_advances hf hset
  refine ⟨first, hstate, hidentity, hidle, hpasses.mono ?_⟩
  rintro states ⟨hmarch, hdefinite⟩
  refine staysDefinite_of_march ?_ hmarch hdefinite
  rw [hidentity, Square.toMatrix_identity]
  exact .one

theorem saddle_stays_definite :
    ∃ v s₀, exec (setUp Solver.onSaddle)
        { solver := Solver.new Offer.quasiNewton.method none, current := .other Solver.saddle } =
          (.ok v, s₀) ∧
      ∃ first, Passes Solver.saddle Solver.onSaddle
        { solver := Solver.new Offer.quasiNewton.method none, current := .other Solver.saddle } s₀
        (StaysDefinite first) := by
  obtain ⟨v, s₀, hset⟩ := saddle_starts .quasiNewton
  obtain ⟨first, -, -, -, hpasses⟩ := inverses_stay_definite rfl hset
  exact ⟨v, s₀, hset, first, hpasses⟩

end Session

end Minima
