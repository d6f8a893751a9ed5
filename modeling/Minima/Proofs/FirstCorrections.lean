import Minima.Scalar.Real
import Minima.Proofs.DefiniteRuns
import Minima.Proofs.RestingStarts

/-!
# What the first correction starts from

Before its first correction the quasi-Newton method has the identity for its approximation. It is
scaled to the curvature along the step if the correction is made by the first step of the run, and
only then: where the first steps have no curvature to speak of, the first correction starts from the
identity as it is.
-/

namespace Minima

open Dialogue Linear Matrix

namespace QuasiNewton

variable {n : Nat}

/-- As long as no state is marked as corrected, the approximation stays. -/
theorem inverse_of_idle {k : Nat} {first old : State ℝ n} {states earlier later : List (State ℝ n)}
    (h : March Advance k first states) (heq : first :: states = earlier ++ old :: later)
    (hidle : ∀ st ∈ earlier ++ [old], st.updated = false) : old.inverse = first.inverse := by
  -- on the states before `old`: none is marked, so each has kept the approximation of the last one
  induction earlier generalizing k first states with
  | nil =>
      obtain ⟨rfl, -⟩ := List.cons.inj heq
      rfl
  | cons st earlier ih =>
      obtain ⟨rfl, hrest⟩ := List.cons.inj heq
      cases h with
      | rest => simp at hrest
      | @step _ _ next l hadvance hmarch =>
          have hnext : next ∈ earlier ++ [old] := by
            cases earlier with
            | nil => simp [(List.cons.inj hrest).1]
            | cons st earlier => simp [(List.cons.inj hrest).1]
          have hkept := hadvance.follows.kept (hidle next (List.mem_cons_of_mem _ hnext))
          rw [ih hmarch hrest fun st hst => hidle st (List.mem_cons_of_mem _ hst), hkept]

/-- The first correction in a run that begins in `first` and passes through `states` starts from the
identity, which is scaled if no state lies between. -/
def CorrectsIdentity (first : State ℝ n) (states : List (State ℝ n)) : Prop :=
  ∀ earlier old next later, first :: states = earlier ++ old :: next :: later →
    (∀ st ∈ earlier ++ [old], st.updated = false) → next.updated = true →
    let s := (shift old next).get
    let y := (turn old next).get
    next.inverse.toMatrix = update (if earlier.length = 0 then ((s ⬝ᵥ y) / (y ⬝ᵥ y)) • 1 else 1) s y

/-- The first correction starts from the scaled identity wherever it is made. -/
def ScalesIdentity (first : State ℝ n) (states : List (State ℝ n)) : Prop :=
  ∀ earlier old next later, first :: states = earlier ++ old :: next :: later →
    (∀ st ∈ earlier ++ [old], st.updated = false) → next.updated = true →
    let s := (shift old next).get
    let y := (turn old next).get
    next.inverse.toMatrix = update (((s ⬝ᵥ y) / (y ⬝ᵥ y)) • 1) s y

theorem correctsIdentity_of_march {first : State ℝ n} {states : List (State ℝ n)}
    (hfirst : first.inverse = Square.identity n) (hmarch : March Advance 0 first states) :
    CorrectsIdentity first states := by
  intro earlier old next later heq hidle hdone
  have hinverse : old.inverse.toMatrix = 1 := by
    rw [inverse_of_idle hmarch heq hidle, hfirst, Square.toMatrix_identity]
  have hold : old.updated = false := hidle old (by simp)
  have hadvance := hmarch.between heq
  rw [Nat.zero_add] at hadvance
  cases hadvance with
  | stays hsame => simp [hsame, hold] at hdone
  | keeps hnot _ => simp [hnot] at hdone
  | corrects _ _ hupdate => rwa [hinverse] at hupdate

end QuasiNewton

namespace Session

open QuasiNewton

variable {f : Subject ℝ} {c : Configuration ℝ} {s s₀ : Session (Offer.quasiNewton.method : Method ℝ)}
  {v : Snapshot ℝ}

/-- After a set up of the quasi-Newton method, whatever is done, the first correction starts from the
identity: from the scaled one if the first step makes it, and else from the identity itself. -/
theorem first_correction_of_identity (hf : (exec subject s).1 = .ok f)
    (hset : exec (setUp c) s = (.ok v, s₀)) :
    ∃ first : QuasiNewton.State ℝ f.n, s₀.solver.state? = some ⟨f.n, first⟩ ∧
      first.updated = false ∧ Passes f c s s₀ (CorrectsIdentity first) := by
  obtain ⟨first, hstate, ⟨hidentity, hidle⟩, hpasses⟩ := passes_advances hf hset
  refine ⟨first, hstate, hidle, hpasses.mono ?_⟩
  rintro states ⟨hmarch, -⟩
  exact correctsIdentity_of_march hidentity hmarch

end Session

/-! ## Steps that take the first trial -/

section

variable {n : Nat} {s : Situation ℝ n} {it : Iterate ℝ n} {p x g : Vector ℝ n} {v : ℝ}
  {answer : (q : Question ℝ n) → Attempt ℝ (Answer q)}

/-- The first trial of a search along `p` leads from the iterate to `x`, which has the value `v` and
the gradient `g`, and is good enough to go on from. -/
structure LineStep.Leap (s : Situation ℝ n) (answer : (q : Question ℝ n) → Attempt ℝ (Answer q))
    (it : Iterate ℝ n) (p x g : Vector ℝ n) (v : ℝ) : Prop where
  preset : Preset s
  stepTol : s.options.real "step_tol" = .ok 1e-12
  valueTol : s.options.real "f_tol" = .ok 1e-14
  point : it.point + (1.0 : ℝ) * p = x
  value : answer (.value x) = .ok v
  gradient : answer (.gradient x) = .ok g
  falls : v ≤ it.value + 1e-4 * 1.0 * dot it.gradient p
  lower : v < it.value
  change : (1e-14 : ℝ) * Scalar.greater 1.0 (Scalar.abs it.value) < Scalar.abs (it.value - v)

theorem LineStep.Leap.read_descend (h : Leap s answer it p x g v) :
    ∃ alpha step, (descend s it p).read answer = .ok (some ⟨v, x, g, alpha, step⟩, .running) := by
  have hx : along s.region it.point p 1.0 = x := by
    rw [along, h.preset.region]
    exact h.point
  have hvalue := h.value
  rw [← hx] at hvalue
  obtain ⟨outcome, hsearch, halpha, -⟩ := read_searchAlong h.preset.checked h.preset.search
    (by decide) h.preset.alpha h.preset.slope h.preset.least h.preset.tries hvalue h.falls
  have hstalled : stagnates s.options it x v = .ok false := by
    rw [stagnates, h.stepTol, Attempt.ok_bind, h.valueTol, Attempt.ok_bind,
      decide_eq_false (not_le.mpr h.change)]
    exact congrArg Except.ok (Bool.and_false _)
  rw [← halpha] at hx
  have hread := LineStep.read_descend (p := p) hsearch rfl (by rw [hx]; exact h.value) rfl h.lower
    (by rw [hx]; exact hstalled) (by rw [hx]; exact h.gradient)
  rw [hx] at hread
  exact ⟨_, _, hread⟩

namespace QuasiNewton

variable {st : State ℝ n} {eps : ℝ}

/-- A leap without enough curvature keeps the approximation. -/
theorem read_step_keeps (h : LineStep.Leap s answer st.iterate p x g v)
    (hdirection : direction st = (p, st.inverse))
    (heps : s.options.real "curvature_eps" = .ok eps)
    (htest : ¬ eps * norm (x - st.iterate.point) * norm (g - st.iterate.gradient) <
      dot (x - st.iterate.point) (g - st.iterate.gradient)) (count : Nat) :
    ∃ next : State ℝ n, (step s count st).read answer = .ok (next, .running) ∧
      next.iterate.value = v ∧ next.iterate.point = x ∧ next.iterate.gradient = g ∧
      next.inverse = st.inverse ∧ next.updated = false := by
  obtain ⟨alpha, size, hread⟩ := h.read_descend
  refine ⟨⟨⟨v, x, g, alpha, size⟩, st.inverse, false⟩, ?_, rfl, rfl, rfl, rfl, rfl⟩
  rw [step, hdirection]
  refine (read_bind_of_ok hread).trans ((read_lift_bind heps).trans ?_)
  simp only [decide_eq_false htest, Bool.false_eq_true, if_false]
  rfl

/-- A leap along positive curvature corrects it. -/
theorem read_step_corrects (h : LineStep.Leap s answer st.iterate p x g v)
    (hdirection : direction st = (p, st.inverse))
    (heps : s.options.real "curvature_eps" = .ok eps) (hpositive : 0 ≤ eps)
    (htest : eps * norm (x - st.iterate.point) * norm (g - st.iterate.gradient) <
      dot (x - st.iterate.point) (g - st.iterate.gradient)) (count : Nat) :
    ∃ next : State ℝ n, (step s count st).read answer = .ok (next, .running) ∧
      next.iterate.value = v ∧ next.iterate.point = x ∧ next.iterate.gradient = g ∧
      next.updated = true ∧ next.inverse.toMatrix =
        update (uncorrected count st.inverse.toMatrix (shift st next).get (turn st next).get)
          (shift st next).get (turn st next).get := by
  obtain ⟨alpha, size, hread⟩ := h.read_descend
  obtain ⟨b, hb, hinverse⟩ :=
    correction_real count st.inverse (curved_of_test hpositive htest)
  refine ⟨⟨⟨v, x, g, alpha, size⟩, b, true⟩, ?_, rfl, rfl, rfl, rfl, hinverse⟩
  rw [step, hdirection]
  refine (read_bind_of_ok hread).trans ((read_lift_bind heps).trans ?_)
  simp only [decide_eq_true htest, if_true]
  exact read_lift_bind hb

end QuasiNewton

end

/-! ## A run without curvature at first -/

namespace Solver

open QuasiNewton

theorem dot_plane (a b c d : ℝ) : dot #v[a, b] #v[c, d] = a * c + b * d := by
  rw [dot_real, dotProduct, Fin.sum_univ_two]
  rfl

theorem ext_plane {x y : Vector ℝ 2} (hfirst : x.get 0 = y.get 0) (hsecond : x.get 1 = y.get 1) :
    x = y := by
  refine ext_get (funext fun i => ?_)
  fin_cases i
  · exact hfirst
  · exact hsecond

theorem sub_plane (a b c d : ℝ) : (#v[a, b] : Vector ℝ 2) - #v[c, d] = #v[a - c, b - d] :=
  ext_plane (by simp [get_eq_getElem]) (by simp [get_eq_getElem])

theorem norm_plane_le {a b r : ℝ} (hr : 0 ≤ r) (h : a * a + b * b ≤ r ^ 2) : norm #v[a, b] ≤ r := by
  rw [Linear.norm, dot_plane]
  exact Real.sqrt_le_iff.mpr ⟨hr, h⟩

/-- The function `x³/4 - 3x²/8 - x + y x (x - 1)` of the plane. Its gradients at the origin and at one
on the first axis are the same. -/
noncomputable def dent : Subject ℝ where
  n := 2
  objective :=
    { name := "dent"
      value := fun x => .ok (x.get 0 ^ 3 / 4.0 - 3.0 * x.get 0 ^ 2 / 8.0 - x.get 0 +
        x.get 1 * (x.get 0 * (x.get 0 - 1)))
      gradient? := some fun x => .ok #[
        3.0 * x.get 0 ^ 2 / 4.0 - 3.0 * x.get 0 / 4.0 - 1 + x.get 1 * (2.0 * x.get 0 - 1),
        x.get 0 * (x.get 0 - 1)]
      hessian? := none }

theorem dent_value {a b v : ℝ} (h : a ^ 3 / 4 - 3 * a ^ 2 / 8 - a + b * (a * (a - 1)) = v) :
    Ledger.plainAnswer (n := 2) dent.objective (.value #v[a, b]) = .ok v := by
  have hvalue : a ^ 3 / 4.0 - 3.0 * a ^ 2 / 8.0 - a + b * (a * (a - 1)) = v := by
    rw [← h]
    norm_num
  subst hvalue
  rfl

theorem dent_gradient {a b c d : ℝ} (hc : 3 * a ^ 2 / 4 - 3 * a / 4 - 1 + b * (2 * a - 1) = c)
    (hd : a * (a - 1) = d) :
    Ledger.plainAnswer (n := 2) dent.objective (.gradient #v[a, b]) = .ok #v[c, d] := by
  have hfirst : 3.0 * a ^ 2 / 4.0 - 3.0 * a / 4.0 - 1 + b * (2.0 * a - 1) = c := by
    rw [← hc]
    norm_num
  subst hfirst hd
  rfl

noncomputable def dentAccepted : Accepted ℝ dent.n := freeAccepted .quasiNewton #v[0, 0]

noncomputable def dentSituation : Situation ℝ 2 := dentAccepted.situation dent.objective.name

noncomputable def dentStart : QuasiNewton.State ℝ 2 where
  iterate := ⟨0, #v[0, 0], #v[-1, 0], 0.0, 0.0⟩
  inverse := Square.identity 2
  updated := false

theorem dent_start : ((Offer.quasiNewton.method : Method ℝ).start dentSituation
    (dentAccepted.region.project dentAccepted.start)).read
      (Ledger.plainAnswer (n := 2) dent.objective) = .ok (.state dentStart) := by
  have hvalue := dent_value (a := 0) (b := 0) (v := 0) (by norm_num)
  have hgradient := dent_gradient (a := 0) (b := 0) (c := -1) (d := 0) (by norm_num) (by norm_num)
  exact read_bind_of_ok ((read_question_bind hvalue).trans (read_question_bind hgradient))

/-- From the identity the first axis is taken. -/
theorem dent_direction {st : QuasiNewton.State ℝ 2} (hgradient : st.iterate.gradient = #v[-1, 0])
    (hinverse : st.inverse = Square.identity 2) : direction st = (#v[1, 0], st.inverse) := by
  have hsteep : st.iterate.gradient ≠ 0 := by
    rw [hgradient]
    intro hzero
    have hfirst := congrArg (fun x : Vector ℝ 2 => x.get 0) hzero
    simp [get_eq_getElem] at hfirst
  have hdefinite : st.inverse.toMatrix.PosDef := by
    rw [hinverse, Square.toMatrix_identity]
    exact .one
  have haxis : st.inverse.negate.mulVec st.iterate.gradient = #v[1, 0] := by
    refine ext_get ?_
    rw [Square.get_mulVec, Square.toMatrix_negate, hinverse, Square.toMatrix_identity, neg_mulVec,
      one_mulVec, hgradient, ← get_neg]
    exact congrArg Vector.get (ext_plane (by simp [get_eq_getElem]) (by simp [get_eq_getElem]))
  rw [direction_of_posDef hdefinite hsteep, haxis]

/-- Steps along the first axis from `a` to `b`, with the whole first trial. -/
theorem dent_leap {it : Iterate ℝ 2} {a b u v c d : ℝ} (hvalue : it.value = u)
    (hpoint : it.point = #v[a, 0]) (hgradient : it.gradient = #v[-1, 0]) (hb : a + 1 = b)
    (hv : b ^ 3 / 4 - 3 * b ^ 2 / 8 - b = v) (hc : 3 * b ^ 2 / 4 - 3 * b / 4 - 1 = c)
    (hd : b * (b - 1) = d) (hfalls : v ≤ u - 1e-4)
    (hchange : 1e-14 * Scalar.greater 1.0 (Scalar.abs u) < Scalar.abs (u - v)) :
    LineStep.Leap dentSituation (Ledger.plainAnswer (n := 2) dent.objective) it #v[1, 0] #v[b, 0]
      #v[c, d] v where
  preset := Offer.preset (o := .quasiNewton) rfl _
  stepTol := rfl
  valueTol := rfl
  point := by
    rw [hpoint, ← hb]
    exact ext_plane (by simp [get_eq_getElem]; norm_num) (by simp [get_eq_getElem])
  value := dent_value (by linear_combination hv)
  gradient := dent_gradient (by linear_combination hc) hd
  falls := by
    rw [hvalue, hgradient, dot_plane]
    norm_num at hfalls ⊢
    linarith
  lower := by
    rw [hvalue]
    norm_num at hfalls
    linarith
  change := by rwa [hvalue]

theorem dent_within {st : QuasiNewton.State ℝ 2} {a b : ℝ} (hpoint : st.iterate.point = #v[a, b])
    (hnorm : a * a + b * b ≤ (2 : ℝ) ^ 2) (hvalue : |st.iterate.value| ≤ 2) :
    Snapshot.WithinBounds dentSituation.options
      ((Offer.quasiNewton.method : Method ℝ).view st) := by
  refine ⟨Snapshot.isFinite_real _, ⟨1e12, rfl, ?_⟩, ⟨1e100, rfl, ?_⟩⟩
  · have hlength : ((Offer.quasiNewton.method : Method ℝ).view st).pointNorm = norm #v[a, b] := by
      rw [← hpoint]
      exact norm_toVector st.iterate.point
    have hle := norm_plane_le zero_le_two hnorm
    rw [hlength]
    norm_num
    linarith
  · have habs : Scalar.abs ((Offer.quasiNewton.method : Method ℝ).view st).value =
        |st.iterate.value| := rfl
    rw [habs]
    norm_num
    linarith

/-- The first step meets the same gradient again, and keeps the identity. -/
theorem dent_first_step : ∃ old : QuasiNewton.State ℝ 2,
    (QuasiNewton.step dentSituation 0 dentStart).read
      (Ledger.plainAnswer (n := 2) dent.objective) = .ok (old, .running) ∧
    old.iterate.value = -9 / 8 ∧ old.iterate.point = #v[1, 0] ∧ old.iterate.gradient = #v[-1, 0] ∧
    old.inverse = Square.identity 2 ∧ old.updated = false := by
  have hvalue : dentStart.iterate.value = 0 := rfl
  have hleap := dent_leap (b := 1) (v := -9 / 8) (c := -1) (d := 0) hvalue rfl rfl (by norm_num)
    (by norm_num) (by norm_num) (by norm_num) (by norm_num)
    (by simp [Scalar.greater, Scalar.abs]; norm_num)
  have heps : dentSituation.options.real "curvature_eps" = .ok 1e-10 := rfl
  refine QuasiNewton.read_step_keeps hleap (dent_direction rfl rfl) heps (not_lt.mpr ?_) 0
  -- the gradient is the same at both ends, so the curvature along the step is zero
  have hflat : dot (#v[1, 0] - dentStart.iterate.point) (#v[-1, 0] - dentStart.iterate.gradient) =
      0 := by
    rw [dentStart, sub_plane, sub_plane, dot_plane]
    norm_num
  rw [hflat]
  exact mul_nonneg (mul_nonneg (by norm_num) (Real.sqrt_nonneg _)) (Real.sqrt_nonneg _)

/-- The second step meets another one, and corrects what is still the identity. -/
theorem dent_second_step {old : QuasiNewton.State ℝ 2} (hvalue : old.iterate.value = -9 / 8)
    (hpoint : old.iterate.point = #v[1, 0]) (hgradient : old.iterate.gradient = #v[-1, 0])
    (hinverse : old.inverse = Square.identity 2) :
    ∃ next : QuasiNewton.State ℝ 2,
      (QuasiNewton.step dentSituation 1 old).read
        (Ledger.plainAnswer (n := 2) dent.objective) = .ok (next, .running) ∧
      next.iterate.value = -3 / 2 ∧ next.iterate.point = #v[2, 0] ∧
      next.iterate.gradient = #v[1 / 2, 2] ∧ next.updated = true ∧
      next.inverse.toMatrix = update 1 (shift old next).get (turn old next).get := by
  have hleap := dent_leap (b := 2) (v := -3 / 2) (c := 1 / 2) (d := 2) hvalue hpoint hgradient
    (by norm_num) (by norm_num) (by norm_num) (by norm_num) (by norm_num)
    (by simp [Scalar.greater, Scalar.abs]; norm_num)
  have heps : dentSituation.options.real "curvature_eps" = .ok 1e-10 := rfl
  have htest : (1e-10 : ℝ) * Linear.norm (#v[2, 0] - old.iterate.point) *
      Linear.norm (#v[1 / 2, 2] - old.iterate.gradient) <
        dot (#v[2, 0] - old.iterate.point) (#v[1 / 2, 2] - old.iterate.gradient) := by
    rw [hpoint, hgradient, sub_plane, sub_plane, dot_plane]
    -- the step has length one and the gradient turns by less than three
    have hmoved : Linear.norm #v[(2 : ℝ) - 1, 0 - 0] ≤ 1 := norm_plane_le zero_le_one (by norm_num)
    have hturned : Linear.norm #v[(1 / 2 : ℝ) - -1, 2 - 0] ≤ 3 :=
      norm_plane_le (by norm_num) (by norm_num)
    have hproduct := mul_le_mul hmoved hturned (Real.sqrt_nonneg _) zero_le_one
    rw [mul_assoc]
    exact (mul_le_mul_of_nonneg_left hproduct (by norm_num)).trans_lt (by norm_num)
  obtain ⟨next, hread, hvalue', hpoint', hgradient', hdone, hupdate⟩ :=
    QuasiNewton.read_step_corrects hleap (dent_direction hgradient hinverse) heps (by norm_num) htest 1
  rw [hinverse, Square.toMatrix_identity] at hupdate
  exact ⟨next, hread, hvalue', hpoint', hgradient', hdone, hupdate⟩

/-- The update of the identity is not that of the scaled identity: it differs across the step. -/
theorem dent_updates_differ {old next : QuasiNewton.State ℝ 2}
    (hpoint : old.iterate.point = #v[1, 0]) (hgradient : old.iterate.gradient = #v[-1, 0])
    (hpoint' : next.iterate.point = #v[2, 0]) (hgradient' : next.iterate.gradient = #v[1 / 2, 2]) :
    let s := (shift old next).get
    let y := (turn old next).get
    update 1 s y ≠ update (((s ⬝ᵥ y) / (y ⬝ᵥ y)) • 1) s y := by
  intro s y heq
  -- the forms of the two updates at the second unit vector, which is orthogonal to the step
  have hcross : s ⬝ᵥ (#v[0, 1] : Vector ℝ 2).get = 0 := by
    rw [← dot_real, shift, hpoint, hpoint', sub_plane, dot_plane]
    norm_num
  have hform : (#v[0, 1] : Vector ℝ 2).get ⬝ᵥ (update 1 s y *ᵥ (#v[0, 1] : Vector ℝ 2).get) =
      (#v[0, 1] : Vector ℝ 2).get ⬝ᵥ
        (update (((s ⬝ᵥ y) / (y ⬝ᵥ y)) • 1) s y *ᵥ (#v[0, 1] : Vector ℝ 2).get) := by
    rw [← heq]
  rw [form_update_of_orthogonal _ _ hcross, form_update_of_orthogonal _ _ hcross, smul_mulVec,
    one_mulVec, dotProduct_smul, ← dot_real, ← dot_real, ← dot_real, shift, turn, hpoint, hpoint',
    hgradient, hgradient', sub_plane, sub_plane, dot_plane, dot_plane, dot_plane, smul_eq_mul] at hform
  norm_num at hform

/-- The solver makes both steps. -/
theorem dent_runs (s : Solver (Offer.quasiNewton.method : Method ℝ)) :
    ∃ (s₀ s₁ s₂ : Solver (Offer.quasiNewton.method : Method ℝ)) (old next : QuasiNewton.State ℝ 2),
      exec (launch dent dentAccepted) s =
        (.ok ((Offer.quasiNewton.method : Method ℝ).view dentStart), s₀) ∧
      exec iterate s₀ = (.ok .running, s₁) ∧ exec iterate s₁ = (.ok .running, s₂) ∧
      s₀.state? = some ⟨2, dentStart⟩ ∧ s₁.state? = some ⟨2, old⟩ ∧ s₂.state? = some ⟨2, next⟩ ∧
      old.updated = false ∧ next.updated = true ∧
      next.inverse.toMatrix ≠ update
        ((((shift old next).get ⬝ᵥ (turn old next).get) /
          ((turn old next).get ⬝ᵥ (turn old next).get)) • 1)
        (shift old next).get (turn old next).get := by
  have hf := Objective.respectsEquality_real dent.objective
  obtain ⟨old, hread, hvalue, hpoint, hgradient, hinverse, hidle⟩ := dent_first_step
  obtain ⟨next, hread', hvalue', hpoint', hgradient', hdone, hupdate⟩ :=
    dent_second_step hvalue hpoint hgradient hinverse
  obtain ⟨s₀, hl, hs₀⟩ := exec_launch_of_read hf dent_start s
  obtain ⟨-, hcount, -, hstatus, -⟩ := exec_launch_ok hl
  have hwithin := dent_within hpoint (by norm_num) (by rw [hvalue]; norm_num)
  have hwithin' := dent_within hpoint' (by norm_num) (by rw [hvalue']; norm_num)
  obtain ⟨s₁, hi, hs₁⟩ := exec_iterate_of_read hf hs₀
    (hstatus.trans (if_pos (Snapshot.isFinite_real _)))
    (by rw [hcount]; exact read_bind_of_ok hread) (classify_of_within hwithin)
  obtain ⟨-, hrunning, -, hone, -⟩ := exec_iterate_ok hi
  obtain ⟨s₂, hi', hs₂⟩ := exec_iterate_of_read hf hs₁ hrunning
    (by rw [hone, hcount]; exact read_bind_of_ok hread') (classify_of_within hwithin')
  refine ⟨s₀, s₁, s₂, old, next, hl, hi, hi', hs₀.state_eq, hs₁.state_eq, hs₂.state_eq, hidle, hdone, ?_⟩
  rw [hupdate]
  exact dent_updates_differ hpoint hgradient hpoint' hgradient'

end Solver

namespace Session

open QuasiNewton

noncomputable def fromDent : Configuration ℝ := { start := Tensor.ofVector #v[0, 0] }

noncomputable def beforeDent : Session (Offer.quasiNewton.method : Method ℝ) :=
  { solver := Solver.new Offer.quasiNewton.method none, current := .other Solver.dent }

theorem dent_sets_up {s₀ : Solver (Offer.quasiNewton.method : Method ℝ)} {v : Snapshot ℝ}
    (h : exec (Solver.launch Solver.dent Solver.dentAccepted)
      (Solver.new Offer.quasiNewton.method none) = (.ok v, s₀)) :
    ∃ t : Session (Offer.quasiNewton.method : Method ℝ),
      exec (setUp fromDent) beforeDent = (.ok v, t) ∧ t.solver = s₀ := by
  have ha : beforeDent.solver.accept Solver.dent.n fromDent = .ok Solver.dentAccepted :=
    Solver.accept_vector (Offer.presettable .quasiNewton) _ #v[0, 0]
  exact ⟨_, exec_setUp_of_launch rfl ha h, rfl⟩

/-- The states that two steps on the dent pass through: the first correction is made by the second
step, and does not start from the scaled identity. -/
theorem dent_passes :
    ∃ (v : Snapshot ℝ) (s₀ : Session (Offer.quasiNewton.method : Method ℝ))
      (old next : QuasiNewton.State ℝ 2),
      exec (setUp fromDent) beforeDent = (.ok v, s₀) ∧
      s₀.solver.state? = some ⟨2, Solver.dentStart⟩ ∧
      s₀.passed [.step, .step] = [some ⟨2, old⟩, some ⟨2, next⟩] ∧
      old.updated = false ∧ next.updated = true ∧
      next.inverse.toMatrix ≠ update
        ((((shift old next).get ⬝ᵥ (turn old next).get) /
          ((turn old next).get ⬝ᵥ (turn old next).get)) • 1)
        (shift old next).get (turn old next).get := by
  obtain ⟨s₀, s₁, s₂, old, next, hl, hi, hi', hfirst, hold, hnext, hidle, hdone, hdiffers⟩ :=
    Solver.dent_runs (Solver.new Offer.quasiNewton.method none)
  obtain ⟨t, hset, rfl⟩ := dent_sets_up hl
  have hmoved : (t.moved .step).solver = s₁ := by
    show (exec Solver.iterate t.solver).2 = s₁
    rw [hi]
  have hmoved' : ((t.moved .step).moved .step).solver = s₂ := by
    show (exec Solver.iterate (t.moved .step).solver).2 = s₂
    rw [hmoved, hi']
  refine ⟨_, t, old, next, hset, hfirst, ?_, hidle, hdone, hdiffers⟩
  have hok : (exec iterate t).1 = .ok .running := by rw [iterate, exec_ofEngine, hi]
  have hok' : (exec iterate (t.moved .step)).1 = .ok .running := by
    rw [iterate, exec_ofEngine, hmoved, hi']
  rw [passed_step_ok hok, passed_step_ok hok', hmoved, hmoved', hold, hnext]
  rfl

theorem states_unique {m : Method ℝ} {n : Nat} {l l' : List (m.State n)}
    (h : l.map (fun st => (some ⟨n, st⟩ : Option (Σ n, m.State n))) = l'.map fun st => some ⟨n, st⟩) :
    l = l' :=
  List.map_injective_iff.mpr (fun _ _ h => eq_of_heq (Sigma.mk.inj (Option.some.inj h)).2) h

theorem idle_pair {n : Nat} {old next : QuasiNewton.State ℝ n} (hold : old.updated = false)
    (hnext : next.updated = false) : ∀ st ∈ [old] ++ [next], st.updated = false := by
  simp [hold, hnext]

/-- A run whose first correction does not start from the scaled identity. -/
theorem late_correction_unscaled :
    ∃ (v : Snapshot ℝ) (s₀ : Session (Offer.quasiNewton.method : Method ℝ))
      (first : QuasiNewton.State ℝ 2),
      exec (setUp fromDent) beforeDent = (.ok v, s₀) ∧ s₀.solver.state? = some ⟨2, first⟩ ∧
      ¬ Passes Solver.dent fromDent beforeDent s₀ (ScalesIdentity first) := by
  obtain ⟨v, s₀, old, next, hset, hfirst, hpassed, hidle, hdone, hdiffers⟩ := dent_passes
  refine ⟨v, s₀, _, hset, hfirst, fun hpasses => ?_⟩
  obtain ⟨states, hstates, hscales⟩ := hpasses.moves [.step, .step]
  obtain rfl : states = [old, next] := states_unique (hstates.symm.trans hpassed)
  exact hdiffers (hscales [Solver.dentStart] old next [] rfl (idle_pair rfl hidle) hdone)

/-- It starts from the identity itself. -/
theorem dent_corrects_identity :
    ∃ (v : Snapshot ℝ) (s₀ : Session (Offer.quasiNewton.method : Method ℝ))
      (old next : QuasiNewton.State ℝ 2),
      exec (setUp fromDent) beforeDent = (.ok v, s₀) ∧
      s₀.passed [.step, .step] = [some ⟨2, old⟩, some ⟨2, next⟩] ∧
      old.updated = false ∧ next.updated = true ∧
      next.inverse.toMatrix = update 1 (shift old next).get (turn old next).get := by
  obtain ⟨v, s₀, old, next, hset, -, hpassed, hidle, hdone, -⟩ := dent_passes
  obtain ⟨first, -, hfirst, hpasses⟩ := first_correction_of_identity rfl hset
  obtain ⟨states, hstates, hcorrects⟩ := hpasses.moves [.step, .step]
  obtain rfl : states = [old, next] := states_unique (hstates.symm.trans hpassed)
  exact ⟨v, s₀, old, next, hset, hpassed, hidle, hdone,
    hcorrects [first] old next [] rfl (idle_pair hfirst hidle) hdone⟩

end Session

end Minima
