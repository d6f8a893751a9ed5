import Mathlib.LinearAlgebra.AffineSpace.Centroid
import Mathlib.LinearAlgebra.AffineSpace.Independent
import Mathlib.LinearAlgebra.StdBasis
import Minima.Proofs.RealVectors
import Minima.Proofs.SimplexRuns

/-!
# The simplex does not degenerate

Over the reals and without constraints the vertices are affinely independent in every state. The first
simplex moves the start along each axis by a different factor than none, a vertex in the place of the
worst is on the line through it and the centre of the others, but not in the centre, and a simplex
that is drawn toward its best vertex keeps its shape. Sorting the vertices only exchanges them. So it
does not matter which steps are taken, and hence neither what the objective answers.
-/

namespace Minima

open Linear

/-! ## Affinely independent points -/

section

variable {n : Nat} {p q : Fin (n + 1) → Fin n → ℝ}

/-- The same points in another order. -/
theorem affineIndependent_of_perm (hp : AffineIndependent ℝ p)
    (h : (List.ofFn q).Perm (List.ofFn p)) : AffineIndependent ℝ q := by
  have hrange : Set.range q = Set.range p := by
    ext x
    rw [← List.mem_ofFn', ← List.mem_ofFn', h.mem_iff]
  have hinjective : Function.Injective q := by
    rw [← List.nodup_ofFn, h.nodup_iff, List.nodup_ofFn]
    exact hp.injective
  refine AffineIndependent.of_set_of_injective ?_ hinjective
  rw [hrange]
  exact hp.range

/-- The last point moved along the line through it and a point of the span of the others. -/
theorem affineIndependent_move_last (hp : AffineIndependent ℝ p) {centre : Fin n → ℝ}
    (hcentre : 0 < n → centre ∈ affineSpan ℝ (p '' {i | i ≠ Fin.last n})) {c : ℝ} (hc : c ≠ 0)
    (hlast : q (Fin.last n) = AffineMap.lineMap centre (p (Fin.last n)) c)
    (hsame : ∀ i ≠ Fin.last n, q i = p i) : AffineIndependent ℝ q := by
  rcases Nat.eq_zero_or_pos n with rfl | hn
  · have : Subsingleton (Fin (0 + 1)) := inferInstanceAs (Subsingleton (Fin 1))
    exact affineIndependent_of_subsingleton ℝ q
  have himage : q '' {i | i ≠ Fin.last n} = p '' {i | i ≠ Fin.last n} :=
    Set.image_congr hsame
  have hothers : AffineIndependent ℝ fun i : {i // i ≠ Fin.last n} => q i := by
    have heq : (fun i : {i // i ≠ Fin.last n} => q i) = fun i : {i // i ≠ Fin.last n} => p i :=
      funext fun i => hsame i i.2
    rw [heq]
    exact hp.comp_embedding (Function.Embedding.subtype _)
  refine hothers.affineIndependent_of_notMem_span fun hmem => ?_
  -- otherwise the old point would be on the same line, and so in the span of the others too
  rw [himage, hlast] at hmem
  have hback : AffineMap.lineMap centre (AffineMap.lineMap centre (p (Fin.last n)) c) c⁻¹ =
      p (Fin.last n) := by
    rw [AffineMap.lineMap_lineMap_right, inv_mul_cancel₀ hc, AffineMap.lineMap_apply_one]
  have hold := AffineMap.lineMap_mem c⁻¹ (hcentre hn) hmem
  rw [hback] at hold
  have hnot := hp.notMem_affineSpan_sdiff (Fin.last n) Set.univ
  exact hnot (by simpa [Set.sdiff_eq, Set.compl_singleton_eq] using hold)

/-- A point, and as many others, each moved along an axis of its own. -/
theorem affineIndependent_axes {c : Fin n → ℝ} (hc : ∀ i, c i ≠ 0)
    (hp : ∀ i : Fin n, p i.succ = p 0 + Pi.single i (c i)) : AffineIndependent ℝ p := by
  rw [affineIndependent_iff_linearIndependent_vsub ℝ p 0,
    ← linearIndependent_equiv (finSuccAboveEquiv (0 : Fin (n + 1)))]
  have hmoves : (fun i : {i : Fin (n + 1) // i ≠ 0} => p i -ᵥ p 0) ∘ finSuccAboveEquiv 0 =
      (fun i => Units.mk0 (c i) (hc i)) • ⇑(Pi.basisFun ℝ (Fin n)) := by
    funext i
    simp [finSuccAboveEquiv_apply, hp, Units.smul_def, ← Pi.single_smul]
  rw [hmoves]
  exact (Pi.basisFun ℝ (Fin n)).linearIndependent.units_smul _

end

theorem RealScalar.ofNat_eq (k : Nat) : (Scalar.ofNat k : ℝ) = k := by
  rw [Scalar.ofNat, NNRatCast.ofScientific_eq_ite, if_neg Bool.false_ne_true, pow_zero, mul_one,
    NNRat.cast_natCast]

/-! ## Simplices -/

namespace NelderMead

variable {n : Nat} {s : Situation ℝ n} {told : Lore ℝ n} {old simplex : Simplex ℝ n}
  {next : State ℝ n} {owner : String}

namespace Simplex

def points (simplex : Simplex ℝ n) (i : Fin (n + 1)) : Fin n → ℝ := (simplex.get i).point.get

theorem ofFn_points (simplex : Simplex ℝ n) :
    List.ofFn simplex.points = simplex.toList.map fun v => v.point.get := by
  rw [toList_eq_ofFn, List.map_ofFn]
  rfl

def Independent (simplex : Simplex ℝ n) : Prop := AffineIndependent ℝ simplex.points

theorem Rearranges.independent {next : Simplex ℝ n} (h : simplex.Rearranges next)
    (hindependent : simplex.Independent) : next.Independent := by
  refine affineIndependent_of_perm hindependent ?_
  rw [ofFn_points, ofFn_points]
  exact h.perm.map _

/-- The centre of the others is in their span, if there are others. -/
theorem centroid_mem (hn : 0 < n) (simplex : Simplex ℝ n) :
    simplex.centroid.get ∈ affineSpan ℝ (simplex.points '' {i | i ≠ Fin.last n}) := by
  have hothers : (simplex.take n).toList = List.ofFn fun i : Fin n => simplex.get i.castSucc := by
    refine List.ext_getElem (by simp) fun i hi hi' => ?_
    simp [get_eq_getElem]
  have hsum (j : Fin n) :
      (simplex.take n).foldl (fun acc v => acc + v.point.get j) (0.0 : ℝ) =
        ∑ i : Fin n, simplex.points i.castSucc j := by
    rw [← Vector.foldl_toList, hothers, RealScalar.zero_literal, ← List.sum_ofFn,
      List.sum_eq_foldl, ← List.foldl_map (f := fun v : Vertex ℝ n => v.point.get j), List.map_ofFn]
    rfl
  have hcentroid : simplex.centroid.get =
      Finset.univ.centroid ℝ fun i : Fin n => simplex.points i.castSucc := by
    funext j
    rw [Finset.centroid_def, Finset.affineCombination_eq_linear_combination _ _ _
      (Finset.sum_centroidWeights_eq_one_of_card_ne_zero ℝ _ (by simpa using hn.ne'))]
    rw [centroid, get_ofFn, hsum, RealScalar.ofNat_eq]
    simp [Finset.mul_sum, div_eq_inv_mul]
  rw [hcentroid]
  have hmem := centroid_mem_affineSpan_of_card_ne_zero ℝ (s := (Finset.univ : Finset (Fin n)))
    (fun i => simplex.points i.castSucc) (by simpa using hn.ne')
  refine affineSpan_mono ℝ ?_ hmem
  rintro _ ⟨i, -, rfl⟩
  exact ⟨i.castSucc, Fin.castSucc_ne_last i, rfl⟩

/-- Another vertex on the line through the centre of the others and the worst, but not in the
centre. -/
theorem Independent.replaceWorst (h : simplex.Independent) {v : Vertex ℝ n} {c : ℝ} (hc : c ≠ 0)
    (hv : v.point.get = AffineMap.lineMap simplex.centroid.get simplex.worst.point.get c) :
    Independent (simplex.replaceWorst v) := by
  refine affineIndependent_move_last h (fun hn => centroid_mem hn simplex) hc ?_ fun i hi => ?_
  · have hlast : (simplex.replaceWorst v).get (Fin.last n) = v := Vector.getElem_set_self _
    rw [points, hlast, hv]
    rfl
  · have hne : n ≠ i.val := fun heq => hi (Fin.ext heq.symm)
    have hkept : (simplex.replaceWorst v).get i = simplex.get i := Vector.getElem_set_ne _ _ hne
    rw [points, hkept]
    rfl

/-- All vertices drawn toward the best one. -/
theorem Independent.drawn (h : simplex.Independent) {drawn : Vector (Vertex ℝ n) n} {sigma : ℝ}
    (hsigma : sigma ≠ 0)
    (hdrawn : ∀ i : Fin n, (drawn.get i).point.get =
      AffineMap.lineMap simplex.best.point.get (simplex.get i.succ).point.get sigma) :
    Independent (assemble simplex.best drawn) := by
  have hpoints : points (assemble simplex.best drawn) =
      AffineMap.homothety simplex.best.point.get sigma ∘ simplex.points := by
    funext i
    rw [points, assemble, get_cons]
    cases i using Fin.cases with
    | zero => exact (AffineMap.homothety_apply_same _ _).symm
    | succ i => exact (hdrawn i).trans (AffineMap.homothety_eq_lineMap _ _ _).symm
  rw [Independent, hpoints]
  exact AffineIndependent.map' h _ (AffineMap.homothety_injective _ hsigma)

end Simplex

/-! ## Steps -/

/-- A factor that is read is the number that the check has seen. -/
theorem real_of_factor {options : Options ℝ} {key : String} {x : ℝ}
    (h : factor options key = .ok x) : options.real key = .ok x := by
  obtain ⟨given, hgiven, hx⟩ := Attempt.bind_eq_ok.mp h
  rw [Options.real, hgiven]
  cases given with
  | text text => cases hx
  | _ => exact hx

/-- What the checks of the method say of the factors that steps read. -/
theorem factor_covered {options : Options ℝ} {key : String} {range : OptionRange} {x : ℝ}
    (hrange : options.InRange range key) (h : factor options key = .ok x) : range.covers x = true := by
  obtain ⟨y, hy, hcovers⟩ := hrange
  obtain rfl : y = x := Except.ok.inj (hy.symm.trans (real_of_factor h))
  exact hcovers

theorem factors_ne_zero {options : Options ℝ} (h : validate owner options = .ok ()) {key : String}
    (hkey : key ∈ ["alpha", "gamma", "rho", "sigma"]) {x : ℝ} (hx : factor options key = .ok x) :
    x ≠ 0 := by
  obtain ⟨halpha, hgamma, hrho, hsigma, -⟩ := validate_eq_ok_iff.mp h
  simp only [List.mem_cons, List.not_mem_nil, or_false] at hkey
  rcases hkey with rfl | rfl | rfl | rfl
  · have hcovers := factor_covered halpha hx
    norm_num [OptionRange.covers] at hcovers
    exact hcovers.ne'
  · have hcovers := factor_covered hgamma hx
    norm_num [OptionRange.covers] at hcovers
    exact (zero_lt_one.trans hcovers).ne'
  · have hcovers := factor_covered hrho hx
    norm_num [OptionRange.covers] at hcovers
    exact hcovers.1.ne'
  · have hcovers := factor_covered hsigma hx
    norm_num [OptionRange.covers] at hcovers
    exact hcovers.1.ne'

/-- Without constraints all points that are tried are on the line through the worst vertex and the
centre of the others, and none of them is the centre. -/
theorem Tried.on_line (h : validate owner s.options = .ok ()) (hfree : s.region = .everywhere)
    {stepType : String} {x : Vector ℝ n} (hx : Tried s old stepType x) :
    ∃ c : ℝ, c ≠ 0 ∧ x.get = AffineMap.lineMap old.centroid.get old.worst.point.get c := by
  cases hx with
  | @reflection alpha halpha =>
      refine ⟨-alpha, neg_ne_zero.mpr (factors_ne_zero h (by simp) halpha), ?_⟩
      rw [reflectedTo, hfree, Region.project, AffineMap.lineMap_apply_module']
      simp only [get_add, get_smul, get_sub]
      module
  | @expansion alpha gamma halpha hgamma =>
      refine ⟨-(gamma * alpha), neg_ne_zero.mpr (mul_ne_zero (factors_ne_zero h (by simp) hgamma)
        (factors_ne_zero h (by simp) halpha)), ?_⟩
      rw [reflectedTo, hfree, Region.project, Region.project, AffineMap.lineMap_apply_module']
      simp only [get_add, get_smul, get_sub]
      module
  | @outside alpha rho halpha hrho =>
      refine ⟨-(rho * alpha), neg_ne_zero.mpr (mul_ne_zero (factors_ne_zero h (by simp) hrho)
        (factors_ne_zero h (by simp) halpha)), ?_⟩
      rw [reflectedTo, hfree, Region.project, Region.project, AffineMap.lineMap_apply_module']
      simp only [get_add, get_smul, get_sub]
      module
  | @inside rho hrho =>
      refine ⟨rho, factors_ne_zero h (by simp) hrho, ?_⟩
      rw [hfree, Region.project, AffineMap.lineMap_apply_module']
      simp only [get_smul, get_sub]
      module

/-- The vertices stay affinely independent. -/
theorem Advance.independent (h : validate owner s.options = .ok ()) (hfree : s.region = .everywhere)
    (hadvance : Advance s told old next) (hold : old.Independent) : next.simplex.Independent := by
  cases hadvance with
  | replaces v htried hvalue hbelow hnext =>
      obtain ⟨c, hc, hv⟩ := htried.on_line h hfree
      exact hnext.independent (hold.replaceWorst hc hv)
  | shrinks drawn hname hdrawn hnext =>
      refine hnext.independent ?_
      rcases Nat.eq_zero_or_pos n with rfl | hn
      · have : Subsingleton (Fin (0 + 1)) := inferInstanceAs (Subsingleton (Fin 1))
        exact affineIndependent_of_subsingleton ℝ _
      · -- all vertices are drawn by the same factor
        obtain ⟨sigma, hsigma, -⟩ := hdrawn ⟨0, hn⟩
        refine hold.drawn (factors_ne_zero h (by simp) hsigma) fun i => ?_
        obtain ⟨sigma', hsigma', hfound⟩ := hdrawn i
        obtain rfl : sigma = sigma' := Except.ok.inj (hsigma.symm.trans hsigma')
        rw [hfound.point, hfree, Region.project, AffineMap.lineMap_apply_module']
        simp only [get_add, get_smul, get_sub]
        module

/-- A corner of the first simplex is beside the start, along its axis and away from zero. -/
theorem corner_beside {scale : ℝ} (hscale : 0 < scale) (x : Vector ℝ n) (i : Fin n) :
    ∃ c : ℝ, c ≠ 0 ∧ (c < 0 ↔ x.get i < 0) ∧ (corner scale x i).get = x.get + Pi.single i c := by
  have hset (y : ℝ) : (x.set i.val y i.isLt).get = x.get + Pi.single i (y - x.get i) := by
    funext j
    by_cases hj : j = i
    · subst hj
      simp [get_eq_getElem]
    · have hne : i.val ≠ j.val := fun heq => hj (Fin.ext heq.symm)
      simp [get_eq_getElem, hj, hne]
  by_cases hzero : x.get i = 0
  · refine ⟨scale - x.get i, ?_, ?_, ?_⟩
    · rw [hzero, sub_zero]
      exact hscale.ne'
    · rw [hzero, sub_zero]
      exact iff_of_false hscale.not_gt (lt_irrefl 0)
    · rw [corner, if_pos ((RealScalar.beq_iff _ _).mpr (hzero.trans RealScalar.zero_literal.symm))]
      exact hset scale
  · have hmove : (1.0 + scale) * x.get i - x.get i = scale * x.get i := by
      rw [RealScalar.one_literal, add_mul, one_mul, add_sub_cancel_left]
    refine ⟨(1.0 + scale) * x.get i - x.get i, ?_, ?_, ?_⟩
    · rw [hmove]
      exact mul_ne_zero hscale.ne' hzero
    · rw [hmove, ← not_le, ← not_le, mul_nonneg_iff_of_pos_left hscale]
    · rw [corner, if_neg]
      · exact hset _
      · rw [RealScalar.beq_iff, RealScalar.zero_literal]
        exact hzero

/-- Before it is sorted, the first simplex is made of the start and of its corners, each brought into
the region. -/
theorem Opens.unsorted (h : validate owner s.options = .ok ()) {x : Vector ℝ n} {first : State ℝ n}
    (hopens : Opens s told x first) :
    ∃ (scale : ℝ) (unsorted : Simplex ℝ n), 0 < scale ∧ unsorted.Rearranges first.simplex ∧
      unsorted.points 0 = x.get ∧
      ∀ i : Fin n, unsorted.points i.succ = (s.region.project (corner scale x i)).get := by
  obtain ⟨scale, origin, rest, hscale, horigin, -, hrest, hfirst⟩ := hopens.corners
  obtain ⟨-, -, -, -, scale', hscale', hcovers⟩ := validate_eq_ok_iff.mp h
  obtain rfl : scale' = scale := Except.ok.inj (hscale'.symm.trans hscale)
  have hpositive : 0 < scale' := by norm_num [OptionRange.covers] at hcovers; exact hcovers
  refine ⟨scale', assemble origin rest, hpositive, hfirst, ?_, fun i => ?_⟩
  · rw [Simplex.points, assemble, get_cons, Fin.cons_zero, horigin]
  · rw [Simplex.points, assemble, get_cons, Fin.cons_succ, (hrest i).point]

theorem Opens.independent (h : validate owner s.options = .ok ()) (hfree : s.region = .everywhere)
    {x : Vector ℝ n} {first : State ℝ n} (hopens : Opens s told x first) :
    first.simplex.Independent := by
  obtain ⟨scale, unsorted, hpositive, hfirst, hzero, hsucc⟩ := hopens.unsorted h
  choose c hc _ hcorner using corner_beside hpositive x
  refine hfirst.independent (affineIndependent_axes hc fun i => ?_)
  rw [hzero, hsucc, hfree, Region.project, hcorner]

end NelderMead

/-! ## Runs -/

/-- A snapshot shows one point more than there are variables, and they are affinely independent. -/
def Snapshot.Independent (n : Nat) (v : Snapshot ℝ) : Prop :=
  ∃ columns : Fin (n + 1) → Vector ℝ n,
    v.points = List.ofFn (fun i => (columns i).toArray) ∧
      AffineIndependent ℝ fun i => (columns i).get

theorem NelderMead.State.independent_view {n : Nat} {st : State ℝ n} (h : st.simplex.Independent) :
    st.view.Independent n := by
  refine ⟨fun i => (st.simplex.get i).point, ?_, h⟩
  rw [points_view, toList_eq_ofFn, List.map_ofFn]
  rfl

namespace Solver

open NelderMead

variable {f : Subject ℝ} {a : Accepted ℝ f.n} {owner : String}

/-- The simplex method carries along that its vertices are affinely independent, whatever the
objective answers. -/
theorem carries_independent (h : NelderMead.validate owner a.options = .ok ())
    (hfree : a.region = .everywhere) :
    Carries (m := Offer.nelderMead.method) f a (fun _ => True) fun st : NelderMead.State ℝ f.n =>
      Tidy a (fun _ _ => True) st ∧ st.simplex.Independent := by
  have hanswer : ∀ (q : Question ℝ f.n) (l : Ledger ℝ f.n), True →
      True ∧ ∀ r, (Ledger.answer f.objective q l).1 = .ok r → True :=
    fun _ _ _ => ⟨trivial, fun _ _ => trivial⟩
  have htidy := carries_tidy hanswer a trivial
  refine ⟨⟨trivial, fun st hst => ⟨htidy.start.2 st hst, ?_⟩⟩, fun ledger count st _ hst => ?_⟩
  · exact (opens_of_opening hanswer trivial hst).independent h hfree
  · refine ⟨trivial, fun next reported hmade => ?_⟩
    refine ⟨(htidy.step ledger count st trivial hst.1).2 next reported hmade, ?_⟩
    have hadvance := advances_of_attemptStep hanswer trivial hst.1.sorted hmade
    exact hadvance.independent h hfree hst.2

end Solver

namespace Session

variable {f : Subject ℝ} {c : Configuration ℝ} {s s₀ : Session (Offer.nelderMead.method : Method ℝ)}
  {v : Snapshot ℝ}

/-- After a set up of the simplex method without constraints the vertices are affinely independent in
the first state and in every other one, whatever is done and asked, and so they are in all that a run
shows. -/
theorem simplices_stay_independent (hf : (exec subject s).1 = .ok f)
    (hset : exec (setUp c) s = (.ok v, s₀)) (hfree : c.constraints = .free) :
    (∀ moves, ∃ u, (s₀.after moves).solver.snapshot? = some u ∧ u.Independent f.n) ∧
      ∀ (σ : Type) (order : Solver.Order ℝ) (w : Solver.Watcher ℝ σ) (seen : σ) (r : Results ℝ)
        (final : Solver (Offer.nelderMead.method : Method ℝ) × σ), order.toConfiguration = c →
        exec (Solver.solveWatched f order w) (s.solver, seen) = (.ok r, final) →
        ∀ u ∈ r.final :: r.history.toList, u.Independent f.n := by
  obtain ⟨a, ha, hl⟩ := exec_setUp_ok hf hset
  have hvalid := Solver.validate_of_accept ha
  have hcarries := Solver.carries_independent hvalid (Solver.everywhere_of_accept ha hfree)
  refine ⟨fun moves => ?_, ?_⟩
  · have hafter := upholds_moves queriesKeep_anything hcarries (hcarries.launch hl) moves
    obtain ⟨st, ⟨-, hindependent⟩, hst⟩ := hafter.state
    exact ⟨_, Solver.snapshot?_of_state hst, NelderMead.State.independent_view hindependent⟩
  · rintro σ order w seen r final rfl hr u hu
    obtain ⟨a', -, -, -, -, -, haccept, -⟩ := Solver.chronicle_of_exec_solveWatched hr
    obtain rfl : a = a' := Except.ok.inj (ha.symm.trans (Solver.accept_of_acceptOrder haccept))
    obtain ⟨st, ⟨-, hindependent⟩, rfl⟩ := Solver.shown_of_solveWatched haccept hcarries
      (fun _ _ _ => trivial) (fun _ _ _ _ _ => trivial) hr u hu
    exact NelderMead.State.independent_view hindependent

theorem saddle_stays_independent :
    ∃ v s₀ r final, exec (setUp Solver.onSaddle)
        { solver := Solver.new Offer.nelderMead.method none, current := .other Solver.saddle } =
          (.ok v, s₀) ∧
      (∃ u, (s₀.after [.step, .step]).solver.snapshot? = some u ∧ u.Independent 2) ∧
      exec (Solver.solve Solver.saddle Solver.twoStepsOnSaddle fun _ _ (_ : Unit) => ())
        (Solver.new Offer.nelderMead.method none, ()) = (.ok r, final) ∧ 0 < r.history.size ∧
      ∀ u ∈ r.final :: r.history.toList, u.Independent 2 := by
  obtain ⟨v, s₀, hset⟩ := saddle_starts .nelderMead
  obtain ⟨r, final, hr⟩ :=
    Solver.saddle_run_returns (o := .nelderMead) rfl (Solver.new Offer.nelderMead.method none)
  obtain ⟨hmoves, hruns⟩ := simplices_stay_independent rfl hset rfl
  exact ⟨v, s₀, r, final, hset, hmoves [.step, .step], hr, Solver.history_ne_of_real hr,
    hruns Unit _ _ () r final rfl hr⟩

end Session

end Minima
