import Minima.Scalar.Real
import Minima.Proofs.CholeskyFactor
import Minima.Proofs.InverseUpdates
import Minima.Proofs.Presets
import Minima.Proofs.StepBudgets

/-!
# Newton's direction over the reals

Over the reals the ladder of dampings looks at zero and then at the first damping times the powers of
ten, and a rung within the limit is refused exactly if it leaves the symmetric part of the Hessian
indefinite. The rungs grow, so there is a direction exactly if some damping up to the limit makes that
matrix positive definite. The direction is then the only solution for the first such damping, and it
leads downhill unless the gradient vanishes.
-/

namespace Minima.Newton

open Linear Matrix

variable {n : Nat} {g : Vector ℝ n} {h : Square ℝ n} {first scale limit damping : ℝ} {k : ℕ}

/-! ## Dampings -/

/-- The dampings in order: zero, and the first one times the powers of ten. -/
noncomputable def tried (first : ℝ) : ℕ → ℝ
  | 0 => 0
  | k + 1 => first * 10.0 ^ k

/-- The symmetric part of the Hessian with a damping on its diagonal. -/
noncomputable def dampedPart (h : Square ℝ n) (damping : ℝ) : Matrix (Fin n) (Fin n) ℝ :=
  (0.5 : ℝ) • (h.toMatrix + h.toMatrixᵀ) + damping • 1

/-- Some damping up to the limit makes the Hessian positive definite. -/
def Dampable (first limit : ℝ) (h : Square ℝ n) : Prop :=
  ∃ k, tried first k ≤ limit ∧ (dampedPart h (tried first k)).PosDef

/-- The damping is the first one that makes the Hessian positive definite, and within the limit. -/
structure FirstDefinite (first limit : ℝ) (h : Square ℝ n) (k : ℕ) : Prop where
  within : tried first k ≤ limit
  definite : (dampedPart h (tried first k)).PosDef
  earlier : ∀ j < k, ¬ (dampedPart h (tried first j)).PosDef

theorem tried_succ (first : ℝ) (k : ℕ) : tried first (k + 1) = first * 10 ^ k := by
  have hten : (10.0 : ℝ) = 10 := by norm_num
  rw [tried, hten]

theorem rung_real (hfirst : 0 < first) (k : ℕ) : rung first k = tried first k := by
  cases k with
  | zero => exact RealScalar.zero_literal
  | succ k =>
      have hraised : raised first 0.0 = first := if_pos ((RealScalar.beq_iff _ _).mpr rfl)
      rw [rung, Function.iterate_succ_apply, hraised, iterate_raised_real hfirst, tried_succ]

theorem tried_mono (hfirst : 0 < first) : Monotone (tried first) := by
  refine monotone_nat_of_le_succ fun k => ?_
  cases k with
  | zero =>
      rw [tried, tried_succ]
      positivity
  | succ k =>
      rw [tried_succ, tried_succ]
      exact mul_le_mul_of_nonneg_left (pow_le_pow_right₀ (by norm_num) k.le_succ) hfirst.le

/-- A damping beyond the limit is among those that the ladder may look at. -/
theorem exists_tried_past (hfirst : 0 < first) (scale : ℝ) :
    ∃ k ≤ Scalar.decades scale + 2, ¬ tried first k ≤ first * scale := by
  refine ⟨⌈scale⌉₊ + 1, Nat.le_succ _, not_le.mpr ?_⟩
  have hpower : scale < 10 ^ ⌈scale⌉₊ := by
    calc scale ≤ (⌈scale⌉₊ : ℝ) := Nat.le_ceil scale
      _ < 10 ^ ⌈scale⌉₊ := by exact_mod_cast Nat.lt_pow_self (by norm_num)
  rw [tried_succ]
  exact mul_lt_mul_of_pos_left hpower hfirst

/-! ## Rungs -/

theorem toMatrix_damped (h : Square ℝ n) (damping : ℝ) :
    (damped (symmetrized h) damping).toMatrix = dampedPart h damping := by
  rw [damped, symmetrized, Square.toMatrix_add, Square.toMatrix_scale, Square.toMatrix_scale,
    Square.toMatrix_add, Square.toMatrix_transpose, Square.toMatrix_identity, dampedPart]

theorem isSymm_damped (h : Square ℝ n) (damping : ℝ) :
    (damped (symmetrized h) damping).toMatrix.IsSymm := by
  rw [toMatrix_damped]
  ext i j
  simp [dampedPart, one_apply, add_comm, eq_comm]

/-- A rung is refused if it lies within the limit and leaves the Hessian indefinite. -/
theorem refused_iff :
    Refused (symmetrized h) limit damping ↔
      damping ≤ limit ∧ ¬ (dampedPart h damping).PosDef := by
  rw [← toMatrix_damped, ← cholesky?_isSome_iff (isSymm_damped h damping), Bool.not_eq_true,
    Option.isSome_eq_false_iff, Option.isNone_iff_eq_none]
  exact ⟨fun hrefused => ⟨hrefused.within, hrefused.indefinite⟩, fun ⟨hwithin, hnone⟩ =>
    ⟨hwithin, hnone⟩⟩

/-- The damped system of a positive definite rung has one solution. -/
theorem mulVec_eq_neg_iff {p : Vector ℝ n} (hdefinite : (dampedPart h damping).PosDef)
    (hp : dampedPart h damping *ᵥ p.get = -g.get) (q : Vector ℝ n) :
    dampedPart h damping *ᵥ q.get = -g.get ↔ q = p := by
  constructor
  · intro hq
    exact ext_get (mulVec_injective_of_isUnit hdefinite.isUnit (hq.trans hp.symm))
  · rintro rfl
    exact hp

/-- The solution leads downhill. -/
theorem downhill_of_solution {p : Vector ℝ n} (hdefinite : (dampedPart h damping).PosDef)
    (hp : dampedPart h damping *ᵥ p.get = -g.get) (hg : g ≠ 0) : dot g p < 0 := by
  have hgradient : g.get = -(dampedPart h damping *ᵥ p.get) := by rw [hp, neg_neg]
  have hne : p.get ≠ 0 := by
    intro hzero
    rw [hzero, mulVec_zero, neg_zero] at hgradient
    exact hg (get_eq_zero_iff.mp hgradient)
  have hform := hdefinite.dotProduct_mulVec_pos hne
  rw [star_trivial] at hform
  rw [dot_real, hgradient, neg_dotProduct, dotProduct_comm]
  exact neg_neg_of_pos hform

/-! ## Directions -/

/-- What a direction and its damping have to do with a gradient and a Hessian. -/
structure Finds (first limit : ℝ) (g : Vector ℝ n) (h : Square ℝ n)
    (found : Option (Vector ℝ n) × ℝ) : Prop where
  isSome_iff : found.1.isSome = true ↔ Dampable first limit h
  first : ∀ p, found.1 = some p → ∃ k, found.2 = tried first k ∧ FirstDefinite first limit h k
  solution : ∀ p, found.1 = some p → ∀ q, dampedPart h found.2 *ᵥ q.get = -g.get ↔ q = p
  downhill : ∀ p, found.1 = some p → g ≠ 0 → dot g p < 0

theorem finds_none (hfirst : 0 < first) (hpast : ¬ tried first k ≤ limit)
    (hrefused : ∀ j < k, Refused (symmetrized h) limit (tried first j)) :
    Finds first limit g h (none, tried first k) := by
  refine ⟨⟨nofun, fun hdampable => ?_⟩, nofun, nofun, nofun⟩
  obtain ⟨j, hwithin, hdefinite⟩ := hdampable
  -- an earlier damping was refused, and a later one is beyond the limit as well
  rcases Nat.lt_or_ge j k with hj | hj
  · exact absurd hdefinite (refused_iff.mp (hrefused j hj)).2
  · exact absurd ((tried_mono hfirst hj).trans hwithin) hpast

theorem finds_some {p : Vector ℝ n} (hk : FirstDefinite first limit h k)
    (hp : dampedPart h (tried first k) *ᵥ p.get = -g.get) :
    Finds first limit g h (some p, tried first k) where
  isSome_iff := ⟨fun _ => ⟨k, hk.within, hk.definite⟩, fun _ => rfl⟩
  first _ _ := ⟨k, rfl, hk⟩
  solution := by
    rintro _ ⟨⟩
    exact mulVec_eq_neg_iff hk.definite hp
  downhill := by
    rintro _ ⟨⟩
    exact downhill_of_solution hk.definite hp

/-- The ladder finds the direction for the first damping that makes the Hessian positive definite, if
there is one up to the limit. -/
theorem ladder_finds (hfirst : 0 < first) (scale : ℝ) (g : Vector ℝ n) (h : Square ℝ n) :
    ∃ found, ladder (symmetrized h) g first (first * scale) (Scalar.decades scale + 2) 0.0 =
      .ok found ∧ Finds first (first * scale) g h found := by
  have hrung (j : ℕ) : (raised first)^[j] 0.0 = tried first j := rung_real hfirst j
  have hends : ∃ k ≤ Scalar.decades scale + 2,
      ¬ Refused (symmetrized h) (first * scale) ((raised first)^[k] 0.0) := by
    obtain ⟨k, hk, hpast⟩ := exists_tried_past hfirst scale
    exact ⟨k, hk, fun hrefused => hpast (hrung k ▸ hrefused.within)⟩
  obtain ⟨k, hlands, hrefused, hladder⟩ := ladder_lands (g := g) hends
  simp only [hrung] at hlands hrefused hladder
  rw [hladder]
  -- the first rung that is not refused has a factor, or it is beyond the limit
  by_cases hwithin : tried first k ≤ first * scale
  · have hdefinite : (dampedPart h (tried first k)).PosDef := by
      by_contra hindefinite
      exact hlands (refused_iff.mpr ⟨hwithin, hindefinite⟩)
    have hmatrix := hdefinite
    rw [← toMatrix_damped] at hmatrix
    obtain ⟨l, hl, hfactor⟩ := cholesky?_posDef hmatrix
    obtain ⟨p, hp, hsolves⟩ := solveFactored_posDef hmatrix hfactor (-g)
    refine ⟨(some p, tried first k), ?_, finds_some ⟨hwithin, hdefinite, fun j hj =>
      (refused_iff.mp (hrefused j hj)).2⟩ ?_⟩
    · rw [ladder_found hwithin hl, hp]
      rfl
    · rw [← toMatrix_damped, ← Square.get_mulVec, hsolves, get_neg]
  · exact ⟨(none, tried first k), ladder_past hwithin, finds_none hfirst hwithin hrefused⟩

/-! ## Steps -/

theorem pointsDownhill_iff {p : Vector ℝ n} : pointsDownhill g p = true ↔ dot g p < 0 := by
  have hfinite : Linear.isFinite p = true := by simp [Linear.isFinite]
  rw [pointsDownhill, hfinite, RealScalar.zero_literal]
  simp

/-- Where the gradient vanishes, no direction is good. -/
theorem filter_pointsDownhill_of_flat (hg : g = 0) (p? : Option (Vector ℝ n)) :
    p?.filter (pointsDownhill g) = none := by
  refine Option.filter_eq_none_iff.mpr fun p _ => ?_
  rw [pointsDownhill_iff, hg, zero_dot]
  exact lt_irrefl 0

def arrive {R : Type} (st : State R n) (damping : R) (steepest : Bool) :
    Option (Iterate R n) × Status → State R n × Status
  | (none, status) => (st, status)
  | (some next, status) => ({ iterate := next, found? := some (damping, steepest) }, status)

/-- Where a step is headed: along the direction that was found, or along the negative gradient. -/
structure Heads (first limit : ℝ) (g : Vector ℝ n) (h : Square ℝ n) (p : Vector ℝ n) (damping : ℝ)
    (steepest : Bool) : Prop where
  steepest_iff : steepest = true ↔ ¬ Dampable first limit h ∨ g = 0
  gradient : steepest = true → p = -g
  found : steepest = false → Finds first limit g h (some p, damping)
  downhill : g ≠ 0 → dot g p < 0

theorem dot_neg_self (hg : g ≠ 0) : dot g (-g) < 0 := by
  have hself : g.get ⬝ᵥ g.get ≠ 0 := by
    rw [Ne, dotProduct_self_eq_zero]
    exact mt get_eq_zero_iff.mp hg
  rw [dot_real, get_neg, dotProduct_neg]
  exact neg_neg_of_pos ((dotProduct_star_self_nonneg g.get).lt_of_ne' hself)

theorem Finds.heads {p? : Option (Vector ℝ n)} (hfound : Finds first limit g h (p?, damping)) :
    Heads first limit g h ((p?.filter (pointsDownhill g)).getD (-g)) damping
      (p?.filter (pointsDownhill g)).isNone := by
  cases p? with
  | none =>
      have hnone : ¬ Dampable first limit h := fun hdampable => nomatch hfound.isSome_iff.mpr hdampable
      exact ⟨⟨fun _ => .inl hnone, fun _ => rfl⟩, fun _ => rfl, nofun, dot_neg_self⟩
  | some p =>
      have hdampable : Dampable first limit h := hfound.isSome_iff.mp rfl
      by_cases hg : g = 0
      · -- a direction that was found is level, and given up
        rw [filter_pointsDownhill_of_flat hg]
        exact ⟨⟨fun _ => .inr hg, fun _ => rfl⟩, fun _ => rfl, nofun, absurd hg⟩
      · have hdownhill := hfound.downhill p rfl hg
        rw [Option.filter_some_pos (pointsDownhill_iff.mpr hdownhill)]
        refine ⟨⟨nofun, ?_⟩, nofun, fun _ => hfound, fun _ => hdownhill⟩
        rintro (hnone | hzero)
        · exact absurd hdampable hnone
        · exact absurd hzero hg

/-- With options that pass the check, the direction belongs to the first damping up to the limit that
makes the Hessian positive definite, and there is none exactly if there is no such damping. A step
searches along it, or along the negative gradient if there is none or the gradient vanishes, and the
search begins downhill wherever there is a slope. -/
theorem steps_along_first_definite {s : Situation ℝ n} {owner : String}
    (hvalid : validate owner s.options = .ok ()) :
    ∃ first scale, s.options.real "reg_lambda" = .ok first ∧
      s.options.real "max_reg_scale" = .ok scale ∧
      (∀ (g : Vector ℝ n) (h : Square ℝ n), ∃ found, direction s.options g h = .ok found ∧
        Finds first (first * scale) g h found) ∧
      ∀ st : State ℝ n, ∃ next, step s st = .ask (.hessian st.iterate.point) next ∧
        ∀ h, ∃ p damping steepest,
          next h = ((LineStep.descend s st.iterate p).bind fun r =>
            .done (arrive st damping steepest r)) ∧
          Heads first (first * scale) st.iterate.gradient h p damping steepest := by
  obtain ⟨-, ⟨first, hfirst, hpositive⟩, scale, hscale, -⟩ := validate_eq_ok_iff.mp hvalid
  have hpos : 0 < first := by
    simpa [OptionRange.covers, RealScalar.zero_literal] using hpositive
  have hdirection (g : Vector ℝ n) (h : Square ℝ n) :
      ∃ found, direction s.options g h = .ok found ∧ Finds first (first * scale) g h found := by
    rw [direction_eq_ladder hfirst hscale]
    exact ladder_finds hpos scale g h
  refine ⟨first, scale, hfirst, hscale, hdirection, fun st => ⟨_, rfl, fun h => ?_⟩⟩
  obtain ⟨⟨p?, damping⟩, hfound, hfinds⟩ := hdirection st.iterate.gradient h
  refine ⟨_, damping, _, ?_, hfinds.heads⟩
  show (liftM (direction s.options st.iterate.gradient h) >>= _ : Consult ℝ n _) = _
  rw [hfound]
  refine congrArg (Dialogue.bind (LineStep.descend s st.iterate _)) (funext fun r => ?_)
  rcases r with ⟨_ | next, status⟩ <;> rfl

theorem posDef_dampedPart_cap (hdamping : 1 < damping) :
    (dampedPart (#v[#v[-1]] : Square ℝ 1) damping).PosDef := by
  have hdiagonal : dampedPart (#v[#v[-1]] : Square ℝ 1) damping = diagonal fun _ => damping - 1 := by
    ext i j
    obtain rfl := Subsingleton.elim i 0
    obtain rfl := Subsingleton.elim j 0
    simp [dampedPart, Square.toMatrix_apply, get_eq_getElem]
    ring
  rw [hdiagonal]
  exact .diagonal fun _ => sub_pos.mpr hdamping

/-- On the way down from a cap the default dampings find a direction. -/
theorem cap_is_damped :
    validate "Newton method" (method : Method ℝ).defaults = .ok () ∧
      ∃ p damping, direction (method : Method ℝ).defaults #v[1] #v[#v[-1]] =
        .ok (some p, damping) ∧ dot #v[1] p < 0 := by
  have hvalid := Offer.newton.validate_defaults (R := ℝ) "Newton method"
  obtain ⟨first, scale, hfirst, hscale, hfinds, -⟩ := steps_along_first_definite
    (s := { label := "cap", options := (method : Method ℝ).defaults, region := .everywhere }) hvalid
  obtain rfl : (1e-6 : ℝ) = first := Except.ok.inj hfirst
  obtain rfl : (1e10 : ℝ) = scale := Except.ok.inj hscale
  obtain ⟨⟨p?, damping⟩, hdirection, hfound⟩ := hfinds #v[1] #v[#v[-1]]
  have hdampable : Dampable (1e-6 : ℝ) (1e-6 * 1e10) #v[#v[-1]] :=
    ⟨8, by norm_num [tried], posDef_dampedPart_cap (by norm_num [tried])⟩
  obtain ⟨p, rfl⟩ := Option.isSome_iff_exists.mp (hfound.isSome_iff.mpr hdampable)
  refine ⟨hvalid, p, damping, hdirection, hfound.downhill p rfl ?_⟩
  intro hflat
  have hslope := congrFun (congrArg Vector.get hflat) 0
  simp [get_eq_getElem] at hslope

end Minima.Newton
