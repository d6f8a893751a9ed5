import Minima.Proofs.CubicRounds

/-!
# Cubic interpolation of a parabola

The cubic through four samples of a parabola is the parabola, so its only stationary point is the
minimum. The first round asks there, unless the minimum is one of the outer points of the grid or very
near to a point of it. As the best sample is never dropped, what is reported in the end is the minimum or,
in the other case, no farther from it than that point of the grid.
-/

namespace Minima.LineSearch

open Dialogue Linear Scalar Scalar.Exact

variable {phi : ℝ → ℝ} {lead slope height m : ℝ}

/-- A parabola that is open above, by its coefficients, and where it is least. -/
structure Parabola (phi : ℝ → ℝ) (lead slope height m : ℝ) : Prop where
  lead_pos : 0 < lead
  value : ∀ x, phi x = lead * x ^ 2 + slope * x + height
  least : ∀ x, phi m ≤ phi x

namespace Parabola

variable (h : Parabola phi lead slope height m)

include h

theorem slope_eq : slope = -(2 * lead * m) := by
  have hpos := h.lead_pos
  -- the vertex is not below the minimum
  have hvertex := h.least (-slope / (2 * lead))
  rw [h.value, h.value] at hvertex
  have hsquare : lead * (m + slope / (2 * lead)) ^ 2 ≤ 0 := by
    have hexpand : lead * (m + slope / (2 * lead)) ^ 2 =
        lead * m ^ 2 + slope * m + height -
          (lead * (-slope / (2 * lead)) ^ 2 + slope * (-slope / (2 * lead)) + height) := by
      field_simp
      ring
    linarith
  have hzero : m + slope / (2 * lead) = 0 := by
    by_contra hne
    have hgreater : 0 < lead * (m + slope / (2 * lead)) ^ 2 := by positivity
    linarith
  field_simp at hzero
  linarith

theorem value_eq (x : ℝ) : phi x = phi m + lead * (x - m) ^ 2 := by
  rw [h.value, h.value, h.slope_eq]
  ring

/-- The smaller value is nearer to the minimum. -/
theorem value_le_iff {x y : ℝ} : phi x ≤ phi y ↔ |x - m| ≤ |y - m| := by
  rw [h.value_eq x, h.value_eq y, add_le_add_iff_left, mul_le_mul_iff_right₀ h.lead_pos, sq_le_sq]

end Parabola

/-! ## The cubic through samples of a parabola -/

section

variable {t : Fin 4 → ℝ} {w : Window ℝ} (hw : SampledAt phi t w)
  (h : Parabola phi lead slope height m)

include hw h

theorem coefficients?_parabola : w.coefficients? = some #v[0, lead, slope, height] := by
  have hvalues (i : Fin 4) :
      phi (t i) = 0 * t i ^ 3 + lead * t i ^ 2 + slope * t i + height := by
    rw [h.value]
    ring
  exact (hw.coefficients?_eq #v[0, lead, slope, height] hvalues).trans
    (congrArg some (Vector.map_id _))

omit hw in
/-- The stationary point of the parabola is the only root. -/
theorem roots?_parabola : roots? (3.0 * 0) (2.0 * lead) slope = some [(m, 0)] := by
  have hslope := h.slope_eq
  have hpos := h.lead_pos
  have hcubic : ((3.0 * 0 : ℝ) == 0.0) = true := (RealScalar.beq_iff _ _).mpr (by norm_num)
  have hsquare : ((2.0 * lead : ℝ) == 0.0) = false := by
    rw [Bool.eq_false_iff, Ne, RealScalar.beq_iff]
    norm_num
    exact hpos.ne'
  unfold roots?
  simp only [hcubic, hsquare, if_true, Bool.false_eq_true, if_false]
  by_cases hflat : slope = 0
  · have hzero : (slope == 0.0) = true := (RealScalar.beq_iff _ _).mpr (by rw [hflat]; norm_num)
    have hm : m = 0 := by
      have hproduct : lead * m = 0 := by linarith
      exact (mul_eq_zero.mp hproduct).resolve_left hpos.ne'
    rw [if_pos hzero, hm]
    norm_num
  · have hzero : ¬ (slope == 0.0) = true := by
      rw [RealScalar.beq_iff]
      norm_num
      exact hflat
    have hroot : -slope / (2.0 * lead) = m := by
      rw [hslope]
      norm_num
      field_simp
    rw [if_neg hzero, hroot]
    norm_num

/-- The minimum of the parabola is the only candidate. -/
theorem stationaryPoint?_parabola :
    stationaryPoint? w = some (if t 0 < m ∧ m < t 3 then some m else none) := by
  have hfirst : w[0].x = t 0 := congrArg Sample.x (hw.samples 0)
  have hlast : w[3].x = t 3 := congrArg Sample.x (hw.samples 3)
  have hpos := h.lead_pos
  unfold stationaryPoint?
  rw [coefficients?_parabola hw h, hfirst, hlast]
  show (roots? (3.0 * 0) (2.0 * lead) slope).bind _ = _
  rw [roots?_parabola h, Option.bind_some]
  have hreal : Scalar.abs (0 : ℝ) < 1e-12 := by
    show |(0 : ℝ)| < 1e-12
    norm_num
  have hopen : (0.0 : ℝ) < 6.0 * 0 * m + 2.0 * lead := by
    norm_num
    exact hpos
  have hcandidates : ([((m, 0) : ℝ × ℝ)].filter fun z =>
      decide (Scalar.abs z.2 < 1e-12) && decide (t 0 < z.1) && decide (z.1 < t 3) &&
        decide ((0.0 : ℝ) < 6.0 * 0 * z.1 + 2.0 * lead)).map (·.1) =
      if t 0 < m ∧ m < t 3 then [m] else [] := by
    rw [List.filter_cons, decide_eq_true hreal, decide_eq_true hopen, Bool.true_and, Bool.and_true,
      ← Bool.decide_and]
    simp only [decide_eq_true_eq, List.filter_nil]
    split <;> rfl
  show some (leastBy _ (List.map _ (List.filter _ [(m, 0)]))) = _
  refine (congrArg (fun l : List ℝ => some (leastBy _ l)) hcandidates).trans ?_
  split <;> rfl

/-- There is a cubic in every round. -/
theorem round_parabola_ne : w.round ≠ .degenerate := by
  obtain ⟨found, hfound⟩ : ∃ found, stationaryPoint? w = some found :=
    ⟨_, stationaryPoint?_parabola hw h⟩
  rw [Window.round, hfound]
  dsimp only
  split
  · simp
  · simp

/-- A round asks at the minimum if that is inside and no sample is near. -/
theorem round_parabola (hlow : t 0 < m) (hhigh : m < t 3) (hfar : ∀ i, 1e-14 ≤ |m - t i|) :
    w.round = .asks m := by
  have hnew : w.near m = false := by
    rw [Bool.eq_false_iff]
    intro hnear
    obtain ⟨i, hi⟩ := (hw.near_iff m).mp hnear
    exact absurd (hfar i) hi.not_ge
  have husable : (some m).filter (fun x => !w.near x) = some m := by simp [Option.filter, hnew]
  rw [Window.round, stationaryPoint?_parabola hw h, if_pos ⟨hlow, hhigh⟩]
  simp only [husable]
  rfl

/-! ## The search -/

omit hw in
/-- If no point of the grid is near to the minimum, the first round asks there. -/
theorem mem_steps_of_far {s : Span ℝ} (hs : s.left < s.right) (hm : s.left ≤ m ∧ m ≤ s.right)
    (hfar : ∀ i, 1e-14 ≤ |m - grid s i|) {tol : ℝ} (htol : tol < s.width) {limit : Nat}
    (hlimit : 1 ≤ limit) {steps : List ℝ} {last : CubicEnd ℝ}
    (hloop : (cubicLoop tol limit 0 (gridWindow phi s)).Follows (answering phi) steps last) :
    m ∈ steps := by
  have hgrid : SampledAt phi (grid s) (gridWindow phi s) := sampledAt_gridWindow phi hs
  have hapart (i : Fin 4) : m ≠ grid s i := by
    intro heq
    have hzero := hfar i
    rw [heq, sub_self, abs_zero] at hzero
    norm_num at hzero
  have hfirst := grid_first s
  have hlast := grid_last s
  have hlow : grid s 0 < m := lt_of_le_of_ne (hfirst.trans_le hm.1) (hapart 0).symm
  have hhigh : m < grid s 3 := lt_of_le_of_ne (hm.2.trans_eq hlast.symm) (hapart 3)
  have hwide : tol < (gridWindow phi s).span.width := by
    rw [hgrid.span_eq, hfirst, hlast]
    exact htol
  obtain ⟨more, rfl⟩ := Nat.exists_eq_add_of_le' hlimit
  rw [cubicLoop_succ, if_pos hwide, round_parabola hgrid h hlow hhigh hfar] at hloop
  obtain ⟨-, rest, -, rfl, -⟩ := Follows.of_ask hloop
  exact List.mem_cons_self

omit hw in
/-- The minimum of a parabola in an interval is found by cubic interpolation, up to a distance of 1e-14
if there is a point of the grid as near as that, and exactly if there is none. -/
theorem parabola_minimum_found {request : Request ℝ} (hname : request.method = Kind.cubic.key)
    (hs : request.left < request.right) (hm : request.left ≤ m ∧ m ≤ request.right)
    (htol : request.tol < request.right - request.left) (hlimit : 1 ≤ request.limit)
    (options : Options ℝ) :
    ∃ r, (search request options).read (answering phi) = .ok r ∧ |r.alpha - m| < 1e-14 ∧
      ((∀ i, 1e-14 ≤ |m - grid ⟨request.left, request.right⟩ i|) → r.alpha = m) := by
  let s : Span ℝ := ⟨request.left, request.right⟩
  have hanswers := answers_answering phi
  have hgrid : SampledAt phi (grid s) (gridWindow phi s) := sampledAt_gridWindow phi hs
  obtain ⟨steps, last, t', hloop, hsampled, hrefines, hgiven⟩ :=
    cubicLoop_follows hanswers request.tol request.limit.toNat 0 hgrid
  obtain ⟨more, r, hcubic, -, hsettled, hfallback⟩ := cubic_follows hanswers hloop hsampled
  have hextra : r.extra ≠ .fallback := by
    intro hextra
    obtain ⟨w, n, left, rfl⟩ := hfallback hextra
    exact round_parabola_ne hsampled h (hgiven w n left rfl)
  obtain ⟨-, halpha, -⟩ := hsettled hextra
  obtain ⟨x, hbest, -, hleast⟩ := hsampled.best hrefines
  rw [hbest] at halpha
  have hnearest {y : ℝ} (hy : Seen (grid s) steps y) : |r.alpha - m| ≤ |y - m| := by
    rw [halpha]
    exact h.value_le_iff.mp (hleast (fun _ => rfl) y hy)
  have hsearch : (search request options).Follows (answering phi) _ _ :=
    search_follows_method (ofKey?_method hname) (.inr hs) hcubic
  have hexact (hfar : ∀ i, 1e-14 ≤ |m - grid s i|) : r.alpha = m := by
    have hasked : m ∈ steps.map id := mem_steps_of_far h hs hm hfar htol (by omega) hloop
    rw [List.map_id] at hasked
    have hzero := hnearest (.inr hasked)
    rw [sub_self, abs_zero] at hzero
    exact sub_eq_zero.mp (abs_nonpos_iff.mp hzero)
  refine ⟨_, hsearch.read, ?_, hexact⟩
  by_cases hfar : ∀ i, 1e-14 ≤ |m - grid s i|
  · rw [hexact hfar]
    norm_num
  · push Not at hfar
    obtain ⟨i, hi⟩ := hfar
    rw [abs_sub_comm] at hi
    exact (hnearest (.inl ⟨i, rfl⟩)).trans_lt hi

end

noncomputable def oneRound : Request ℝ where
  method := "cubic_4point"
  left := 0
  right := 3.0
  tol := 1
  limit := 1

noncomputable def dip (x : ℝ) : ℝ := (x - 0.5) ^ 2

theorem parabola_dip : Parabola dip 1 (-1) (1 / 4) (1 / 2) where
  lead_pos := one_pos
  value x := by
    rw [dip]
    ring
  least x := by
    have hzero : dip (1 / 2) = 0 := by norm_num [dip]
    rw [hzero]
    exact sq_nonneg _

/-- The points of the grid are whole, so one round finds the minimum. -/
theorem half_found : ∃ r, (search oneRound []).read (answering dip) = .ok r ∧ r.alpha = 1 / 2 := by
  obtain ⟨r, hread, -, hexact⟩ : ∃ r, (search oneRound []).read (answering dip) = .ok r ∧
      |r.alpha - 1 / 2| < 1e-14 ∧
      ((∀ i, 1e-14 ≤ |1 / 2 - grid ⟨0, 3.0⟩ i|) → r.alpha = 1 / 2) :=
    parabola_minimum_found parabola_dip rfl (by norm_num [oneRound]) (by norm_num [oneRound])
      (by norm_num [oneRound]) (by decide) []
  refine ⟨r, hread, hexact fun i => ?_⟩
  fin_cases i <;> norm_num [grid, Span.width, abs_of_pos, abs_of_neg]

end Minima.LineSearch
