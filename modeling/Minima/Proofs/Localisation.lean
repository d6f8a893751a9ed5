import Minima.Proofs.CubicWindows

/-!
# Where the minimum is

The searches that shrink an interval, and cubic interpolation, keep the minimum of a function that
falls and then rises. So their last interval contains it, and the middle of one that is no wider than
the tolerance is within half of that.
-/

namespace Minima.LineSearch

open Dialogue

variable {phi : ℝ → ℝ} {s : Span ℝ} {m tol : ℝ}

/-! ## Outcomes -/

/-- The last interval of the search contains `m`, and if it is no wider than `tol`, the step that is
reported is not far from there. Most searches report the middle, but cubic interpolation reports its
best sample. -/
structure Outcome.Localises (kind : Kind) (m tol : ℝ) (r : Outcome ℝ) : Prop where
  left : r.left ≤ m
  right : m ≤ r.right
  close : r.stop = .tolerance → |r.alpha - m| ≤ if kind = .cubic then tol else tol / 2

/-- The reason that is given for the end of a search on an interval. -/
theorem width_le_of_stop {width : ℝ}
    (h : (if width ≤ tol then StopReason.tolerance else .iterationLimit) = .tolerance) :
    width ≤ tol := by
  by_contra hwide
  rw [if_neg hwide] at h
  cases h

theorem finish_localises {kind : Kind} (hkind : kind ≠ .cubic) (extra : Extra ℝ)
    (h : Unimodal phi s m) (iterations : Nat) :
    Reports (answering phi) (Outcome.Localises kind m tol) (finish kind tol extra s iterations) := by
  refine yields_question_bind trivial fun value _ => yields_pure ⟨h.left, h.right, fun hstop => ?_⟩
  have hnarrow : s.right - s.left ≤ tol := width_le_of_stop hstop
  have hleft := h.left
  have hright := h.right
  rw [if_neg hkind]
  show |s.middle - m| ≤ tol / 2
  rw [Span.middle_eq, abs_le]
  constructor
  · linarith
  · linarith

theorem dichotomy_localises (htol : 0 < tol) (limit : Nat) (options : Options ℝ)
    (h : Unimodal phi s m) :
    Reports (answering phi) (Outcome.Localises .dichotomy m tol) (dichotomy s tol limit options) := by
  refine yields_lift_bind fun given _ => ?_
  have hdelta : (0 : ℝ) < if given ≤ 0.0 then 1e-8 else given :=
    RealScalar.zero_literal.symm.trans_lt (lt_replaced (by norm_num))
  refine yields_bind (shrinkLoop_keeps htol (fun s => dichotomyStep_keeps hdelta) limit 0 h) ?_
  exact fun r hr => finish_localises (by decide) _ hr r.2

theorem intervalHalving_localises (htol : 0 < tol) (limit : Nat) (h : Unimodal phi s m) :
    Reports (answering phi) (Outcome.Localises .intervalHalving m tol) (intervalHalving s tol limit) := by
  refine yields_bind (shrinkLoop_keeps htol (fun s => halvingStep_keeps) limit 0 h) ?_
  exact fun r hr => finish_localises (by decide) .nothing hr r.2

theorem goldenSection_localises (htol : 0 < tol) (limit : Nat) (h : Unimodal phi s m) :
    Reports (answering phi) (Outcome.Localises .goldenSection m tol) (goldenSection s tol limit) := by
  refine yields_bind (goldenStart_keeps h) fun g hg => ?_
  refine yields_bind (goldenLoop_keeps htol limit 0 hg) fun r hr => ?_
  exact finish_localises (by decide) .nothing hr r.2

theorem cubic_localises (htol : 0 < tol) (limit : Nat) (hs : s.left < s.right)
    (h : Unimodal phi s m) :
    Reports (answering phi) (Outcome.Localises .cubic m tol) (cubic s tol limit) := by
  refine yields_bind (cubicStart_keeps hs h) fun w hw => ?_
  refine yields_bind (cubicLoop_keeps tol limit 0 hw) fun finish hfinish => ?_
  cases finish with
  | settled w count =>
      have hleft := hfinish.unimodal.left
      have hright := hfinish.unimodal.right
      refine yields_pure ⟨hleft, hright, fun hstop => ?_⟩
      have hnarrow : w.span.right - w.span.left ≤ tol := width_le_of_stop hstop
      have hbest : w[w.best] ∈ w := Vector.getElem_mem w.best.isLt
      have hlow : w.span.left ≤ w[w.best].x := hfinish.ascending.first_le hbest
      have hhigh : w[w.best].x ≤ w.span.right := hfinish.ascending.le_last hbest
      rw [if_pos rfl]
      show |w[w.best].x - m| ≤ tol
      rw [abs_le]
      constructor
      · linarith
      · linarith
  | degenerate w count left =>
      refine yields_bind (goldenSection_localises htol left hfinish.unimodal) fun inner hinner => ?_
      refine yields_pure ⟨hinner.left, hinner.right, fun hstop => ?_⟩
      have hclose := hinner.close hstop
      rw [if_neg (by decide)] at hclose
      rw [if_pos rfl]
      linarith

theorem searchWith_localises {kind : Kind} (harmijo : kind ≠ .armijo)
    (hadaptation : kind ≠ .stepAdaptation) (htol : 0 < tol) (limit : Int) (options : Options ℝ)
    (hs : s.left < s.right) (h : Unimodal phi s m) :
    Reports (answering phi) (Outcome.Localises kind m tol) (searchWith kind s tol limit options) := by
  cases kind with
  | armijo => exact absurd rfl harmijo
  | dichotomy => exact dichotomy_localises htol _ options h
  | intervalHalving => exact intervalHalving_localises htol _ h
  | goldenSection => exact goldenSection_localises htol _ h
  | stepAdaptation => exact absurd rfl hadaptation
  | cubic => exact cubic_localises htol _ hs h

/-- For a function that falls strictly up to a point of the interval, and rises strictly from there on,
dichotomy, halving, the golden section and cubic interpolation come to an outcome whose last interval
contains that point, however many steps they may take. If the interval is no wider than the tolerance,
the step that the first three report is within half of it, and that of the fourth within all of it. -/
theorem search_localises {m : ℝ} {request : Request ℝ} {options : Options ℝ} {kind : Kind}
    (harmijo : kind ≠ .armijo) (hadaptation : kind ≠ .stepAdaptation)
    (hname : request.method = kind.key)
    (hdelta : kind = .dichotomy →
      ∃ delta, options.realD "delta" (0.25 * request.tol) = .ok delta)
    (hs : request.left < request.right) (htol : 0 < request.tol)
    (h : Unimodal phi ⟨request.left, request.right⟩ m) :
    ∃ r calls, (search request options).play (tallied (answering phi)) 0 = (.ok r, calls) ∧
      r.Localises kind m request.tol := by
  have htotal : (searchWith kind ⟨request.left, request.right⟩ request.tol request.limit
      options).FailsOnly fun _ => False := by
    cases kind with
    | armijo => exact absurd rfl harmijo
    | dichotomy =>
        obtain ⟨delta, hdelta⟩ := hdelta rfl
        exact dichotomy_failsOnly _ _ _ hdelta
    | intervalHalving => exact intervalHalving_failsOnly ..
    | goldenSection => exact goldenSection_failsOnly ..
    | stepAdaptation => exact absurd rfl hadaptation
    | cubic => exact cubic_failsOnly ..
  obtain ⟨outcome, calls, hlocalises, hplay⟩ := play_search hname hs htotal
    (searchWith_localises harmijo hadaptation htol request.limit options hs h)
  exact ⟨_, calls, hplay, hlocalises.left, hlocalises.right, hlocalises.close⟩

/-! ## The square -/

noncomputable def byDichotomy : Request ℝ where
  method := "dichotomy"
  left := -1
  right := 1
  tol := 1
  limit := 10

/-- The square falls up to zero and rises from there on. -/
theorem unimodal_square : Unimodal (fun x => x * x) ⟨-1, 1⟩ 0 where
  left := by norm_num
  right := by norm_num
  falls x hx y hy hxy := by
    have hy := hy.2
    show y * y < x * x
    nlinarith
  rises x hx y hy hxy := by
    have hx := hx.1
    show x * x < y * y
    nlinarith

theorem dichotomy_localises_zero :
    ∃ r calls, (search byDichotomy [("delta", .real (1 / 8))]).play
        (tallied (answering fun x => x * x)) 0 = (.ok r, calls) ∧
      r.left ≤ 0 ∧ 0 ≤ r.right ∧ (r.stop = .tolerance → |r.alpha| ≤ 1 / 2) := by
  obtain ⟨r, calls, hplay, hleft, hright, hclose⟩ :
      ∃ r calls, (search byDichotomy [("delta", .real (1 / 8))]).play
          (tallied (answering fun x => x * x)) 0 = (.ok r, calls) ∧
        r.Localises .dichotomy 0 byDichotomy.tol :=
    search_localises (by decide) (by decide) rfl (fun _ => ⟨1 / 8, rfl⟩)
      (by norm_num [byDichotomy]) (by norm_num [byDichotomy]) unimodal_square
  refine ⟨r, calls, hplay, hleft, hright, fun hstop => ?_⟩
  have hhalf := hclose hstop
  rwa [sub_zero, if_neg (by decide)] at hhalf

end Minima.LineSearch
