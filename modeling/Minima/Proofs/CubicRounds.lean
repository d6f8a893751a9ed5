import Mathlib.LinearAlgebra.Vandermonde
import Minima.Proofs.ExactSystems
import Minima.Proofs.GoldenReuse
import Minima.Proofs.Samples

/-!
# Rounds of cubic interpolation

A round of cubic interpolation asks at one real between the outer two of its four samples and away from
all of them, and keeps four of the five. So the window always holds samples of the function in order,
and as long as no value is undefined the least value found so far is in it. At the end the search reports
that value and the step where it was found, unless it has handed over to the golden section.
-/

namespace Minima.LineSearch

open Dialogue Linear Scalar Scalar.Exact

/-! ## One round -/

inductive Round (R : Type) where
  /-- There is no cubic. -/
  | degenerate
  /-- There is no step to ask at that is not there already. -/
  | exhausted
  | asks (x : R)

section

variable {R : Type} [Scalar R]

/-- The minimum of the cubic or else the middle, unless there are samples nearby. -/
def Window.round (w : Window R) : Round R :=
  match stationaryPoint? w with
  | none => .degenerate
  | some found =>
    let usable := found.filter fun x => !w.near x
    let point := usable.getD w.span.middle
    if usable.isNone && w.near point then .exhausted else .asks point

theorem cubicLoop_succ (tol : R) (fuel count : Nat) (w : Window R) :
    cubicLoop tol (fuel + 1) count w =
      if tol < w.span.width then
        match w.round with
        | .degenerate => pure (.degenerate w (count + 1) fuel)
        | .exhausted => pure (.settled w (count + 1))
        | .asks x => do
          let value ← Probe.valueAt x
          cubicLoop tol fuel (count + 1) (keepFour (merge w ⟨x, value⟩))
      else pure (.settled w count) := by
  rw [cubicLoop, Window.round]
  cases stationaryPoint? w with
  | none => rfl
  | some found =>
      dsimp only
      split
      · split <;> rfl
      · rfl

/-- A minimum of the cubic that is found lies inside the window. -/
theorem stationaryPoint?_between {w : Window R} {x : R} (h : stationaryPoint? w = some (some x)) :
    (w.get 0).x < x ∧ x < (w.get 3).x := by
  unfold stationaryPoint? at h
  obtain ⟨coefficients, -, h⟩ := Option.bind_eq_some_iff.mp h
  obtain ⟨roots, -, h⟩ := Option.bind_eq_some_iff.mp h
  have hmem := mem_of_leastBy (Option.some.inj h)
  obtain ⟨z, hz, rfl⟩ := List.mem_map.mp hmem
  have hinside := (List.mem_filter.mp hz).2
  simp only [Bool.and_eq_true, decide_eq_true_eq] at hinside
  exact ⟨hinside.1.1.2, hinside.1.2⟩

/-- A round asks near no sample, at a minimum of the cubic or at the middle. -/
theorem Window.round_asks {w : Window R} {x : R} (h : w.round = .asks x) :
    w.near x = false ∧ (x = w.span.middle ∨ stationaryPoint? w = some (some x)) := by
  unfold round at h
  cases hfound : stationaryPoint? w with
  | none =>
      rw [hfound] at h
      cases h
  | some found =>
      rw [hfound] at h
      dsimp only at h
      split at h
      · cases h
      · rename_i hnew
        obtain rfl := Round.asks.inj h
        cases husable : found.filter fun x => !w.near x with
        | none =>
            rw [husable] at hnew
            exact ⟨by simpa using hnew, .inl rfl⟩
        | some x =>
            obtain ⟨hx, hfresh⟩ := Option.filter_eq_some_iff.mp husable
            exact ⟨by simpa using hfresh, .inr (congrArg some hx)⟩

def CubicEnd.window : CubicEnd R → Window R
  | .settled w _ => w
  | .degenerate w _ _ => w

end

variable {R : Type} [Scalar R] [Exact R] {answer : R → Attempt R R} {phi : ℝ → R}

namespace SampledAt

variable {t : Fin 4 → ℝ} {w : Window R} (h : SampledAt phi t w)

include h

theorem span_eq : w.span = .ofReal ⟨t 0, t 3⟩ := by
  have hfirst : w[0].x = ofReal (t 0) := congrArg Sample.x (h.samples 0)
  have hlast : w[3].x = ofReal (t 3) := congrArg Sample.x (h.samples 3)
  rw [Window.span, hfirst, hlast]
  rfl

theorem near_iff (x : ℝ) : w.near (ofReal x) = true ↔ ∃ i, |x - t i| < 1e-14 := by
  have hclose (i : Fin 4) : Scalar.abs (ofReal x - w[i].x) < (1e-14 : R) ↔ |x - t i| < 1e-14 := by
    have hplace : w[i].x = ofReal (t i) := congrArg Sample.x (h.samples i)
    rw [hplace, sub_ofReal, abs_ofReal, literal, ofReal_lt]
  rw [Window.near, Vector.any_eq_true]
  simp only [decide_eq_true_eq]
  constructor
  · rintro ⟨i, hi, hnear⟩
    exact ⟨⟨i, hi⟩, (hclose ⟨i, hi⟩).mp hnear⟩
  · rintro ⟨i, hnear⟩
    exact ⟨i, i.isLt, (hclose i).mpr hnear⟩

/-- With samples of a function, a round asks at a real between the outer two and away from all of them. -/
theorem round_asks {x : R} (hround : w.round = .asks x) :
    ∃ z, x = ofReal z ∧ t 0 < z ∧ z < t 3 ∧ ∀ i, t i ≠ z := by
  have happart {z : ℝ} (hfar : w.near (ofReal z) = false) (i : Fin 4) : t i ≠ z := by
    rintro rfl
    have hnear : w.near (ofReal (t i)) = true := (h.near_iff _).mpr ⟨i, by norm_num⟩
    rw [hfar] at hnear
    cases hnear
  obtain ⟨hfar, rfl | hfound⟩ := Window.round_asks hround
  · have hends : t 0 < t 3 := h.ascending (by decide)
    have hmiddle : Span.middle ⟨t 0, t 3⟩ = (t 0 + t 3) / 2 := Span.middle_eq _
    rw [h.span_eq, Span.middle_ofReal] at hfar ⊢
    refine ⟨_, rfl, ?_, ?_, happart hfar⟩
    · linarith
    · linarith
  · obtain ⟨hlow, hhigh⟩ := stationaryPoint?_between hfound
    rw [h.samples 0] at hlow
    rw [h.samples 3] at hhigh
    obtain ⟨z, rfl⟩ := real_between hlow hhigh
    exact ⟨z, rfl, ofReal_lt.mp hlow, ofReal_lt.mp hhigh, happart hfar⟩

end SampledAt

/-! ## The cubic of a window -/

/-- A cubic that vanishes at four places is zero. -/
theorem cubic_eq_zero {t : Fin 4 → ℝ} (ht : Function.Injective t) {c : Fin 4 → ℝ}
    (h : ∀ i, c 0 * t i ^ 3 + c 1 * t i ^ 2 + c 2 * t i + c 3 = 0) : c = 0 := by
  have hreversed : ![c 3, c 2, c 1, c 0] = 0 := by
    refine Matrix.eq_zero_of_forall_index_sum_pow_mul_eq_zero ht fun j => ?_
    simp only [Fin.sum_univ_four]
    simp
    linear_combination h j
  funext i
  fin_cases i
  · exact congrFun hreversed 3
  · exact congrFun hreversed 2
  · exact congrFun hreversed 1
  · exact congrFun hreversed 0

/-- If the samples are those of a cubic, its coefficients are found. -/
theorem SampledAt.coefficients?_eq {t : Fin 4 → ℝ} {w : Window R} (hw : SampledAt phi t w)
    (c : Vector ℝ 4)
    (hc : ∀ i, phi (t i) =
      ofReal (c.get 0 * t i ^ 3 + c.get 1 * t i ^ 2 + c.get 2 * t i + c.get 3)) :
    w.coefficients? = some (c.map ofReal) := by
  let rows : Square ℝ 4 := Vector.ofFn fun i => #v[t i * t i * t i, t i * t i, t i, 1]
  have hplaces (i : Fin 4) : rows.get i = #v[t i * t i * t i, t i * t i, t i, 1] := get_ofFn ..
  have hrow (d : Vector ℝ 4) (i : Fin 4) : (rows.mulVec d).get i =
      d.get 0 * t i ^ 3 + d.get 1 * t i ^ 2 + d.get 2 * t i + d.get 3 := by
    rw [Square.mulVec, get_map, hplaces, dot_real]
    simp only [dotProduct, Fin.sum_univ_four]
    show t i * t i * t i * d.get 0 + t i * t i * d.get 1 + t i * d.get 2 + 1 * d.get 3 = _
    ring
  have hunique {d e : Vector ℝ 4} (hsame : rows.mulVec d = rows.mulVec e) : d = e := by
    refine ext_get (sub_eq_zero.mp (cubic_eq_zero hw.ascending.injective fun i => ?_))
    have hi : (rows.mulVec d).get i = (rows.mulVec e).get i := by rw [hsame]
    rw [hrow, hrow] at hi
    simp only [Pi.sub_apply]
    linear_combination hi
  have hrows : (w.map fun p => #v[p.x * p.x * p.x, p.x * p.x, p.x, 1.0]) =
      rows.map fun row => row.map ofReal := by
    refine ext_get (funext fun i => ?_)
    rw [get_map, get_map, hw.samples, hplaces]
    show #v[ofReal (t i) * ofReal (t i) * ofReal (t i), ofReal (t i) * ofReal (t i), ofReal (t i),
      1.0] = _
    rw [mul_ofReal, mul_ofReal, literal]
    norm_num
  have hvalues : w.map (·.y) = (rows.mulVec c).map ofReal := by
    refine ext_get (funext fun i => ?_)
    rw [get_map, get_map, hw.samples, hrow, ← hc]
    rfl
  obtain ⟨d, hsolved, hd⟩ := solve?_of_injective (a := rows)
    (fun y hy => hunique (hy.trans (Square.mulVec_zero rows).symm)) (rows.mulVec c)
  rw [hunique hd] at hsolved
  rw [Window.coefficients?, hrows, hvalues, solve?_ofReals, hsolved]
  rfl

/-! ## Refining a window -/

/-- What is known of the function: its values at the first samples and at the steps asked at since. -/
def Seen (t : Fin 4 → ℝ) (steps : List ℝ) (x : ℝ) : Prop := (∃ i, t i = x) ∨ x ∈ steps

/-- From samples at `t` on, questions at `steps` have led to samples at `t'`. -/
structure Refines (phi : ℝ → R) (t : Fin 4 → ℝ) (steps : List ℝ) (t' : Fin 4 → ℝ) : Prop where
  inside : ∀ x ∈ steps, t 0 < x ∧ x < t 3
  drawn : ∀ i, Seen t steps (t' i)
  least : (∀ x, isNaN (phi x) = false) → ∀ x, Seen t steps x → ∃ k, phi (t' k) ≤ phi x

namespace Refines

variable {t t₁ t' : Fin 4 → ℝ} {x : ℝ} {steps : List ℝ}

theorem refl (phi : ℝ → R) (t : Fin 4 → ℝ) : Refines phi t [] t where
  inside := by simp
  drawn i := .inl ⟨i, rfl⟩
  least hphi x hx := by
    obtain ⟨i, rfl⟩ : ∃ i, t i = x := by simpa [Seen] using hx
    exact ⟨i, le_self (hphi _)⟩

omit [Exact R] in
/-- Nothing is known beyond the outer two. -/
theorem between (h : Refines phi t steps t') (hascending : StrictMono t) (hx : Seen t steps x) :
    t 0 ≤ x ∧ x ≤ t 3 := by
  rcases hx with ⟨i, rfl⟩ | hx
  · exact ⟨hascending.monotone (Fin.zero_le i), hascending.monotone (Fin.le_last i)⟩
  · exact ⟨(h.inside x hx).1.le, (h.inside x hx).2.le⟩

theorem trans {more : List ℝ} (h : Refines phi t steps t₁) (h' : Refines phi t₁ more t')
    (hascending : StrictMono t) : Refines phi t (steps ++ more) t' where
  inside x hx := by
    rcases List.mem_append.mp hx with hx | hx
    · exact h.inside x hx
    · have hfirst := (h.between hascending (h.drawn 0)).1
      have hlast := (h.between hascending (h.drawn 3)).2
      exact ⟨hfirst.trans_lt (h'.inside x hx).1, (h'.inside x hx).2.trans_le hlast⟩
  drawn i := by
    rcases h'.drawn i with ⟨j, hj⟩ | hmore
    · rw [← hj]
      exact (h.drawn j).imp_right (List.mem_append_left more)
    · exact .inr (List.mem_append_right steps hmore)
  least hphi x hx := by
    have hseen : Seen t steps x ∨ x ∈ more := by
      rcases hx with hx | hx
      · exact .inl (.inl hx)
      · exact (List.mem_append.mp hx).imp_left .inr
    rcases hseen with hx | hx
    · obtain ⟨j, hj⟩ := h.least hphi x hx
      obtain ⟨k, hk⟩ := h'.least hphi (t₁ j) (.inl ⟨j, rfl⟩)
      exact ⟨k, Ordered.le_trans hk hj⟩
    · exact h'.least hphi x (.inr hx)

end Refines

theorem SampledAt.refine {t : Fin 4 → ℝ} {w : Window R} (h : SampledAt phi t w) {x : ℝ}
    (hlow : t 0 < x) (hhigh : x < t 3) (hx : ∀ i, t i ≠ x) :
    ∃ t', SampledAt phi t' (LineSearch.keepFour (LineSearch.merge w (sampleAt phi x))) ∧
      Refines phi t [x] t' := by
  obtain ⟨u, hu, hplaces⟩ := h.merge hx
  obtain ⟨e, hkept, hleast⟩ := hu.keepFour
  refine ⟨u ∘ e, hkept, fun y hy => ?_, fun i => ?_, fun hphi y hy => ?_⟩
  · obtain rfl := List.mem_singleton.mp hy
    exact ⟨hlow, hhigh⟩
  · exact ((hplaces _).mp ⟨e i, rfl⟩).imp_right List.mem_singleton.mpr
  · obtain ⟨k, hk⟩ := hleast hphi
    obtain ⟨j, rfl⟩ := (hplaces y).mpr (hy.imp_right List.mem_singleton.mp)
    exact ⟨k, hk j⟩

/-- From samples of the function on, the loop ends at samples of it; and it gives up only a window
without a cubic. -/
theorem cubicLoop_follows (h : Answers answer phi) (tol : R) (fuel count : Nat) {t : Fin 4 → ℝ}
    {w : Window R} (hw : SampledAt phi t w) :
    ∃ steps last t', (cubicLoop tol fuel count w).Follows answer (steps.map ofReal) last ∧
      SampledAt phi t' last.window ∧ Refines phi t steps t' ∧
      ∀ w' n left, last = .degenerate w' n left → w'.round = .degenerate := by
  induction fuel generalizing count t w with
  | zero => exact ⟨[], _, t, follows_pure _, hw, .refl phi t, by simp⟩
  | succ fuel ih =>
      rw [cubicLoop_succ]
      by_cases hwide : tol < w.span.width
      · rw [if_pos hwide]
        cases hround : w.round with
        | degenerate =>
            refine ⟨[], _, t, follows_pure _, hw, .refl phi t, ?_⟩
            rintro _ _ _ ⟨⟩
            exact hround
        | exhausted => exact ⟨[], _, t, follows_pure _, hw, .refl phi t, by simp⟩
        | asks x =>
            obtain ⟨z, rfl, hlow, hhigh, hnew⟩ := hw.round_asks hround
            obtain ⟨t₁, hsampled, hrefined⟩ := hw.refine hlow hhigh hnew
            obtain ⟨steps, last, t', hfollows, hlast, hrest, hgiven⟩ := ih (count + 1) hsampled
            exact ⟨z :: steps, last, t', follows_question_bind (h z) hfollows, hlast,
              hrefined.trans hrest hw.ascending, hgiven⟩
      · rw [if_neg hwide]
        exact ⟨[], _, t, follows_pure _, hw, .refl phi t, by simp⟩

/-! ## From the grid to the outcome -/

noncomputable def grid (s : Span ℝ) (i : Fin 4) : ℝ := s.left + i.val / (3 : ℕ) * s.width

theorem grid_strictMono {s : Span ℝ} (hs : s.left < s.right) : StrictMono (grid s) := by
  intro i j hij
  have hwidth : 0 < s.width := sub_pos.mpr hs
  have hij : (i.val : ℝ) < j.val := by exact_mod_cast hij
  have hshare : (i.val : ℝ) / 3 * s.width < j.val / 3 * s.width := by gcongr
  simpa [grid] using hshare

theorem grid_first (s : Span ℝ) : grid s 0 = s.left := by simp [grid]

theorem grid_last (s : Span ℝ) : grid s 3 = s.right := by
  rw [grid, Span.width]
  norm_num

noncomputable def gridWindow (phi : ℝ → R) (s : Span ℝ) : Window R :=
  .ofFn fun i => sampleAt phi (grid s i)

theorem sampledAt_gridWindow (phi : ℝ → R) {s : Span ℝ} (hs : s.left < s.right) :
    SampledAt phi (grid s) (gridWindow phi s) where
  ascending := grid_strictMono hs
  samples i := Vector.getElem_ofFn i.isLt

theorem cubicStart_follows (h : Answers answer phi) (s : Span ℝ) :
    (cubicStart (Span.ofReal s)).Follows answer ((List.ofFn (grid s)).map ofReal)
      (gridWindow phi s) := by
  have hthird : (Span.ofReal s : Span R).width / 3.0 = ofReal (s.width / 3) := by
    rw [Span.width_ofReal, literal, div_ofReal (by norm_num)]
    norm_num
  have hplace (i : Fin 4) {c : ℝ} (hc : c = i.val) :
      (ofReal c : R) * ofReal (s.width / 3) + ofReal s.left = ofReal (grid s i) := by
    rw [mul_ofReal, add_ofReal, grid, hc]
    congr 1
    ring
  have h0 : (0.0 : R) * ofReal (s.width / 3) + ofReal s.left = ofReal (grid s 0) := by
    rw [literal]
    exact hplace 0 (by norm_num)
  have h1 : (1.0 : R) * ofReal (s.width / 3) + ofReal s.left = ofReal (grid s 1) := by
    rw [literal]
    exact hplace 1 (by norm_num)
  have h2 : (2.0 : R) * ofReal (s.width / 3) + ofReal s.left = ofReal (grid s 2) := by
    rw [literal]
    exact hplace 2 (by norm_num)
  have h3 : (ofReal s.right : R) = ofReal (grid s 3) := by rw [grid_last]
  unfold cubicStart
  simp only [hthird]
  simp only [Span.ofReal, h0, h1, h2, h3]
  exact follows_question_bind (h _) (follows_question_bind (h _)
    (follows_question_bind (h _) (follows_question_bind (h _) (follows_pure _))))

section

variable {R : Type} [Scalar R]

/-- Cubic interpolation that is cut off after `k` rounds. -/
def cubicRounds (s : Span R) (tol : R) (k : Nat) : Probe R (CubicEnd R) := do
  let w ← cubicStart s
  cubicLoop tol k 0 w

def CubicEnd.report (tol : R) : CubicEnd R → Probe R (Outcome R)
  | .settled w count =>
    pure {
      alpha := (w.get w.best).x
      value := (w.get w.best).y
      iterations := count
      evaluations := 0
      method := .cubic
      left := w.span.left
      right := w.span.right
      stop := if w.span.width ≤ tol then .tolerance else .iterationLimit
      extra := .nothing }
  | .degenerate w count left => do
    let inner ← goldenSection w.span tol left
    return { inner with
      iterations := count + inner.iterations
      method := .cubic
      extra := .fallback }

theorem cubic_eq (s : Span R) (tol : R) (limit : Nat) :
    cubic s tol limit = cubicRounds s tol limit >>= CubicEnd.report tol := by
  unfold cubic cubicRounds
  rw [LawfulMonad.bind_assoc]
  rfl

/-- With more rounds the first questions are the same. -/
theorem trail_cubicLoop_mono (answer : R → Attempt R R) (tol : R) (k more count : Nat)
    (w : Window R) :
    (cubicLoop tol k count w).trail answer <+: (cubicLoop tol (k + more) count w).trail answer := by
  induction k generalizing count w with
  | zero => exact List.nil_prefix
  | succ k ih =>
      rw [Nat.add_right_comm, cubicLoop_succ, cubicLoop_succ]
      split
      · cases w.round with
        | degenerate => exact List.prefix_rfl
        | exhausted => exact List.prefix_rfl
        | asks x =>
            show ((Dialogue.ask x _).trail answer) <+: ((Dialogue.ask x _).trail answer)
            rw [trail, trail]
            cases answer x with
            | error e => exact List.prefix_rfl
            | ok value => exact (List.prefix_cons_inj x).mpr (ih _ _)
      · exact List.prefix_rfl

end

/-- The rounds put the questions of the grid and then those of the loop. -/
theorem cubicRounds_follows (h : Answers answer phi) {s : Span ℝ} {tol : R} {k : Nat}
    {steps : List ℝ} {last : CubicEnd R}
    (hloop : (cubicLoop tol k 0 (gridWindow phi s)).Follows answer (steps.map ofReal) last) :
    (cubicRounds (Span.ofReal s) tol k).Follows answer ((List.ofFn (grid s) ++ steps).map ofReal)
      last := by
  rw [List.map_append]
  exact follows_bind (cubicStart_follows h s) hloop

/-! ## What is reported -/

/-- What a settled window reports is one of its samples, and if no value is undefined, one that is as
small as any known value. -/
theorem SampledAt.best {t t' : Fin 4 → ℝ} {steps : List ℝ} {w : Window R} (hw : SampledAt phi t' w)
    (hrefines : Refines phi t steps t') :
    ∃ x, w.get w.best = sampleAt phi x ∧ Seen t steps x ∧
      ((∀ x, isNaN (phi x) = false) → ∀ y, Seen t steps y → phi x ≤ phi y) := by
  have hbest : w.get w.best = sampleAt phi (t' w.best) := hw.samples w.best
  refine ⟨t' w.best, hbest, hrefines.drawn _, fun hphi y hy => ?_⟩
  obtain ⟨k, hk⟩ := hrefines.least hphi y hy
  have hdefined : ∀ p ∈ w, isNaN p.y = false := by
    intro p hp
    obtain ⟨i, hi, rfl⟩ := Vector.getElem_of_mem hp
    have hsample : w[i] = sampleAt phi (t' ⟨i, hi⟩) := hw.samples ⟨i, hi⟩
    rw [hsample]
    exact hphi _
  have hleast := w.best_le hdefined k
  rw [hbest, hw.samples k] at hleast
  exact Ordered.le_trans hleast hk

/-- The search puts the questions of the grid and of its rounds, and if it does not give up, it reports
the best sample of the last window. -/
theorem cubic_follows (h : Answers answer phi) {s : Span ℝ} {tol : R} {limit : Nat}
    {steps : List ℝ} {last : CubicEnd R} {t' : Fin 4 → ℝ}
    (hloop : (cubicLoop tol limit 0 (gridWindow phi s)).Follows answer (steps.map ofReal) last)
    (hsampled : SampledAt phi t' last.window) :
    ∃ more r, (cubic (Span.ofReal s) tol limit).Follows answer
        ((List.ofFn (grid s) ++ steps).map ofReal ++ more) r ∧
      Contained ⟨t' 0, t' 3⟩ more r ∧
      (r.extra ≠ .fallback → more = [] ∧
        r.alpha = (last.window.get last.window.best).x ∧
        r.value = (last.window.get last.window.best).y) ∧
      (r.extra = .fallback → ∃ w n left, last = .degenerate w n left) := by
  let t : Span ℝ := ⟨t' 0, t' 3⟩
  have hends : t.left ≤ t.right := hsampled.ascending.monotone (Fin.zero_le 3)
  have hspan : last.window.span = .ofReal t := hsampled.span_eq
  rw [cubic_eq]
  cases last with
  | settled w count =>
      refine ⟨[], _, follows_bind (cubicRounds_follows h hloop) (follows_pure _), ⟨by simp, ?_, ?_⟩,
        fun _ => ⟨rfl, rfl, rfl⟩, by simp⟩
      · have hbest := hsampled.ascending.monotone
        exact ⟨t' w.best, congrArg Sample.x (hsampled.samples w.best),
          hbest (Fin.zero_le _), hbest (Fin.le_last _)⟩
      · exact ⟨_, .refl hends, congrArg Span.left hspan, congrArg Span.right hspan⟩
  | degenerate w count left =>
      obtain ⟨qs, inner, hgolden, hinner⟩ := goldenSection_contained h tol left hends
      rw [← hspan] at hgolden
      have hreport : ((CubicEnd.degenerate w count left).report tol).Follows answer (qs ++ []) _ :=
        follows_bind hgolden (follows_pure _)
      rw [List.append_nil] at hreport
      exact ⟨_, _, follows_bind (cubicRounds_follows h hloop) hreport,
        ⟨hinner.asked, hinner.alpha, hinner.span⟩,
        fun hne => absurd rfl hne, fun _ => ⟨w, count, left, rfl⟩⟩

/-- Whatever values a function has at the reals, as long as none is undefined: if cubic interpolation
ends without the golden section, it reports the least of all values that it has asked for, and a step
where it has found it. After any number of rounds the window holds four samples in ascending order, each
with its own value. -/
theorem cubic_reports_least {phi : ℝ → Extended} (hphi : ∀ x, (phi x).isNaN = false) {a b : ℝ}
    (hab : a < b) (tol : Extended) (limit : Nat) :
    ∃ r qs, (cubic (⟨a, b⟩ : Span Extended) tol limit).Follows (Extended.graph phi) qs r ∧
      (∀ k ≤ limit, ∃ last qs',
        (cubicRounds (⟨a, b⟩ : Span Extended) tol k).Follows (Extended.graph phi) qs' last ∧
        qs' <+: qs ∧ ∃ t, SampledAt phi t last.window) ∧
      (r.extra ≠ .fallback → ∃ x : ℝ, r.alpha = x ∧ r.value = phi x ∧ (x : Extended) ∈ qs ∧
        ∀ q ∈ qs, ∃ y : ℝ, q = y ∧ r.value ≤ phi y) := by
  have h := Extended.answers_graph phi
  have hgrid : SampledAt phi (grid ⟨a, b⟩) (gridWindow phi ⟨a, b⟩) := sampledAt_gridWindow phi hab
  obtain ⟨steps, last, t', hloop, hsampled, hrefines, -⟩ := cubicLoop_follows h tol limit 0 hgrid
  obtain ⟨more, r, hcubic, -, hsettled, -⟩ := cubic_follows h hloop hsampled
  refine ⟨r, _, hcubic, fun k hk => ?_, fun hne => ?_⟩
  · obtain ⟨steps', cut, t, hcut, hwindow, -⟩ := cubicLoop_follows h tol k 0 hgrid
    refine ⟨cut, _, cubicRounds_follows h hcut, ?_, t, hwindow⟩
    obtain ⟨rest, rfl⟩ := Nat.exists_eq_add_of_le hk
    rw [← (cubicRounds_follows h hcut).trail, ← (cubicRounds_follows h hloop).trail]
    refine List.IsPrefix.trans (trail_bind_mono _ fun w => ?_) (List.prefix_append _ more)
    exact trail_cubicLoop_mono _ tol k rest 0 w
  · obtain ⟨rfl, halpha, hvalue⟩ := hsettled hne
    obtain ⟨x, hbest, hseen, hleast⟩ := hsampled.best hrefines
    have hasked (q : Extended) : q ∈ (List.ofFn (grid ⟨a, b⟩) ++ steps).map ofReal ++ [] ↔
        ∃ y, Seen (grid ⟨a, b⟩) steps y ∧ ofReal y = q := by
      rw [List.append_nil, List.mem_map]
      simp only [List.mem_append, List.mem_ofFn, Seen]
    rw [hbest] at halpha hvalue
    refine ⟨x, halpha, hvalue, (hasked _).mpr ⟨x, hseen, rfl⟩, fun q hq => ?_⟩
    obtain ⟨y, hy, rfl⟩ := (hasked q).mp hq
    rw [hvalue]
    exact ⟨y, rfl, hleast hphi y hy⟩

/-- Zero with a bottomless pit at one half. -/
noncomputable def pit (x : ℝ) : Extended := if x = 0.5 then .infinite true else (0 : ℝ)

theorem pit_isNaN (x : ℝ) : (pit x).isNaN = false := by
  unfold pit
  split <;> rfl

theorem pit_half : pit (1 / 2) = .infinite true := if_pos (by norm_num)

theorem pit_of_ne {x : ℝ} (h : x ≠ 1 / 2) : pit x = (0 : ℝ) := if_neg (by norm_num; exact h)

theorem sampledAt_gridWindow_pit :
    SampledAt pit (grid ⟨-1, 2⟩) (gridWindow pit ⟨-1, 2⟩) :=
  sampledAt_gridWindow pit (by norm_num)

/-- On the grid there is only zero, which is least nowhere, so the middle is asked for. -/
theorem round_pit : (gridWindow pit ⟨-1, 2⟩).round = .asks (ofReal (1 / 2)) := by
  have hcoefficients :
      (gridWindow pit ⟨-1, 2⟩).coefficients? = some (#v[0, 0, 0, 0].map ofReal) := by
    apply sampledAt_gridWindow_pit.coefficients?_eq
    intro i
    have hplace : grid ⟨-1, 2⟩ i ≠ 1 / 2 := by
      fin_cases i <;> norm_num [grid, Span.width]
    rw [pit_of_ne hplace]
    fin_cases i <;> simp [ofReal]
  have hroots : roots? (3.0 * ofReal 0 : Extended) (2.0 * ofReal 0) (ofReal 0) = some [] := by
    have hzero {x : ℝ} (hx : x = 0) : ((ofReal x : Extended) == 0.0) = true := by
      rw [literal, ofReal_beq, hx]
      norm_num
    rw [literal (R := Extended), literal (R := Extended), mul_ofReal, mul_ofReal, roots?]
    simp only [hzero (mul_zero _), if_true]
  have hmapped : #v[0, 0, 0, 0].map (ofReal (R := Extended)) =
      #v[ofReal 0, ofReal 0, ofReal 0, ofReal 0] := by simp
  have hfound : stationaryPoint? (gridWindow pit ⟨-1, 2⟩) = some none := by
    unfold stationaryPoint?
    rw [hcoefficients, hmapped]
    show (roots? (3.0 * ofReal 0 : Extended) (2.0 * ofReal 0) (ofReal 0)).bind _ = _
    rw [hroots]
    rfl
  have hmiddle : (gridWindow pit ⟨-1, 2⟩).span.middle = ofReal (1 / 2) := by
    rw [sampledAt_gridWindow_pit.span_eq, Span.middle_ofReal, grid_first, grid_last, Span.middle_eq]
    norm_num
  have hfar : (gridWindow pit ⟨-1, 2⟩).near (ofReal (1 / 2)) = false := by
    rw [Bool.eq_false_iff]
    intro hnear
    obtain ⟨i, hi⟩ := (sampledAt_gridWindow_pit.near_iff _).mp hnear
    fin_cases i <;> norm_num [grid, Span.width, abs_lt] at hi
  rw [Window.round, hfound]
  simp only [Option.filter_none, Option.getD_none, hmiddle, hfar, Bool.and_false]
  rfl

theorem loop_pit :
    (cubicLoop ((1 : ℝ) : Extended) 1 0 (gridWindow pit ⟨-1, 2⟩)).Follows (Extended.graph pit)
      (List.map ofReal [1 / 2])
      (.settled (keepFour (merge (gridWindow pit ⟨-1, 2⟩) (sampleAt pit (1 / 2)))) 1) := by
  have hwide : ((1 : ℝ) : Extended) < (gridWindow pit ⟨-1, 2⟩).span.width := by
    rw [sampledAt_gridWindow_pit.span_eq, grid_first, grid_last, Span.width_ofReal, Span.width]
    exact ofReal_lt.mpr (by norm_num)
  rw [cubicLoop_succ, if_pos hwide, round_pit]
  exact follows_question_bind (Extended.answers_graph pit _) (follows_pure _)

theorem sampledAt_refined_pit : ∃ t,
    SampledAt pit t (keepFour (merge (gridWindow pit ⟨-1, 2⟩) (sampleAt pit (1 / 2)))) ∧
      Refines pit (grid ⟨-1, 2⟩) [1 / 2] t := by
  apply sampledAt_gridWindow_pit.refine
  · norm_num [grid_first]
  · norm_num [grid_last]
  · intro i
    fin_cases i <;> norm_num [grid, Span.width]

/-- The round from the grid of minus one to two finds the pit, and it is reported. -/
theorem pit_reports_least : ∃ r qs,
    (cubic (⟨(-1 : ℝ), (2 : ℝ)⟩ : Span Extended) (1 : ℝ) 1).Follows (Extended.graph pit) qs r ∧
    qs = (List.ofFn (grid ⟨-1, 2⟩) ++ [1 / 2]).map ofReal ∧
    r.alpha = ((1 / 2 : ℝ) : Extended) ∧ r.value = .infinite true := by
  have hends : (-1 : ℝ) < 2 := by norm_num
  obtain ⟨r, qs, hfollows, -, hleast⟩ :
      ∃ r qs, (cubic (⟨(-1 : ℝ), (2 : ℝ)⟩ : Span Extended) (1 : ℝ) 1).Follows
          (Extended.graph pit) qs r ∧
        (∀ k ≤ 1, ∃ last qs', (cubicRounds (⟨(-1 : ℝ), (2 : ℝ)⟩ : Span Extended) (1 : ℝ) k).Follows
            (Extended.graph pit) qs' last ∧
          qs' <+: qs ∧ ∃ t, SampledAt pit t last.window) ∧
        (r.extra ≠ .fallback → ∃ x : ℝ, r.alpha = x ∧ r.value = pit x ∧ (x : Extended) ∈ qs ∧
          ∀ q ∈ qs, ∃ y : ℝ, q = y ∧ r.value ≤ pit y) :=
    cubic_reports_least pit_isNaN hends _ 1
  obtain ⟨t, hw, -⟩ := sampledAt_refined_pit
  obtain ⟨more, r', hfollows', -, hsettled, hgiven⟩ :=
    cubic_follows (Extended.answers_graph pit) loop_pit hw
  obtain rfl : r = r' := Except.ok.inj (hfollows.read.symm.trans hfollows'.read)
  have hextra : r.extra ≠ .fallback := by
    intro hextra
    obtain ⟨_, _, _, hlast⟩ := hgiven hextra
    cases hlast
  obtain ⟨rfl, -, -⟩ := hsettled hextra
  have hqs : qs = (List.ofFn (grid ⟨-1, 2⟩) ++ [1 / 2]).map ofReal :=
    hfollows.trail.symm.trans (hfollows'.trail.trans (List.append_nil _))
  obtain ⟨x, halpha, hvalue, -, hall⟩ := hleast hextra
  obtain ⟨y, hy, hle⟩ := hall (ofReal (1 / 2)) (by simp [hqs])
  obtain rfl : 1 / 2 = y := Extended.number.inj hy
  have hx : x = 1 / 2 := by
    by_contra hne
    rw [hvalue, pit_of_ne hne, pit_half] at hle
    exact absurd hle.2.2 (by simp [Extended.rank])
  refine ⟨r, qs, hfollows, hqs, halpha.trans (congrArg _ hx), ?_⟩
  rw [hvalue, hx, pit_half]

end Minima.LineSearch
