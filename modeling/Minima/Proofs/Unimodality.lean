import Mathlib.Order.Interval.Set.Basic
import Mathlib.Tactic.Linarith
import Mathlib.Tactic.LinearCombination
import Minima.Proofs.SearchReports
import Minima.Proofs.Searches

/-!
# Which part of an interval has the minimum

A function of one variable that falls strictly up to a point of an interval, and rises strictly from
there on, has its minimum at that point. Of two values inside, the one that is not less tells on which
side of its step the minimum is. So a search that drops only what lies beyond a value that is not less
than one inside, ties included, keeps the minimum in the interval. Each step of dichotomy, of halving
and of the golden section is of this kind. The golden section does not ask again for the value of one of
its points, which divides what remains as it divided the whole.
-/

namespace Minima.LineSearch

open Dialogue

variable {phi : ℝ → ℝ} {s : Span ℝ} {m tol : ℝ}

/-! ## Played against a function -/

/-- The function as a source of answers, which never fails. -/
abbrev answering (phi : ℝ → ℝ) : ℝ → Attempt ℝ ℝ := fun alpha => .ok (phi alpha)

/-- A probe that cannot fail comes to a result. -/
theorem play_answering (phi : ℝ → ℝ) {α : Type} {d : Probe ℝ α} (hd : d.FailsOnly fun _ => False)
    (calls : Nat) :
    ∃ a left, d.play (tallied (answering phi)) calls = (.ok a, left) := by
  have hanswer : ∀ alpha calls, True → True →
      (∃ r, (tallied (answering phi) alpha calls).1 = .ok r) ∧ True :=
    fun alpha _ _ _ => ⟨⟨phi alpha, rfl⟩, trivial⟩
  obtain ⟨-, -, herror⟩ := hd.play (I := fun _ => True) hanswer (s := calls) trivial
  rcases hplay : d.play (tallied (answering phi)) calls with ⟨e | a, left⟩
  · exact (herror e (by rw [hplay])).elim
  · exact ⟨a, left, rfl⟩

/-- A search by name comes to what the method reports, and to the number of calls. -/
theorem play_search {request : Request ℝ} {options : Options ℝ} {kind : Kind}
    {post : Outcome ℝ → Prop} (hname : request.method = kind.key)
    (hs : request.left < request.right)
    (htotal : (searchWith kind ⟨request.left, request.right⟩ request.tol request.limit
      options).FailsOnly fun _ => False)
    (hreports : Reports (answering phi) post
      (searchWith kind ⟨request.left, request.right⟩ request.tol request.limit options)) :
    ∃ outcome calls, post outcome ∧ (search request options).play (tallied (answering phi)) 0 =
      (.ok { outcome with evaluations := calls }, calls) := by
  obtain ⟨outcome, calls, hplay⟩ := play_answering phi htotal 0
  refine ⟨outcome, calls, hreports.play hplay, ?_⟩
  rw [search_eq (ofKey?_method hname) hs]
  exact play_withEvaluations.mpr ⟨outcome, hplay, rfl⟩

/-! ## Falling and rising -/

/-- On the interval the function falls strictly up to `m`, and rises strictly from there on. -/
structure Unimodal (phi : ℝ → ℝ) (s : Span ℝ) (m : ℝ) : Prop where
  left : s.left ≤ m
  right : m ≤ s.right
  falls : StrictAntiOn phi (Set.Icc s.left m)
  rises : StrictMonoOn phi (Set.Icc m s.right)

namespace Unimodal

variable {x y : ℝ} (h : Unimodal phi s m)

include h

/-- The minimum lies before a step whose value is not less than one before it. -/
theorem lt_of_le (hx : s.left ≤ x) (hxy : x < y) (hle : phi x ≤ phi y) : m < y := by
  by_contra hafter
  have hym : y ≤ m := not_lt.mp hafter
  have hfalls : phi y < phi x := h.falls ⟨hx, hxy.le.trans hym⟩ ⟨hx.trans hxy.le, hym⟩ hxy
  exact absurd hle hfalls.not_ge

/-- The minimum lies after a step whose value is not less than one after it. -/
theorem lt_of_ge (hy : y ≤ s.right) (hxy : x < y) (hge : phi y ≤ phi x) : x < m := by
  by_contra hbefore
  have hmx : m ≤ x := not_lt.mp hbefore
  have hrises : phi x < phi y := h.rises ⟨hmx, hxy.le.trans hy⟩ ⟨hmx.trans hxy.le, hy⟩ hxy
  exact absurd hge hrises.not_ge

/-- A part of the interval in which the minimum lies. -/
theorem restrict {t : Span ℝ} (hleft : s.left ≤ t.left) (hright : t.right ≤ s.right)
    (hlow : t.left ≤ m) (hhigh : m ≤ t.right) : Unimodal phi t m where
  left := hlow
  right := hhigh
  falls := h.falls.mono (Set.Icc_subset_Icc_left hleft)
  rises := h.rises.mono (Set.Icc_subset_Icc_right hright)

theorem dropRight (hx : s.left ≤ x) (hxy : x < y) (hy : y ≤ s.right) (hle : phi x ≤ phi y) :
    Unimodal phi ⟨s.left, y⟩ m :=
  h.restrict le_rfl hy h.left (h.lt_of_le hx hxy hle).le

theorem dropLeft (hx : s.left ≤ x) (hxy : x < y) (hy : y ≤ s.right) (hge : phi y ≤ phi x) :
    Unimodal phi ⟨x, s.right⟩ m :=
  h.restrict hx le_rfl (h.lt_of_ge hy hxy hge).le h.right

end Unimodal

/-! ## Shrinking an interval -/

/-- A number that is replaced unless it is above a bound. -/
theorem lt_replaced {bound given fallback : ℝ} (h : bound < fallback) :
    bound < if given ≤ bound then fallback else given := by
  split
  · exact h
  · rename_i habove
    exact not_le.mp habove

theorem Span.middle_eq (s : Span ℝ) : s.middle = (s.left + s.right) / 2 := by
  rw [Span.middle]
  norm_num
  ring

theorem Span.right_eq (s : Span ℝ) : s.right = s.left + s.width := by simp [Span.width]

/-- A step that keeps the minimum wherever the interval has an inside is one that a loop can take. -/
theorem shrinkLoop_keeps {step : Span ℝ → Probe ℝ (Span ℝ)} (htol : 0 < tol)
    (hstep : ∀ s, s.left < s.right → Unimodal phi s m →
      Reports (answering phi) (fun t => Unimodal phi t m) (step s))
    (fuel count : Nat) (h : Unimodal phi s m) :
    Reports (answering phi) (fun r => Unimodal phi r.1 m) (shrinkLoop step tol fuel count s) := by
  induction fuel generalizing count s with
  | zero => exact yields_pure h
  | succ fuel ih =>
      unfold shrinkLoop
      refine yields_ite (fun hwide => ?_) fun _ => yields_pure h
      have hinside : s.left < s.right := sub_pos.mp (htol.trans hwide)
      exact yields_bind (hstep s hinside h) fun t ht => ih (count + 1) ht

theorem dichotomyStep_keeps {delta : ℝ} (hdelta : 0 < delta) (hs : s.left < s.right)
    (h : Unimodal phi s m) :
    Reports (answering phi) (fun t => Unimodal phi t m) (dichotomyStep delta s) := by
  have hwidth : 0 < s.width := sub_pos.mpr hs
  have hmiddle := s.middle_eq
  have hright := s.right_eq
  obtain ⟨d, hd, hpos, hquarter⟩ :
      ∃ d, Scalar.lesser delta (0.25 * s.width) = d ∧ 0 < d ∧ d ≤ 0.25 * s.width := by
    rw [RealScalar.lesser_eq_min]
    exact ⟨_, rfl, lt_min hdelta (by linarith), min_le_right _ _⟩
  unfold dichotomyStep
  simp only [hd]
  refine yields_question_bind trivial fun before hbefore => ?_
  refine yields_question_bind trivial fun after hafter => ?_
  obtain rfl : phi (s.middle - d) = before := Except.ok.inj hbefore
  obtain rfl : phi (s.middle + d) = after := Except.ok.inj hafter
  have hlow : s.left ≤ s.middle - d := by linarith
  have hhigh : s.middle + d ≤ s.right := by linarith
  have hapart : s.middle - d < s.middle + d := by linarith
  refine yields_ite (fun hless => yields_pure ?_) fun hnot => yields_pure ?_
  · exact h.dropRight hlow hapart hhigh hless.le
  · exact h.dropLeft hlow hapart hhigh (not_lt.mp hnot)

theorem halvingStep_keeps (hs : s.left < s.right) (h : Unimodal phi s m) :
    Reports (answering phi) (fun t => Unimodal phi t m) (halvingStep s) := by
  have hwidth : 0 < s.width := sub_pos.mpr hs
  have hright := s.right_eq
  obtain ⟨q, hq, hquarter⟩ : ∃ q, 0.25 * s.width = q ∧ s.right = s.left + 4 * q :=
    ⟨_, rfl, by linarith⟩
  have hpos : 0 < q := by linarith
  unfold halvingStep
  simp only [hq]
  refine yields_question_bind trivial fun f1 h1 => yields_question_bind trivial fun fm hm =>
    yields_question_bind trivial fun f2 h2 => ?_
  obtain rfl : phi (s.left + q) = f1 := Except.ok.inj h1
  obtain rfl : phi (s.left + 2.0 * q) = fm := Except.ok.inj hm
  obtain rfl : phi (s.left + 3.0 * q) = f2 := Except.ok.inj h2
  have hfirst : s.left ≤ s.left + q := by linarith
  have hbefore : s.left + q < s.left + 2.0 * q := by linarith
  have hafter : s.left + 2.0 * q < s.left + 3.0 * q := by linarith
  have hlast : s.left + 3.0 * q ≤ s.right := by linarith
  refine yields_ite (fun hless => yields_pure ?_) fun hnot1 => ?_
  · exact h.dropRight hfirst hbefore (hafter.le.trans hlast) hless.le
  refine yields_ite (fun hless => yields_pure ?_) fun hnot2 => yields_pure ?_
  · exact h.dropLeft (hfirst.trans hbefore.le) hafter hlast hless.le
  · -- neither quarter is below the middle: both ends are dropped, one after the other
    have hshort := h.dropLeft hfirst hbefore (hafter.le.trans hlast) (not_lt.mp hnot1)
    exact hshort.dropRight hbefore.le hafter hlast (not_lt.mp hnot2)

/-! ## Golden section -/

theorem golden_eq : (golden : ℝ) = (√5 - 1) / 2 := by
  show (√5.0 - 1.0) / 2.0 = _
  norm_num

theorem goldenSquare_eq : (goldenSquare : ℝ) = (3 - √5) / 2 := by
  show (3.0 - √5.0) / 2.0 = _
  norm_num

theorem golden_square : (golden : ℝ) * golden = goldenSquare := by
  have hroot : √5 * √5 = (5 : ℝ) := Real.mul_self_sqrt (by norm_num)
  rw [golden_eq, goldenSquare_eq]
  linear_combination hroot / 4

theorem golden_add_square : (golden : ℝ) + goldenSquare = 1 := by
  rw [golden_eq, goldenSquare_eq]
  ring

theorem goldenSquare_pos : (0 : ℝ) < goldenSquare := by
  have hroot : √5 < (3 : ℝ) := by
    rw [Real.sqrt_lt' (by norm_num)]
    norm_num
  rw [goldenSquare_eq]
  linarith

theorem goldenSquare_lt_golden : (goldenSquare : ℝ) < golden := by
  have hroot : (2 : ℝ) < √5 := by
    rw [Real.lt_sqrt (by norm_num)]
    norm_num
  rw [golden_eq, goldenSquare_eq]
  linarith

/-- If the right part is dropped, the left inner point is the right one of what remains. -/
theorem innerRight_dropRight (s : Span ℝ) : innerRight ⟨s.left, innerRight s⟩ = innerLeft s := by
  simp only [innerRight, innerLeft, Span.width]
  linear_combination (s.right - s.left) * golden_square

/-- If the left part is dropped, the right inner point is the left one of what remains. -/
theorem innerLeft_dropLeft (s : Span ℝ) : innerLeft ⟨innerLeft s, s.right⟩ = innerRight s := by
  simp only [innerRight, innerLeft, Span.width]
  linear_combination (s.right - s.left) * ((golden - goldenSquare) * golden_add_square
    - golden_square)

/-- In an interval that has an inside the inner points lie one after the other. -/
theorem inner_between (hs : s.left < s.right) :
    s.left ≤ innerLeft s ∧ innerLeft s < innerRight s ∧ innerRight s ≤ s.right := by
  have hwidth : 0 < s.width := sub_pos.mpr hs
  have hright : s.right = s.left + (golden + goldenSquare) * s.width := by
    rw [golden_add_square, one_mul, Span.width]
    ring
  have hleft : 0 < goldenSquare * s.width := mul_pos goldenSquare_pos hwidth
  have hapart : goldenSquare * s.width < golden * s.width :=
    mul_lt_mul_of_pos_right goldenSquare_lt_golden hwidth
  rw [innerLeft, innerRight]
  refine ⟨by linarith, by linarith, ?_⟩
  linarith [add_mul golden goldenSquare s.width]

/-- The minimum lies in the interval, and the values are those at its inner points. -/
structure GoldenState.Keeps (phi : ℝ → ℝ) (m : ℝ) (g : GoldenState ℝ) : Prop where
  unimodal : Unimodal phi g.span m
  c : g.c = innerLeft g.span
  d : g.d = innerRight g.span
  fc : g.fc = phi g.c
  fd : g.fd = phi g.d

theorem goldenStart_keeps (h : Unimodal phi s m) :
    Reports (answering phi) (GoldenState.Keeps phi m) (goldenStart s) := by
  refine yields_question_bind trivial fun fc hc => yields_question_bind trivial fun fd hd => ?_
  exact yields_pure ⟨h, rfl, rfl, (Except.ok.inj hc).symm, (Except.ok.inj hd).symm⟩

theorem goldenStep_keeps {g : GoldenState ℝ} (hs : g.span.left < g.span.right) (h : g.Keeps phi m) :
    Reports (answering phi) (GoldenState.Keeps phi m) (goldenStep g) := by
  obtain ⟨hlow, hapart, hhigh⟩ := inner_between hs
  rw [← h.c] at hlow hapart
  rw [← h.d] at hapart hhigh
  refine yields_ite (fun hless => ?_) fun hnot => ?_
  · have hless : phi g.c ≤ phi g.d := by
      rw [← h.fc, ← h.fd]
      exact hless.le
    have hstays : innerRight ⟨g.span.left, g.d⟩ = g.c := by rw [h.d, innerRight_dropRight, h.c]
    refine yields_question_bind trivial fun fc hc => yields_pure ?_
    exact ⟨h.unimodal.dropRight hlow hapart hhigh hless, rfl, hstays.symm,
      (Except.ok.inj hc).symm, h.fc⟩
  · have hnot : phi g.d ≤ phi g.c := by
      rw [← h.fc, ← h.fd]
      exact not_lt.mp hnot
    have hstays : innerLeft ⟨g.c, g.span.right⟩ = g.d := by rw [h.c, innerLeft_dropLeft, h.d]
    refine yields_question_bind trivial fun fd hd => yields_pure ?_
    exact ⟨h.unimodal.dropLeft hlow hapart hhigh hnot, hstays.symm, rfl, h.fd,
      (Except.ok.inj hd).symm⟩

theorem goldenLoop_keeps (htol : 0 < tol) (fuel count : Nat) {g : GoldenState ℝ}
    (h : g.Keeps phi m) :
    Reports (answering phi) (fun r => Unimodal phi r.1 m) (goldenLoop tol fuel count g) := by
  induction fuel generalizing count g with
  | zero => exact yields_pure h.unimodal
  | succ fuel ih =>
      unfold goldenLoop
      refine yields_ite (fun hwide => ?_) fun _ => yields_pure h.unimodal
      have hinside : g.span.left < g.span.right := sub_pos.mp (htol.trans hwide)
      exact yields_bind (goldenStep_keeps hinside h) fun g' hg' => ih (count + 1) hg'

end Minima.LineSearch
