import Minima.Proofs.Brackets
import Minima.Proofs.ExactScalars
import Minima.Proofs.FirstTrials

/-!
# Intervals that shrink

Told the values of a function at the reals, a step of dichotomy or of halving takes an interval to a part
of it, and asks only inside. So a loop that takes such steps comes to an iterate of the interval, with as
many rounds as it takes until that is narrow enough, if there are enough of them. Of each interval
dichotomy leaves at most three quarters, and halving leaves one half.
-/

namespace Minima.LineSearch

open Dialogue Scalar Scalar.Exact

/-! ## Parts of an interval -/

structure Span.Within (t s : Span ℝ) : Prop where
  left : s.left ≤ t.left
  ordered : t.left ≤ t.right
  right : t.right ≤ s.right

namespace Span.Within

variable {s t u : Span ℝ} {x : ℝ}

theorem refl (hs : s.left ≤ s.right) : s.Within s := ⟨le_rfl, hs, le_rfl⟩

theorem trans (h : u.Within t) (h' : t.Within s) : u.Within s :=
  ⟨h'.left.trans h.left, h.ordered, h.right.trans h'.right⟩

theorem holds (h : t.Within s) (hx : t.Holds x) : s.Holds x :=
  ⟨h.left.trans hx.1, hx.2.trans h.right⟩

end Span.Within

theorem Span.holds_middle {s : Span ℝ} (hs : s.left ≤ s.right) : s.Holds s.middle := by
  rw [Holds, middle_eq]
  constructor
  · linarith
  · linarith

section

variable {next : Span ℝ → Span ℝ} {s : Span ℝ} {share : ℝ}

theorem within_iterate (h : ∀ s, s.left ≤ s.right → (next s).Within s) (hs : s.left ≤ s.right)
    (k : Nat) : (next^[k] s).Within s := by
  induction k with
  | zero => exact .refl hs
  | succ k ih =>
      rw [Function.iterate_succ_apply']
      exact (h _ ih.ordered).trans ih

theorem width_iterate (h : ∀ s, (next s).width = share * s.width) (s : Span ℝ) (k : Nat) :
    (next^[k] s).width = share ^ k * s.width := by
  induction k with
  | zero => simp
  | succ k ih => rw [Function.iterate_succ_apply', h, ih, pow_succ', mul_assoc]

theorem width_iterate_le (hshare : 0 ≤ share) (h : ∀ s, (next s).width ≤ share * s.width)
    (s : Span ℝ) (k : Nat) : (next^[k] s).width ≤ share ^ k * s.width := by
  induction k with
  | zero => simp
  | succ k ih =>
      rw [Function.iterate_succ_apply', pow_succ', mul_assoc]
      exact (h _).trans (mul_le_mul_of_nonneg_left ih hshare)

end

variable {R : Type} [Scalar R] [Exact R] {answer : R → Attempt R R} {phi : ℝ → R}

/-! ## The rounds of a loop -/

/-- How many steps there are from an interval on until it is no wider than `tol`, at most `fuel`. -/
noncomputable def rounds (next : Span ℝ → Span ℝ) (tol : R) : (fuel : Nat) → Span ℝ → Nat
  | 0, _ => 0
  | fuel + 1, s => if tol < ofReal s.width then rounds next tol fuel (next s) + 1 else 0

section

variable {next : Span ℝ → Span ℝ} {tol : R} {fuel k : Nat} {s : Span ℝ}

theorem rounds_le (next : Span ℝ → Span ℝ) (tol : R) (fuel : Nat) (s : Span ℝ) :
    rounds next tol fuel s ≤ fuel := by
  induction fuel generalizing s with
  | zero => exact le_rfl
  | succ fuel ih =>
      rw [rounds]
      split
      · exact Nat.succ_le_succ (ih _)
      · exact Nat.zero_le _

/-- Before the last round the interval is too wide. -/
theorem wide_of_lt_rounds (hk : k < rounds next tol fuel s) : tol < ofReal (next^[k] s).width := by
  induction fuel generalizing k s with
  | zero => cases hk
  | succ fuel ih =>
      rw [rounds] at hk
      split at hk
      · rename_i hwide
        cases k with
        | zero => exact hwide
        | succ k =>
            rw [Function.iterate_succ_apply]
            exact ih (Nat.lt_of_succ_lt_succ hk)
      · cases hk

/-- If there could be more rounds, the interval is not too wide after the last one. -/
theorem not_wide_rounds (h : rounds next tol fuel s < fuel) :
    ¬ tol < ofReal (next^[rounds next tol fuel s] s).width := by
  induction fuel generalizing s with
  | zero => cases h
  | succ fuel ih =>
      rw [rounds] at h ⊢
      split
      · rename_i hwide
        rw [if_pos hwide] at h
        exact ih (Nat.lt_of_succ_lt_succ h)
      · rename_i hnarrow
        exact hnarrow

end

/-- Told the values of a function, a step takes every interval to its rest, and asks only inside. -/
structure Steps (answer : R → Attempt R R) (step : Span R → Probe R (Span R))
    (next : Span ℝ → Span ℝ) : Prop where
  follows : ∀ s, ∃ xs : List ℝ,
    (step (.ofReal s)).Follows answer (xs.map ofReal) (.ofReal (next s)) ∧
    (s.left ≤ s.right → ∀ x ∈ xs, s.Holds x)
  within : ∀ s, s.left ≤ s.right → (next s).Within s

theorem Steps.shrinkLoop {step : Span R → Probe R (Span R)} {next : Span ℝ → Span ℝ}
    (h : Steps answer step next) (tol : R) (fuel count : Nat) (s : Span ℝ) :
    ∃ xs : List ℝ, (shrinkLoop step tol fuel count (.ofReal s)).Follows answer (xs.map ofReal)
        (.ofReal (next^[rounds next tol fuel s] s), count + rounds next tol fuel s) ∧
      (s.left ≤ s.right → ∀ x ∈ xs, s.Holds x) := by
  induction fuel generalizing count s with
  | zero => exact ⟨[], follows_pure _, by simp⟩
  | succ fuel ih =>
      rw [LineSearch.shrinkLoop, rounds, Span.width_ofReal]
      by_cases hwide : tol < ofReal s.width
      · obtain ⟨xs, hstep, hasked⟩ := h.follows s
        obtain ⟨ys, hloop, hrest⟩ := ih (count + 1) (next s)
        rw [Nat.add_right_comm] at hloop
        rw [if_pos hwide, if_pos hwide]
        refine ⟨xs ++ ys, ?_, fun hs x hx => ?_⟩
        · rw [List.map_append]
          exact follows_bind hstep hloop
        · have hwithin := h.within s hs
          rcases List.mem_append.mp hx with hx | hx
          · exact hasked hs x hx
          · exact hwithin.holds (hrest hwithin.ordered x hx)
      · rw [if_neg hwide, if_neg hwide]
        exact ⟨[], follows_pure _, by simp⟩

/-! ## What is reported of an interval -/

/-- The report of a search that ends in the middle of an interval. -/
noncomputable def reported (kind : Kind) (tol : R) (extra : Extra R) (phi : ℝ → R) (t : Span ℝ)
    (iterations : Nat) : Outcome R where
  alpha := ofReal t.middle
  value := phi t.middle
  iterations
  evaluations := 0
  method := kind
  left := ofReal t.left
  right := ofReal t.right
  stop := if ofReal t.width ≤ tol then .tolerance else .iterationLimit
  extra

def Span.Contains (s : Span ℝ) (a : R) : Prop := ∃ x : ℝ, a = Exact.ofReal x ∧ s.Holds x

theorem Span.Within.contains {s t : Span ℝ} {a : R} (h : t.Within s) (ha : t.Contains a) :
    s.Contains a := by
  obtain ⟨x, rfl, hx⟩ := ha
  exact ⟨x, rfl, h.holds hx⟩

/-- A search that has asked, and reports, only what lies in an interval. -/
structure Contained (s : Span ℝ) (qs : List R) (r : Outcome R) : Prop where
  asked : ∀ q ∈ qs, s.Contains q
  alpha : s.Contains r.alpha
  span : ∃ t : Span ℝ, t.Within s ∧ r.left = ofReal t.left ∧ r.right = ofReal t.right

theorem Contained.mono {s t : Span ℝ} {qs : List R} {r : Outcome R} (h : Contained t qs r)
    (hwithin : t.Within s) : Contained s qs r where
  asked q hq := hwithin.contains (h.asked q hq)
  alpha := hwithin.contains h.alpha
  span := by
    obtain ⟨u, hu, hends⟩ := h.span
    exact ⟨u, hu.trans hwithin, hends⟩

theorem asked_map {s : Span ℝ} {xs : List ℝ} (h : ∀ x ∈ xs, s.Holds x) :
    ∀ q ∈ xs.map (ofReal : ℝ → R), s.Contains q := by
  intro q hq
  obtain ⟨x, hx, rfl⟩ := List.mem_map.mp hq
  exact ⟨x, rfl, h x hx⟩

theorem contained_reported {s t : Span ℝ} {xs : List ℝ} (h : ∀ x ∈ xs, s.Holds x)
    (hwithin : t.Within s) (kind : Kind) (tol : R) (extra : Extra R) (n : Nat) :
    Contained s (xs.map ofReal) (reported kind tol extra phi t n) where
  asked := asked_map h
  alpha := ⟨_, rfl, hwithin.holds (Span.holds_middle hwithin.ordered)⟩
  span := ⟨t, hwithin, rfl, rfl⟩

/-- A loop that has come to an interval asks for the value in its middle. -/
theorem finish_follows (h : Answers answer phi) {loop : Probe R (Span R × Nat)} {xs : List ℝ}
    {t : Span ℝ} {n : Nat} (hloop : loop.Follows answer (xs.map ofReal) (.ofReal t, n))
    (kind : Kind) (tol : R) (extra : Extra R) :
    (loop >>= fun r => finish kind tol extra r.1 r.2).Follows answer
      ((xs ++ [t.middle]).map ofReal) (reported kind tol extra phi t n) := by
  rw [List.map_append]
  refine follows_bind hloop ?_
  unfold finish
  rw [Span.middle_ofReal, Span.width_ofReal]
  exact follows_question_bind (h _) (follows_pure _)

theorem Steps.search (h : Answers answer phi) {step : Span R → Probe R (Span R)}
    {next : Span ℝ → Span ℝ} (hstep : Steps answer step next) (kind : Kind) (tol : R)
    (extra : Extra R) (limit : Nat) (s : Span ℝ) :
    ∃ xs : List ℝ,
      (LineSearch.shrinkLoop step tol limit 0 (.ofReal s) >>= fun r =>
        finish kind tol extra r.1 r.2).Follows answer (xs.map ofReal)
          (reported kind tol extra phi (next^[rounds next tol limit s] s)
            (rounds next tol limit s)) ∧
      (s.left ≤ s.right → ∀ x ∈ xs, s.Holds x) := by
  obtain ⟨xs, hloop, hinside⟩ := hstep.shrinkLoop tol limit 0 s
  rw [Nat.zero_add] at hloop
  refine ⟨_, finish_follows h hloop kind tol extra, fun hs => ?_⟩
  have hwithin := within_iterate hstep.within hs (rounds next tol limit s)
  refine List.forall_mem_append.mpr ⟨hinside hs, List.forall_mem_singleton.mpr ?_⟩
  exact hwithin.holds (Span.holds_middle hwithin.ordered)

/-! ## Dichotomy -/

noncomputable def dichotomyOffset (delta : ℝ) (s : Span ℝ) : ℝ := lesser delta (0.25 * s.width)

noncomputable def dichotomyRest (phi : ℝ → R) (delta : ℝ) (s : Span ℝ) : Span ℝ :=
  if phi (s.middle - dichotomyOffset delta s) < phi (s.middle + dichotomyOffset delta s) then
    ⟨s.left, s.middle + dichotomyOffset delta s⟩
  else ⟨s.middle - dichotomyOffset delta s, s.right⟩

theorem dichotomyOffset_le (delta : ℝ) (s : Span ℝ) : dichotomyOffset delta s ≤ s.width / 4 := by
  rw [dichotomyOffset, RealScalar.lesser_eq_min]
  refine (min_le_right _ _).trans_eq ?_
  norm_num
  ring

theorem dichotomyOffset_nonneg {delta : ℝ} (hdelta : 0 ≤ delta) {s : Span ℝ}
    (hs : s.left ≤ s.right) : 0 ≤ dichotomyOffset delta s := by
  have hwidth : 0 ≤ s.width := sub_nonneg.mpr hs
  rw [dichotomyOffset, RealScalar.lesser_eq_min]
  exact le_min hdelta (by positivity)

theorem dichotomy_between {delta : ℝ} (hdelta : 0 ≤ delta) {s : Span ℝ} (hs : s.left ≤ s.right) :
    s.left ≤ s.middle - dichotomyOffset delta s ∧
      s.middle - dichotomyOffset delta s ≤ s.middle + dichotomyOffset delta s ∧
      s.middle + dichotomyOffset delta s ≤ s.right := by
  have hwidth : 0 ≤ s.width := sub_nonneg.mpr hs
  have hright := s.right_eq
  have hmiddle := s.middle_eq
  have hquarter := dichotomyOffset_le delta s
  have hnonneg := dichotomyOffset_nonneg hdelta hs
  refine ⟨?_, ?_, ?_⟩
  · linarith
  · linarith
  · linarith

omit [Exact R] in
theorem width_dichotomyRest_le (phi : ℝ → R) (delta : ℝ) (s : Span ℝ) :
    (dichotomyRest phi delta s).width ≤ 3 / 4 * s.width := by
  have hright := s.right_eq
  have hmiddle := s.middle_eq
  have hquarter := dichotomyOffset_le delta s
  unfold dichotomyRest
  split
  · show s.middle + dichotomyOffset delta s - s.left ≤ _
    linarith
  · show s.right - (s.middle - dichotomyOffset delta s) ≤ _
    linarith

theorem dichotomy_steps (h : Answers answer phi) {delta : ℝ} (hdelta : 0 ≤ delta) :
    Steps answer (dichotomyStep (ofReal delta)) (dichotomyRest phi delta) where
  follows s := by
    have hoffset : lesser (ofReal delta : R) (0.25 * (Span.ofReal s : Span R).width) =
        ofReal (dichotomyOffset delta s) := by
      rw [Span.width_ofReal, literal, mul_ofReal, lesser_ofReal]
      rfl
    refine ⟨[s.middle - dichotomyOffset delta s, s.middle + dichotomyOffset delta s], ?_, ?_⟩
    · unfold dichotomyStep dichotomyRest
      simp only [hoffset, Span.middle_ofReal, sub_ofReal, add_ofReal]
      refine follows_question_bind (h _) (follows_question_bind (h _) ?_)
      split
      · exact follows_pure _
      · exact follows_pure _
    · intro hs
      obtain ⟨hlow, hapart, hhigh⟩ := dichotomy_between hdelta hs
      simp only [List.mem_cons, List.not_mem_nil, or_false, forall_eq_or_imp, forall_eq]
      exact ⟨⟨hlow, hapart.trans hhigh⟩, ⟨hlow.trans hapart, hhigh⟩⟩
  within s hs := by
    obtain ⟨hlow, hapart, hhigh⟩ := dichotomy_between hdelta hs
    unfold dichotomyRest
    split
    · exact ⟨le_rfl, hlow.trans hapart, hhigh⟩
    · exact ⟨hlow, hapart.trans hhigh, le_rfl⟩

/-! ## Halving -/

noncomputable def quarterPoint (s : Span ℝ) (k : Nat) : ℝ := s.left + k * (0.25 * s.width)

noncomputable def halvingRest (phi : ℝ → R) (s : Span ℝ) : Span ℝ :=
  if phi (quarterPoint s 1) < phi (quarterPoint s 2) then ⟨s.left, quarterPoint s 2⟩
  else if phi (quarterPoint s 3) < phi (quarterPoint s 2) then ⟨quarterPoint s 2, s.right⟩
  else ⟨quarterPoint s 1, quarterPoint s 3⟩

theorem quarterPoint_le {s : Span ℝ} (hs : s.left ≤ s.right) {j k : Nat} (hjk : j ≤ k) :
    quarterPoint s j ≤ quarterPoint s k := by
  have hwidth : 0 ≤ s.width := sub_nonneg.mpr hs
  unfold quarterPoint
  gcongr

theorem holds_quarterPoint {s : Span ℝ} (hs : s.left ≤ s.right) {k : Nat} (hk : k ≤ 4) :
    s.Holds (quarterPoint s k) := by
  have hfirst : quarterPoint s 0 = s.left := by simp [quarterPoint]
  have hlast : quarterPoint s 4 = s.right := by
    rw [quarterPoint, Span.width]
    norm_num
    ring
  exact ⟨hfirst.symm.trans_le (quarterPoint_le hs (Nat.zero_le k)),
    (quarterPoint_le hs hk).trans_eq hlast⟩

omit [Exact R] in
theorem width_halvingRest (phi : ℝ → R) (s : Span ℝ) :
    (halvingRest phi s).width = 1 / 2 * s.width := by
  have hright := s.right_eq
  unfold halvingRest quarterPoint
  split
  · show s.left + _ - s.left = _
    norm_num
    ring
  · split
    · show s.right - _ = _
      rw [hright]
      norm_num
      ring
    · show s.left + _ - (s.left + _) = _
      norm_num
      ring

theorem halving_steps (h : Answers answer phi) :
    Steps answer halvingStep (halvingRest phi) where
  follows s := by
    have hquarter : (0.25 : R) * (Span.ofReal s : Span R).width = ofReal (0.25 * s.width) := by
      rw [Span.width_ofReal, literal, mul_ofReal]
    have hplace (k : Nat) {c : ℝ} (hc : c = k) :
        (ofReal s.left : R) + ofReal (c * (0.25 * s.width)) = ofReal (quarterPoint s k) := by
      rw [add_ofReal, quarterPoint, hc]
    have h1 : (ofReal s.left : R) + ofReal (0.25 * s.width) = ofReal (quarterPoint s 1) := by
      rw [← hplace 1 Nat.cast_one.symm, one_mul]
    have h2 : (ofReal s.left : R) + 2.0 * ofReal (0.25 * s.width) = ofReal (quarterPoint s 2) := by
      rw [literal, mul_ofReal]
      exact hplace 2 (by norm_num)
    have h3 : (ofReal s.left : R) + 3.0 * ofReal (0.25 * s.width) = ofReal (quarterPoint s 3) := by
      rw [literal, mul_ofReal]
      exact hplace 3 (by norm_num)
    refine ⟨[quarterPoint s 1, quarterPoint s 2, quarterPoint s 3], ?_, fun hs => ?_⟩
    · unfold halvingStep halvingRest
      simp only [hquarter]
      simp only [Span.ofReal, h1, h2, h3]
      refine follows_question_bind (h _) (follows_question_bind (h _)
        (follows_question_bind (h _) ?_))
      split
      · exact follows_pure _
      · split
        · exact follows_pure _
        · exact follows_pure _
    · simp only [List.mem_cons, List.not_mem_nil, or_false, forall_eq_or_imp, forall_eq]
      exact ⟨holds_quarterPoint hs (by decide), holds_quarterPoint hs (by decide),
        holds_quarterPoint hs (by decide)⟩
  within s hs := by
    have hfirst := quarterPoint_le hs (show 1 ≤ 2 by decide)
    have hlast := quarterPoint_le hs (show 2 ≤ 3 by decide)
    have hinner {k : Nat} (hk : k ≤ 4) : s.Holds (quarterPoint s k) := holds_quarterPoint hs hk
    unfold halvingRest
    split
    · exact ⟨le_rfl, (hinner (by decide)).1, (hinner (by decide)).2⟩
    · split
      · exact ⟨(hinner (by decide)).1, (hinner (by decide)).2, le_rfl⟩
      · exact ⟨(hinner (by decide)).1, hfirst.trans hlast, (hinner (by decide)).2⟩

end Minima.LineSearch
