import Minima.Proofs.Contraction

/-!
# The golden section with and without memory

The golden section keeps one of its two inner points, with the value there, from one interval to the
next. Among exact scalars that point divides what remains as it divided the whole, since the square of
the golden section and the golden section make up one. So whatever function is searched, undefined and
infinite values included, the search comes to the same outcome as the plain one, which computes both
points and asks for both values in every iteration, and it asks once per iteration.
-/

namespace Minima.LineSearch

open Dialogue Scalar Scalar.Exact

/-! ## Without memory -/

section

variable {R : Type} [Scalar R]

/-- Ask for the values at the shares `golden ^ 2` and `golden` of the width, and drop what lies beyond
the greater one. -/
def plainGoldenStep (s : Span R) : Probe R (Span R) := do
  let c := s.left + golden * golden * s.width
  let d := s.left + golden * s.width
  let fc ← Probe.valueAt c
  let fd ← Probe.valueAt d
  if fc < fd then return ⟨s.left, d⟩ else return ⟨c, s.right⟩

/-- The golden section that remembers nothing. -/
def plainGoldenSection (s : Span R) (tol : R) (limit : Nat) : Probe R (Outcome R) := do
  let (s', count) ← shrinkLoop plainGoldenStep tol limit 0 s
  finish .goldenSection tol .nothing s' count

end

/-! ## With memory -/

variable {R : Type} [Scalar R] [Exact R] {answer : R → Attempt R R} {phi : ℝ → R}

noncomputable def goldenAt (phi : ℝ → R) (s : Span ℝ) : GoldenState R where
  span := .ofReal s
  c := ofReal (innerLeft s)
  d := ofReal (innerRight s)
  fc := phi (innerLeft s)
  fd := phi (innerRight s)

noncomputable def goldenRest (phi : ℝ → R) (s : Span ℝ) : Span ℝ :=
  if phi (innerLeft s) < phi (innerRight s) then ⟨s.left, innerRight s⟩ else ⟨innerLeft s, s.right⟩

theorem goldenStart_follows (h : Answers answer phi) (s : Span ℝ) :
    (goldenStart (Span.ofReal s)).Follows answer [ofReal (innerLeft s), ofReal (innerRight s)]
      (goldenAt phi s) := by
  unfold goldenStart
  rw [innerLeft_ofReal, innerRight_ofReal]
  exact follows_question_bind (h _) (follows_question_bind (h _) (follows_pure _))

/-- If the right part is dropped, the left inner point is kept with its value as the right one. -/
theorem goldenAt_dropRight (phi : ℝ → R) (s : Span ℝ) :
    goldenAt phi ⟨s.left, innerRight s⟩ =
      { span := .ofReal ⟨s.left, innerRight s⟩
        c := ofReal (innerLeft ⟨s.left, innerRight s⟩)
        d := ofReal (innerLeft s)
        fc := phi (innerLeft ⟨s.left, innerRight s⟩)
        fd := phi (innerLeft s) } := by
  rw [goldenAt, innerRight_dropRight]

theorem goldenAt_dropLeft (phi : ℝ → R) (s : Span ℝ) :
    goldenAt phi ⟨innerLeft s, s.right⟩ =
      { span := .ofReal ⟨innerLeft s, s.right⟩
        c := ofReal (innerRight s)
        d := ofReal (innerRight ⟨innerLeft s, s.right⟩)
        fc := phi (innerRight s)
        fd := phi (innerRight ⟨innerLeft s, s.right⟩) } := by
  rw [goldenAt, innerLeft_dropLeft]

/-- The new point is an inner point of what remains. -/
theorem goldenStep_follows (h : Answers answer phi) (s : Span ℝ) :
    ∃ x, (goldenStep (goldenAt phi s)).Follows answer [ofReal x] (goldenAt phi (goldenRest phi s)) ∧
      (x = innerLeft (goldenRest phi s) ∨ x = innerRight (goldenRest phi s)) := by
  unfold goldenStep goldenRest
  by_cases hless : phi (innerLeft s) < phi (innerRight s)
  · have hc : innerLeft (⟨(goldenAt phi s).span.left, (goldenAt phi s).d⟩ : Span R) =
        ofReal (innerLeft ⟨s.left, innerRight s⟩) := innerLeft_ofReal ⟨s.left, innerRight s⟩
    rw [if_pos hless, if_pos (show (goldenAt phi s).fc < (goldenAt phi s).fd from hless),
      goldenAt_dropRight]
    simp only [hc]
    exact ⟨_, follows_question_bind (h _) (follows_pure _), .inl rfl⟩
  · have hd : innerRight (⟨(goldenAt phi s).c, (goldenAt phi s).span.right⟩ : Span R) =
        ofReal (innerRight ⟨innerLeft s, s.right⟩) := innerRight_ofReal ⟨innerLeft s, s.right⟩
    rw [if_neg hless, if_neg (show ¬ (goldenAt phi s).fc < (goldenAt phi s).fd from hless),
      goldenAt_dropLeft]
    simp only [hd]
    exact ⟨_, follows_question_bind (h _) (follows_pure _), .inr rfl⟩

/-! ## What remains -/

theorem inner_ordered {s : Span ℝ} (hs : s.left ≤ s.right) :
    s.left ≤ innerLeft s ∧ innerLeft s ≤ innerRight s ∧ innerRight s ≤ s.right := by
  rcases hs.lt_or_eq with hless | heq
  · obtain ⟨hlow, hapart, hhigh⟩ := inner_between hless
    exact ⟨hlow, hapart.le, hhigh⟩
  · have hwidth : s.width = 0 := sub_eq_zero.mpr heq.symm
    simp [innerLeft, innerRight, hwidth, heq]

theorem holds_inner {s : Span ℝ} (hs : s.left ≤ s.right) :
    s.Holds (innerLeft s) ∧ s.Holds (innerRight s) := by
  obtain ⟨hlow, hapart, hhigh⟩ := inner_ordered hs
  exact ⟨⟨hlow, hapart.trans hhigh⟩, ⟨hlow.trans hapart, hhigh⟩⟩

omit [Exact R] in
theorem goldenRest_within (phi : ℝ → R) {s : Span ℝ} (hs : s.left ≤ s.right) :
    (goldenRest phi s).Within s := by
  obtain ⟨⟨hlow, hnotAfter⟩, hnotBefore, hhigh⟩ := holds_inner hs
  unfold goldenRest
  split
  · exact ⟨le_rfl, hnotBefore, hhigh⟩
  · exact ⟨hlow, hnotAfter, le_rfl⟩

omit [Exact R] in
theorem width_goldenRest (phi : ℝ → R) (s : Span ℝ) :
    (goldenRest phi s).width = golden * s.width := by
  unfold goldenRest
  split
  · show s.left + golden * s.width - s.left = _
    ring
  · show s.right - (s.left + goldenSquare * s.width) = _
    rw [s.right_eq]
    linear_combination s.width * -golden_add_square

theorem plainGoldenStep_steps (h : Answers answer phi) :
    Steps answer plainGoldenStep (goldenRest phi) where
  follows s := by
    have hsquare : (golden : R) * golden = goldenSquare := by
      rw [golden_ofReal, goldenSquare_ofReal, mul_ofReal, golden_square]
    have hc : (Span.ofReal s : Span R).left + golden * golden * (Span.ofReal s).width =
        ofReal (innerLeft s) := by
      rw [hsquare]
      exact innerLeft_ofReal s
    have hd : (Span.ofReal s : Span R).left + golden * (Span.ofReal s).width =
        ofReal (innerRight s) := innerRight_ofReal s
    refine ⟨[innerLeft s, innerRight s], ?_, fun hs => ?_⟩
    · unfold plainGoldenStep goldenRest
      simp only [hc, hd]
      refine follows_question_bind (h _) (follows_question_bind (h _) ?_)
      split
      · exact follows_pure _
      · exact follows_pure _
    · simpa using holds_inner hs
  within s hs := goldenRest_within phi hs

/-! ## The search -/

section

variable (h : Answers answer phi)

include h

/-- Each iteration is one question for the loop that remembers. -/
theorem goldenLoop_follows (tol : R) (fuel count : Nat) (s : Span ℝ) :
    ∃ xs : List ℝ, (goldenLoop tol fuel count (goldenAt phi s)).Follows answer (xs.map ofReal)
        (.ofReal ((goldenRest phi)^[rounds (goldenRest phi) tol fuel s] s),
          count + rounds (goldenRest phi) tol fuel s) ∧
      xs.length = rounds (goldenRest phi) tol fuel s ∧
      (s.left ≤ s.right → ∀ x ∈ xs, s.Holds x) := by
  induction fuel generalizing count s with
  | zero => exact ⟨[], follows_pure _, rfl, by simp⟩
  | succ fuel ih =>
      have hspan : (goldenAt phi s).span.width = ofReal s.width := Span.width_ofReal s
      rw [goldenLoop, rounds, hspan]
      by_cases hwide : tol < ofReal s.width
      · obtain ⟨x, hstep, hinner⟩ := goldenStep_follows h s
        obtain ⟨xs, hloop, hlength, hrest⟩ := ih (count + 1) (goldenRest phi s)
        rw [Nat.add_right_comm] at hloop
        rw [if_pos hwide, if_pos hwide]
        refine ⟨x :: xs, follows_bind hstep hloop, congrArg (· + 1) hlength, fun hs => ?_⟩
        have hwithin := goldenRest_within phi hs
        obtain ⟨hleft, hright⟩ := holds_inner hwithin.ordered
        refine List.forall_mem_cons.mpr ⟨hwithin.holds ?_, fun y hy => ?_⟩
        · rcases hinner with rfl | rfl
          · exact hleft
          · exact hright
        · exact hwithin.holds (hrest hwithin.ordered y hy)
      · rw [if_neg hwide, if_neg hwide]
        exact ⟨[], follows_pure _, rfl, by simp⟩

theorem goldenSection_follows (tol : R) (limit : Nat) (s : Span ℝ) :
    ∃ xs : List ℝ, (goldenSection (.ofReal s) tol limit).Follows answer (xs.map ofReal)
        (reported .goldenSection tol .nothing phi
          ((goldenRest phi)^[rounds (goldenRest phi) tol limit s] s)
          (rounds (goldenRest phi) tol limit s)) ∧
      xs.length = rounds (goldenRest phi) tol limit s + 3 ∧
      (s.left ≤ s.right → ∀ x ∈ xs, s.Holds x) := by
  obtain ⟨xs, hloop, hlength, hinside⟩ := goldenLoop_follows h tol limit 0 s
  have hwithin (hs : s.left ≤ s.right) :=
    within_iterate (fun _ => goldenRest_within phi) hs (rounds (goldenRest phi) tol limit s)
  rw [Nat.zero_add] at hloop
  generalize (goldenRest phi)^[rounds (goldenRest phi) tol limit s] s = t at hloop hwithin ⊢
  have hfinish := finish_follows h hloop .goldenSection tol .nothing
  refine ⟨[innerLeft s, innerRight s] ++ (xs ++ [t.middle]), ?_, ?_, fun hs => ?_⟩
  · rw [List.map_append]
    exact follows_bind (goldenStart_follows h s) hfinish
  · simp only [List.length_append, List.length_cons, List.length_nil, hlength]
    omega
  · have hmiddle := (hwithin hs).holds (Span.holds_middle (hwithin hs).ordered)
    refine List.forall_mem_append.mpr ⟨by simpa using holds_inner hs, ?_⟩
    exact List.forall_mem_append.mpr ⟨hinside hs, List.forall_mem_singleton.mpr hmiddle⟩

theorem goldenSection_contained (tol : R) (limit : Nat) {s : Span ℝ} (hs : s.left ≤ s.right) :
    ∃ qs r, (goldenSection (.ofReal s) tol limit).Follows answer qs r ∧ Contained s qs r := by
  obtain ⟨xs, hfollows, -, hinside⟩ := goldenSection_follows h tol limit s
  have hwithin := within_iterate (fun _ => goldenRest_within phi) hs
  exact ⟨_, _, hfollows, contained_reported (hinside hs) (hwithin _) _ _ _ _⟩

end

/-- Whatever values a function has at the reals, the golden section comes to the outcome of the plain
one: the same interval, step and value after as many iterations, for the same reason. It asks for two
values before the first iteration, for one in each and for one at the end. -/
theorem golden_agrees_with_plain (phi : ℝ → Extended) (a b : ℝ) (tol : Extended) (limit : Nat) :
    ∃ r qs qs',
      (goldenSection (⟨a, b⟩ : Span Extended) tol limit).Follows (Extended.graph phi) qs r ∧
      (plainGoldenSection (⟨a, b⟩ : Span Extended) tol limit).Follows (Extended.graph phi) qs' r ∧
      qs.length = r.iterations + 3 := by
  have h := Extended.answers_graph phi
  obtain ⟨xs, hgolden, hlength, -⟩ := goldenSection_follows h tol limit ⟨a, b⟩
  obtain ⟨ys, hplain, -⟩ :=
    (plainGoldenStep_steps h).search h .goldenSection tol .nothing limit ⟨a, b⟩
  refine ⟨_, _, _, hgolden, hplain, ?_⟩
  rw [List.length_map, hlength]
  rfl

end Minima.LineSearch
