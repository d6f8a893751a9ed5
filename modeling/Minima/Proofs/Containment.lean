import Minima.Proofs.CubicRounds

/-!
# Searches stay inside

Every search but backtracking asks only for values inside its interval, and reports a step and a part of
that interval, whatever values it is answered: undefined ones, for which no comparison holds, included.
The walk of step adaptation is cut at the border, and so is its bracket. Dichotomy, halving and the golden
section work on one interval after the other, each a part of the one before, whose widths fall at least
as fast as a geometric sequence. So they end for the tolerance as soon as there are enough iterations.
-/

namespace Minima.LineSearch

open Dialogue Scalar Scalar.Exact

variable {R : Type} [Scalar R] [Exact R]

/-! ## Options -/

/-- Options that are reals wherever they are given. -/
def RealOptions (options : Options R) : Prop :=
  ∀ key given, options.get? key = some given → ∃ x : ℝ, given.toReal = .ok (ofReal x)

theorem RealOptions.realD {options : Options R} (h : RealOptions options) (key : String)
    (default : ℝ) : ∃ x : ℝ, options.realD key (ofReal default) = .ok (ofReal x) := by
  unfold Options.realD
  cases hgiven : options.get? key with
  | none => exact ⟨default, rfl⟩
  | some given => exact h key given hgiven

theorem realOptions_nil : RealOptions ([] : Options R) := nofun

theorem replaced_ofReal (bound given fallback : ℝ) :
    (if (ofReal given : R) ≤ ofReal bound then (ofReal fallback : R) else ofReal given) =
      ofReal (if given ≤ bound then fallback else given) := by
  simp only [ofReal_le, apply_ite (ofReal : ℝ → R)]

/-! ## Step adaptation -/

section

variable {s : Span ℝ} (hs : s.left ≤ s.right)

theorem between_within {x y : ℝ} (hx : s.Holds x) (hy : s.Holds y) :
    (Span.between x y).Within s := by
  unfold Span.between
  split
  · rename_i hless
    exact ⟨hy.1, hless.le, hx.2⟩
  · rename_i hnot
    exact ⟨hx.1, not_lt.mp hnot, hy.2⟩

/-- Walking on, it asks only inside, and the bracket stays inside. -/
theorem expandLoop_contained (direction expand : ℝ) (fuel count : Nat) {bracket : Span ℝ}
    (hbracket : bracket.Within s) (h : ℝ) {prev curr : ℝ} (hprev : s.Holds prev)
    (hcurr : s.Holds curr) (fCurr : R) :
    (expandLoop (.ofReal s) (ofReal direction) (ofReal expand) fuel count (.ofReal bracket)
      (ofReal h) (ofReal prev) (ofReal curr) fCurr).Meets s.Contains
        (fun r => ∃ t : Span ℝ, r.1 = .ofReal t ∧ t.Within s) (fun _ => False) := by
  induction fuel generalizing count h prev curr fCurr with
  | zero => exact meets_pure ⟨bracket, rfl, hbracket⟩
  | succ fuel ih =>
      have hlesser : s.Holds (lesser prev curr) := by
        unfold lesser
        split
        · exact hcurr
        · exact hprev
      have hgreater : s.Holds (greater prev curr) := by
        unfold greater
        split
        · exact hcurr
        · exact hprev
      unfold expandLoop
      simp only [mul_ofReal, add_ofReal, Span.ofReal, ofReal_lt]
      refine meets_ite (fun _ => meets_pure ?_) fun hin => ?_
      · -- the bracket ends at a border
        rw [lesser_ofReal, greater_ofReal]
        split
        · exact ⟨⟨lesser prev curr, s.right⟩, rfl, hlesser.1, hlesser.2, le_rfl⟩
        · exact ⟨⟨s.left, greater prev curr⟩, rfl, le_rfl, hgreater.1, hgreater.2⟩
      have hnext : s.Holds (curr + direction * (h * expand)) := by
        obtain ⟨hlow, hhigh⟩ := not_or.mp hin
        exact ⟨not_lt.mp hlow, not_lt.mp hhigh⟩
      refine meets_question_bind ⟨_, rfl, hnext⟩ fun fNext => ?_
      refine meets_ite (fun _ => meets_pure ?_) fun _ => ih _ _ hcurr hnext _
      exact ⟨_, Span.between_ofReal _ _, between_within hprev hnext⟩

include hs

theorem fallingDirection?_contained (alpha0 h : ℝ) (phi0 : R) (signs : List ℝ) :
    (fallingDirection? (.ofReal s) (ofReal alpha0) (ofReal h) phi0 (signs.map ofReal)).Meets
      s.Contains (fun found => ∀ d, found = some d → ∃ x : ℝ, d = ofReal x) (fun _ => False) := by
  induction signs with
  | nil => exact meets_pure nofun
  | cons sign signs ih =>
      rw [List.map_cons]
      unfold fallingDirection?
      simp only [mul_ofReal, add_ofReal, Span.confine_ofReal]
      refine meets_ite (fun _ => ih) fun _ => ?_
      refine meets_question_bind ⟨_, rfl, Span.holds_confine hs _⟩ fun value => ?_
      refine meets_ite (fun _ => meets_pure ?_) fun _ => ih
      rintro _ ⟨⟩
      exact ⟨sign, rfl⟩

theorem bracket?_contained (limit : Nat) {alpha0 : ℝ} (h expand : ℝ) (halpha0 : s.Holds alpha0) :
    (bracket? (.ofReal s) limit (ofReal alpha0 : R) (ofReal h) (ofReal expand)).Meets s.Contains
      (fun r => ∃ t : Span ℝ, r.1.getD (.ofReal s) = .ofReal t ∧ t.Within s) (fun _ => False) := by
  have hsigns : ([1.0, -1.0] : List R) = [1.0, -1.0].map ofReal := by
    rw [List.map_cons, List.map_cons, literal, neg_ofReal]
    rfl
  unfold bracket?
  rw [hsigns]
  refine meets_question_bind ⟨alpha0, rfl, halpha0⟩ fun phi0 => ?_
  refine meets_bind (fallingDirection?_contained hs alpha0 h phi0 _) fun direction? hfound => ?_
  cases direction? with
  | none => exact meets_pure ⟨s, rfl, .refl hs⟩
  | some direction =>
      obtain ⟨d, rfl⟩ := hfound _ rfl
      have hcurr := Span.holds_confine hs (alpha0 + d * h)
      simp only [mul_ofReal, add_ofReal, Span.confine_ofReal, Span.between_ofReal]
      refine meets_question_bind ⟨_, rfl, hcurr⟩ fun fCurr => ?_
      refine meets_bind (expandLoop_contained d expand limit 0 (between_within halpha0 hcurr) h
        halpha0 hcurr fCurr) fun r hr => meets_pure hr

end

/-! ## Working intervals -/

/-- The intervals that a search works on, one after each iteration: each is a part of the one before,
and three of the methods narrow them at a known rate. -/
structure Narrowing (kind : Kind) (s : Span ℝ) (spans : Nat → Span ℝ) : Prop where
  start : spans 0 = s
  nested : ∀ k, (spans (k + 1)).Within (spans k)
  dichotomy : kind = .dichotomy → ∀ k, (spans k).width ≤ (3 / 4) ^ k * s.width
  halving : kind = .intervalHalving → ∀ k, (spans k).width = s.width / 2 ^ k
  golden : kind = .goldenSection → ∀ k, (spans k).width = ((√5 - 1) / 2) ^ k * s.width

/-- A search that reports the interval on which it works after its last iteration, which is the first
that is no wider than the tolerance, or that at which the iterations are used up. -/
structure Reaches (spans : Nat → Span ℝ) (tol : ℝ) (limit : Nat) (r : Outcome R) : Prop where
  left : r.left = ofReal (spans r.iterations).left
  right : r.right = ofReal (spans r.iterations).right
  iterations_le : r.iterations ≤ limit
  wide : ∀ k < r.iterations, tol < (spans k).width
  stop_iff : r.stop = .tolerance ↔ (spans r.iterations).width ≤ tol
  exhausts : r.stop ≠ .tolerance → r.iterations = limit
  stops : ∀ k ≤ limit, (spans k).width ≤ tol → r.stop = .tolerance

section

variable {answer : R → Attempt R R} {phi : ℝ → R} {s : Span ℝ} {next : Span ℝ → Span ℝ}

theorem reported_reaches (next : Span ℝ → Span ℝ) (s : Span ℝ) (tol : ℝ) (limit : Nat) (kind : Kind)
    (extra : Extra R) :
    Reaches (fun k => next^[k] s) tol limit
      (reported kind (ofReal tol) extra phi (next^[rounds next (ofReal tol : R) limit s] s)
        (rounds next (ofReal tol : R) limit s)) := by
  have hle := rounds_le next (ofReal tol : R) limit s
  have hwide {k : Nat} (hk : k < rounds next (ofReal tol : R) limit s) :
      tol < (next^[k] s).width := ofReal_lt.mp (wide_of_lt_rounds hk)
  have hnarrow (h : rounds next (ofReal tol : R) limit s < limit) :
      (next^[rounds next (ofReal tol : R) limit s] s).width ≤ tol :=
    not_lt.mp fun hless => not_wide_rounds h (ofReal_lt.mpr hless)
  have hstop : (reported kind (ofReal tol) extra phi (next^[rounds next (ofReal tol : R) limit s] s)
        (rounds next (ofReal tol : R) limit s)).stop = .tolerance ↔
      (next^[rounds next (ofReal tol : R) limit s] s).width ≤ tol := by
    simp [reported, ofReal_le]
  refine ⟨rfl, rfl, hle, fun k => hwide, hstop, fun hne => ?_, fun k hk hsmall => hstop.mpr ?_⟩
  · by_contra hless
    exact hne (hstop.mpr (hnarrow (lt_of_le_of_ne hle hless)))
  · rcases hle.lt_or_eq with hless | heq
    · exact hnarrow hless
    · rw [heq] at hwide ⊢
      rcases hk.lt_or_eq with hless | rfl
      · exact absurd hsmall (hwide hless).not_ge
      · exact hsmall

theorem narrowing_iterate (hwithin : ∀ s, s.left ≤ s.right → (next s).Within s)
    (hs : s.left ≤ s.right) {kind : Kind}
    (hdichotomy : kind = .dichotomy → ∀ s, (next s).width ≤ 3 / 4 * s.width)
    (hhalving : kind = .intervalHalving → ∀ s, (next s).width = 1 / 2 * s.width)
    (hgolden : kind = .goldenSection → ∀ s, (next s).width = golden * s.width) :
    Narrowing kind s fun k => next^[k] s where
  start := rfl
  nested k := by
    rw [Function.iterate_succ_apply']
    exact hwithin _ (within_iterate hwithin hs k).ordered
  dichotomy hkind := width_iterate_le (by norm_num) (hdichotomy hkind) s
  halving hkind k := by
    rw [width_iterate (hhalving hkind), one_div, inv_pow]
    ring
  golden hkind k := by rw [width_iterate (hgolden hkind), golden_eq]

/-! ## Every search -/

/-- The search stays inside and works on the given intervals. -/
def Narrows (answer : R → Attempt R R) (s : Span ℝ) (spans : Nat → Span ℝ) (tol : ℝ) (limit : Nat)
    (search : Probe R (Outcome R)) : Prop :=
  ∃ qs r, search.Follows answer qs r ∧ Contained s qs r ∧ Reaches spans tol limit r

theorem Steps.narrows (h : Answers answer phi) {step : Span R → Probe R (Span R)}
    (hstep : Steps answer step next) (hs : s.left ≤ s.right) (kind : Kind) (tol : ℝ)
    (extra : Extra R) (limit : Nat) :
    Narrows answer s (fun k => next^[k] s) tol limit
      (LineSearch.shrinkLoop step (ofReal tol) limit 0 (.ofReal s) >>= fun r =>
        finish kind (ofReal tol) extra r.1 r.2) := by
  obtain ⟨xs, hfollows, hinside⟩ := hstep.search h kind (ofReal tol) extra limit s
  have hwithin := within_iterate hstep.within hs
  exact ⟨_, _, hfollows, contained_reported (hinside hs) (hwithin _) .., reported_reaches ..⟩

variable (h : Answers answer phi) (hs : s.left ≤ s.right) {options : Options R}

include h hs

theorem goldenSection_narrows (tol : ℝ) (limit : Nat) :
    Narrows answer s (fun k => (goldenRest phi)^[k] s) tol limit
      (goldenSection (.ofReal s) (ofReal tol) limit) := by
  obtain ⟨xs, hfollows, -, hinside⟩ := goldenSection_follows h (ofReal tol) limit s
  have hwithin := within_iterate (fun _ => goldenRest_within phi) hs
  exact ⟨_, _, hfollows, contained_reported (hinside hs) (hwithin _) .., reported_reaches ..⟩

/-- The option of dichotomy is read once, for whatever number of iterations. -/
theorem dichotomy_narrows (ho : RealOptions options) (tol : ℝ) :
    ∃ delta, 0 ≤ delta ∧ ∀ limit, Narrows answer s (fun k => (dichotomyRest phi delta)^[k] s) tol
      limit (dichotomy (.ofReal s) (ofReal tol) limit options) := by
  have hdefault : (0.25 : R) * ofReal tol = ofReal (0.25 * tol) := by rw [literal, mul_ofReal]
  obtain ⟨given, hgiven⟩ := ho.realD "delta" (0.25 * tol)
  obtain ⟨delta, hdelta, hpos⟩ : ∃ delta : ℝ,
      (if given ≤ 0.0 then 1e-8 else given) = delta ∧ 0.0 < delta :=
    ⟨_, rfl, lt_replaced (by norm_num)⟩
  have hnonneg : 0 ≤ delta := RealScalar.zero_literal.symm.trans_le hpos.le
  refine ⟨delta, hnonneg, fun limit => ?_⟩
  obtain ⟨qs, r, hfollows, hr⟩ := (dichotomy_steps h hnonneg).narrows h hs .dichotomy tol
    (.offset (ofReal delta)) limit
  refine ⟨qs, r, ?_, hr⟩
  unfold dichotomy
  rw [hdefault]
  refine follows_lift_bind hgiven ?_
  rw [literal (R := R), literal (R := R), replaced_ofReal, hdelta]
  exact hfollows

omit hs in
theorem cubic_contained (hs : s.left < s.right) (tol : R) (limit : Nat) :
    ∃ qs r, (cubic (.ofReal s) tol limit).Follows answer qs r ∧ Contained s qs r := by
  have hgrid : SampledAt phi (grid s) (gridWindow phi s) := sampledAt_gridWindow phi hs
  obtain ⟨steps, last, t', hloop, hsampled, hrefines, -⟩ := cubicLoop_follows h tol limit 0 hgrid
  obtain ⟨more, r, hcubic, hcontained, -⟩ := cubic_follows h hloop hsampled
  have hseen {x : ℝ} (hx : Seen (grid s) steps x) : s.Holds x := by
    have hbetween := hrefines.between hgrid.ascending hx
    rwa [grid_first, grid_last] at hbetween
  have hends : t' 0 ≤ t' 3 := hsampled.ascending.monotone (Fin.zero_le 3)
  have hlast := hcontained.mono
    ⟨(hseen (hrefines.drawn 0)).1, hends, (hseen (hrefines.drawn 3)).2⟩
  refine ⟨_, r, hcubic, ⟨?_, hlast.alpha, hlast.span⟩⟩
  refine List.forall_mem_append.mpr ⟨asked_map fun x hx => hseen ?_, hlast.asked⟩
  exact (List.mem_append.mp hx).imp_left List.mem_ofFn.mp

theorem stepAdaptation_contained (ho : RealOptions options) (tol : R) (limit : Nat) :
    ∃ qs r, (stepAdaptation (.ofReal s) tol limit options).Follows answer qs r ∧
      Contained s qs r := by
  have hanswer (q : R) (hq : s.Contains q) : ∃ v, answer q = .ok v := by
    obtain ⟨x, rfl, -⟩ := hq
    exact ⟨_, h x⟩
  have hhalf : (0.5 : R) * (Span.ofReal s : Span R).width = ofReal (0.5 * s.width) := by
    rw [Span.width_ofReal, literal, mul_ofReal]
  obtain ⟨start, hstart⟩ := ho.realD "alpha0" s.left
  obtain ⟨given, hgiven⟩ := ho.realD "initial_step" (0.5 * s.width)
  obtain ⟨growth, hgrowth⟩ := ho.realD "expand_factor" 2.0
  have hbracket := bracket?_contained (R := R) hs limit
    (if given ≤ 0.0 then 0.5 * s.width else given) (if growth ≤ 1.0 then 2.0 else growth)
    (Span.holds_confine hs start)
  obtain ⟨qs, ⟨found, count⟩, hwalk, hasked, t, hfound, hwithin⟩ := hbracket.follows hanswer
  obtain ⟨qs', inner, hgolden, hinner⟩ := goldenSection_contained h tol limit hwithin.ordered
  have hcontained := hinner.mono hwithin
  have hfound : found.getD (.ofReal s) = .ofReal t := hfound
  refine ⟨qs ++ (qs' ++ []), { inner with
    iterations := count + inner.iterations
    method := .stepAdaptation
    extra := .bracket found.isNone (ofReal t.left) (ofReal t.right) }, ?_, ?_, hcontained.alpha,
    hcontained.span⟩
  · unfold stepAdaptation
    rw [← literal] at hgrowth
    rw [hhalf]
    refine follows_lift_bind hstart (follows_lift_bind hgiven (follows_lift_bind hgrowth ?_))
    rw [Span.confine_ofReal, literal (R := R), literal (R := R), literal (R := R), replaced_ofReal,
      replaced_ofReal]
    refine follows_bind hwalk ?_
    simp only [hfound]
    exact follows_bind hgolden (follows_pure _)
  · rw [List.append_nil]
    exact List.forall_mem_append.mpr ⟨hasked, hcontained.asked⟩

omit h in
/-- A method that does not narrow its interval at a known rate. -/
theorem narrowing_still {kind : Kind} (hdichotomy : kind ≠ .dichotomy)
    (hhalving : kind ≠ .intervalHalving) (hgolden : kind ≠ .goldenSection) :
    Narrowing kind s fun _ => s where
  start := rfl
  nested _ := .refl hs
  dichotomy hkind := absurd hkind hdichotomy
  halving hkind := absurd hkind hhalving
  golden hkind := absurd hkind hgolden

omit hs in
theorem searchWith_narrows (hs : s.left < s.right) (ho : RealOptions options) (tol : ℝ) {kind : Kind}
    (hkind : kind ≠ .armijo) :
    ∃ spans, Narrowing kind s spans ∧ ∀ limit : Int, ∃ qs r,
      (searchWith kind (.ofReal s) (ofReal tol) limit options).Follows answer qs r ∧
      Contained s qs r ∧
      (kind = .dichotomy ∨ kind = .intervalHalving ∨ kind = .goldenSection →
        Reaches spans tol limit.toNat r) := by
  cases kind with
  | armijo => exact absurd rfl hkind
  | dichotomy =>
      obtain ⟨delta, hdelta, hnarrows⟩ := dichotomy_narrows h hs.le ho tol
      refine ⟨_, narrowing_iterate (dichotomy_steps h hdelta).within hs.le
        (fun _ => width_dichotomyRest_le phi delta) nofun nofun, fun limit => ?_⟩
      obtain ⟨qs, r, hfollows, hcontained, hreaches⟩ := hnarrows limit.toNat
      exact ⟨qs, r, hfollows, hcontained, fun _ => hreaches⟩
  | intervalHalving =>
      refine ⟨_, narrowing_iterate (halving_steps h).within hs.le nofun
        (fun _ => width_halvingRest phi) nofun, fun limit => ?_⟩
      obtain ⟨qs, r, hfollows, hcontained, hreaches⟩ :=
        (halving_steps h).narrows h hs.le .intervalHalving tol .nothing limit.toNat
      exact ⟨qs, r, hfollows, hcontained, fun _ => hreaches⟩
  | goldenSection =>
      refine ⟨_, narrowing_iterate (fun _ => goldenRest_within phi) hs.le nofun nofun
        (fun _ => width_goldenRest phi), fun limit => ?_⟩
      obtain ⟨qs, r, hfollows, hcontained, hreaches⟩ := goldenSection_narrows h hs.le tol limit.toNat
      exact ⟨qs, r, hfollows, hcontained, fun _ => hreaches⟩
  | stepAdaptation =>
      refine ⟨_, narrowing_still hs.le nofun nofun nofun, fun limit => ?_⟩
      obtain ⟨qs, r, hfollows, hcontained⟩ :=
        stepAdaptation_contained h hs.le ho (ofReal tol) limit.toNat
      exact ⟨qs, r, hfollows, hcontained, by simp⟩
  | cubic =>
      refine ⟨_, narrowing_still hs.le nofun nofun nofun, fun limit => ?_⟩
      obtain ⟨qs, r, hfollows, hcontained⟩ := cubic_contained h hs (ofReal tol) limit.toNat
      exact ⟨qs, r, hfollows, hcontained, by simp⟩

end

/-- Whatever values a function has at the reals, a search by any method but backtracking comes to an
outcome: it asks only inside its interval, and reports a step and an interval inside. Dichotomy, halving
and the golden section report the last of their working intervals, whose widths are at most three quarters,
one half or the golden section of the one before. They end for the tolerance whenever there are enough
iterations to come to an interval that is no wider. -/
theorem searches_stay_inside (phi : ℝ → Extended) {a b : ℝ} (hab : a < b) (tol : ℝ)
    {options : Options Extended} (ho : RealOptions options) {kind : Kind} (hkind : kind ≠ .armijo) :
    ∃ spans, Narrowing kind ⟨a, b⟩ spans ∧ ∀ limit : Int, ∃ qs r,
      (search (⟨kind.key, a, b, tol, limit⟩ : Request Extended) options).Follows
        (Extended.graph phi) qs r ∧
      Contained ⟨a, b⟩ qs r ∧
      (kind = .dichotomy ∨ kind = .intervalHalving ∨ kind = .goldenSection →
        Reaches spans tol limit.toNat r) := by
  have hends : (a : Extended) < b := ofReal_lt.mpr hab
  have hspan : (⟨a, b⟩ : Span ℝ).left < (⟨a, b⟩ : Span ℝ).right := hab
  obtain ⟨spans, hnarrowing, hsearch⟩ :=
    searchWith_narrows (Extended.answers_graph phi) hspan ho tol hkind
  refine ⟨spans, hnarrowing, fun limit => ?_⟩
  obtain ⟨qs, r, hfollows, hcontained, hreaches⟩ := hsearch limit
  refine ⟨qs, _, search_follows_method (ofKey?_method rfl) (.inr hends) hfollows, ?_, fun hnarrow => ?_⟩
  · exact ⟨hcontained.asked, hcontained.alpha, hcontained.span⟩
  · obtain ⟨hleft, hright, hle, hwide, hstop, hexhausts, hstops⟩ := hreaches hnarrow
    exact ⟨hleft, hright, hle, hwide, hstop, hexhausts, hstops⟩

/-- Halving the unit interval twice, with no value defined, comes to one quarter of it. -/
theorem undefined_halved : ∃ qs r,
    (search (⟨"interval_halving", (0 : ℝ), (1 : ℝ), (1 / 4 : ℝ), 2⟩ : Request Extended) []).Follows
      (Extended.graph fun _ => .undefined) qs r ∧
    Contained ⟨0, 1⟩ qs r ∧ r.stop = .tolerance := by
  obtain ⟨spans, hnarrowing, hsearch⟩ := searches_stay_inside (fun _ => .undefined) zero_lt_one
    (1 / 4) realOptions_nil (show Kind.intervalHalving ≠ .armijo by decide)
  obtain ⟨qs, r, hfollows, hcontained, hreaches⟩ := hsearch 2
  have hwidth := hnarrowing.halving rfl 2
  refine ⟨qs, r, hfollows, hcontained, (hreaches (.inr (.inl rfl))).stops 2 le_rfl ?_⟩
  rw [hwidth]
  norm_num [Span.width]

end Minima.LineSearch
