import Minima.Proofs.StepContracts
import Minima.Proofs.Trails

/-!
# Steps whose first trial is good

If backtracking accepts its first trial, the search ends there, and a step along a line goes to the
point of that trial if its value is smaller. So the outcome of such a step, and the questions that it
asks, are known without following the loop of the search.
-/

namespace Minima

open Dialogue LineSearch

variable {R : Type} [Scalar R] {n : Nat}

namespace LineSearch

variable {answer : R → Attempt R R} {v : R}

theorem Backtracking.loop_follows {b : Backtracking R} {alpha : R} (hv : answer alpha = .ok v)
    (haccepts : b.accepts alpha v = true) (fuel count : Nat) :
    (b.loop fuel count alpha).Follows answer [alpha] (alpha, v, count + 1, .sufficientDecrease) := by
  cases fuel with
  | zero =>
      refine follows_question_bind hv ?_
      rw [if_pos haccepts]
      exact follows_pure _
  | succ fuel =>
      refine follows_question_bind hv ?_
      rw [if_pos haccepts]
      exact follows_pure _

/-- Backtracking that accepts its first trial ends there. -/
theorem armijo_follows {b : Backtracking R} {limit : Int} {options : Options R}
    (hb : Backtracking.ofOptions limit options = .ok b) (hv : answer b.alpha0 = .ok v)
    (haccepts : b.accepts b.alpha0 v = true) (s : Span R) :
    ∃ outcome, (armijo s limit options).Follows answer [b.alpha0] outcome ∧
      outcome.alpha = b.alpha0 ∧ outcome.value = v := by
  have hloop := b.loop_follows hv haccepts (b.limit - 1) 0
  exact ⟨_, follows_lift_bind hb (follows_bind hloop (follows_pure _)), rfl, rfl⟩

/-- A search by name puts the questions of its method, and reports how many they are. -/
theorem search_follows_method {request : Request R} {options : Options R} {kind : Kind} {qs : List R}
    {outcome : Outcome R}
    (hkind : Kind.ofKey? (if request.method == defaultKey then Kind.armijo.key else request.method) =
      some kind)
    (hspan : kind = .armijo ∨ request.left < request.right)
    (h : (searchWith kind ⟨request.left, request.right⟩ request.tol request.limit options).Follows
      answer qs outcome) :
    (search request options).Follows answer qs { outcome with evaluations := qs.length } := by
  have hnot : ¬ (kind ≠ .armijo ∧ ¬ request.left < request.right) := by tauto
  have hcount := follows_countedFrom 0 h
  rw [Nat.zero_add] at hcount
  have hreport : (withEvaluations (searchWith kind ⟨request.left, request.right⟩ request.tol
      request.limit options)).Follows answer (qs ++ []) { outcome with evaluations := qs.length } :=
    follows_bind hcount (follows_pure _)
  unfold search
  simp only [hkind]
  rw [if_neg hnot]
  rwa [List.append_nil] at hreport

/-- Backtracking under its name does so whatever the interval is. -/
theorem search_follows {request : Request R} {options : Options R} {b : Backtracking R}
    (hkind : Kind.ofKey? (if request.method == defaultKey then Kind.armijo.key else request.method) =
      some .armijo)
    (hb : Backtracking.ofOptions request.limit options = .ok b) (hv : answer b.alpha0 = .ok v)
    (haccepts : b.accepts b.alpha0 v = true) :
    ∃ outcome, (search request options).Follows answer [b.alpha0] outcome ∧
      outcome.alpha = b.alpha0 ∧ outcome.value = v := by
  obtain ⟨outcome, hfollows, halpha, hvalue⟩ :=
    armijo_follows hb hv haccepts ⟨request.left, request.right⟩
  exact ⟨_, search_follows_method hkind (.inl rfl) hfollows, halpha, hvalue⟩

end LineSearch

namespace LineStep

variable {s : Situation R n} {it : Iterate R n} {p : Vector R n}
  {answer : (q : Question R n) → Attempt R (Answer q)} {alpha0 c1 minAlpha v : R} {tries : Int}

theorem backtrackingOptions_returns (h : Checked s.options)
    (halpha : s.options.real "alpha0" = .ok alpha0) (hc : s.options.real "c1" = .ok c1)
    (hl : s.options.real "min_alpha" = .ok minAlpha)
    (hm : s.options.whole "max_backtracking" = .ok tries) :
    ∃ given, backtrackingOptions s.options it p = .ok given := by
  obtain ⟨a, ha, -⟩ := Attempt.bind_eq_ok.mp halpha
  obtain ⟨t, -, ht, -⟩ := h.tau.given
  obtain ⟨c, hc', -⟩ := Attempt.bind_eq_ok.mp hc
  obtain ⟨m, hm', -⟩ := Attempt.bind_eq_ok.mp hm
  obtain ⟨l, hl', -⟩ := Attempt.bind_eq_ok.mp hl
  rw [backtrackingOptions, ha, ht, hc', hm', hl']
  exact ⟨_, rfl⟩

/-- A search with backtracking ends at its first trial if the value there is small enough. -/
theorem searchAlong_follows (h : Checked s.options) {name : String}
    (hname : s.options.get "line_search" = .ok (.text name)) (hback : isBacktracking name = true)
    (halpha : s.options.real "alpha0" = .ok alpha0) (hc : s.options.real "c1" = .ok c1)
    (hl : s.options.real "min_alpha" = .ok minAlpha)
    (hm : s.options.whole "max_backtracking" = .ok tries)
    (hv : answer (.value (along s.region it.point p alpha0)) = .ok v)
    (hsmall : v ≤ it.value + c1 * alpha0 * Linear.dot it.gradient p) :
    ∃ outcome, (searchAlong s it p).Follows answer [.value (along s.region it.point p alpha0)] outcome ∧
      outcome.alpha = alpha0 ∧ outcome.value = v := by
  obtain ⟨right, hright, -⟩ := h.positive "line_search_max_step" (by simp)
  obtain ⟨tol, htol, -⟩ := h.positive "line_search_tol" (by simp)
  obtain ⟨name', hname', hsearch⟩ := h.search
  obtain rfl : name = name' := by simpa [hname] using hname'
  obtain ⟨kind, hkind, harmijo⟩ := kind_of_isSearchName hsearch
  obtain rfl : kind = .armijo := harmijo.mp hback
  obtain ⟨given, hgiven⟩ : ∃ given, backtrackingOptions s.options it p = .ok given :=
    backtrackingOptions_returns h halpha hc hl hm
  obtain ⟨k, hk, hof⟩ := ofOptions_backtracking h halpha hgiven tries
  rw [hc, hl, hm] at hof
  obtain ⟨hf0, hslope, hfirst, hc1⟩ := hk c1 minAlpha tries
  have haccepts : (k c1 minAlpha tries).accepts (k c1 minAlpha tries).alpha0 v = true := by
    rw [Backtracking.accepts, hf0, hslope, hfirst, hc1]
    exact decide_eq_true hsmall
  have hvalue : (Consult.value (along s.region it.point p (k c1 minAlpha tries).alpha0)).Follows
      answer [.value (along s.region it.point p alpha0)] v := by
    rw [hfirst]
    exact follows_ask hv (follows_pure v)
  obtain ⟨outcome, hfollows, hend, hfound⟩ :
      ∃ outcome, (search ⟨name, 0.0, right, tol, tries⟩ given).Follows
        (fun alpha => (Consult.value (along s.region it.point p alpha)).read answer)
          [(k c1 minAlpha tries).alpha0] outcome ∧
        outcome.alpha = (k c1 minAlpha tries).alpha0 ∧ outcome.value = v :=
    search_follows hkind hof hvalue.read haccepts
  have hinlined := follows_inline hfollows
  rw [List.flatMap_singleton, hvalue.trail] at hinlined
  refine ⟨outcome, follows_lift_bind (searchName_eq_ok hname) ?_, hend.trans hfirst, hfound⟩
  rw [if_pos hback]
  exact follows_lift_bind hgiven (follows_lift_bind hm (follows_lift_bind hright
    (follows_lift_bind htol hinlined)))

theorem read_searchAlong (h : Checked s.options) {name : String}
    (hname : s.options.get "line_search" = .ok (.text name)) (hback : isBacktracking name = true)
    (halpha : s.options.real "alpha0" = .ok alpha0) (hc : s.options.real "c1" = .ok c1)
    (hl : s.options.real "min_alpha" = .ok minAlpha)
    (hm : s.options.whole "max_backtracking" = .ok tries)
    (hv : answer (.value (along s.region it.point p alpha0)) = .ok v)
    (hsmall : v ≤ it.value + c1 * alpha0 * Linear.dot it.gradient p) :
    ∃ outcome, (searchAlong s it p).read answer = .ok outcome ∧ outcome.alpha = alpha0 ∧
      outcome.value = v := by
  obtain ⟨outcome, hfollows, hfound⟩ :=
    searchAlong_follows h hname hback halpha hc hl hm hv hsmall
  exact ⟨outcome, hfollows.read, hfound⟩

/-- A step along a line goes to what its search has found if the value there is smaller. -/
theorem descend_follows {outcome : Outcome R} {g : Vector R n} {stalled : Bool}
    {qs : List (Question R n)} (hsearch : (searchAlong s it p).Follows answer qs outcome)
    (hfinite : (Scalar.isFinite outcome.alpha && Scalar.isFinite outcome.value) = true)
    (hv : answer (.value (along s.region it.point p outcome.alpha)) = .ok v)
    (hvfinite : Scalar.isFinite v = true) (hless : v < it.value)
    (hstalled : stagnates s.options it (along s.region it.point p outcome.alpha) v = .ok stalled)
    (hg : answer (.gradient (along s.region it.point p outcome.alpha)) = .ok g) :
    (descend s it p).Follows answer
      (qs ++ [.value (along s.region it.point p outcome.alpha),
        .gradient (along s.region it.point p outcome.alpha)])
      (some
        { value := v, point := along s.region it.point p outcome.alpha, gradient := g
          alpha := outcome.alpha
          step := Linear.norm (along s.region it.point p outcome.alpha - it.point) },
        if stalled then .noProgress else .running) := by
  refine follows_bind hsearch ?_
  rw [if_pos hfinite]
  refine follows_question_bind hv ?_
  rw [if_neg (by simp [hvfinite] : ¬ (!Scalar.isFinite v) = true), if_neg (not_not.mpr hless)]
  exact follows_lift_bind hstalled (follows_question_bind hg (follows_pure _))

theorem read_descend {outcome : Outcome R} {g : Vector R n} {stalled : Bool}
    (hsearch : (searchAlong s it p).read answer = .ok outcome)
    (hfinite : (Scalar.isFinite outcome.alpha && Scalar.isFinite outcome.value) = true)
    (hv : answer (.value (along s.region it.point p outcome.alpha)) = .ok v)
    (hvfinite : Scalar.isFinite v = true) (hless : v < it.value)
    (hstalled : stagnates s.options it (along s.region it.point p outcome.alpha) v = .ok stalled)
    (hg : answer (.gradient (along s.region it.point p outcome.alpha)) = .ok g) :
    (descend s it p).read answer =
      .ok (some
        { value := v, point := along s.region it.point p outcome.alpha, gradient := g
          alpha := outcome.alpha
          step := Linear.norm (along s.region it.point p outcome.alpha - it.point) },
        if stalled then .noProgress else .running) :=
  (descend_follows ⟨hsearch, rfl⟩ hfinite hv hvfinite hless hstalled hg).read

/-- A step along a line is rejected if the value is not smaller where its search has led. -/
theorem read_descend_rejected {outcome : Outcome R}
    (hsearch : (searchAlong s it p).read answer = .ok outcome)
    (hfinite : (Scalar.isFinite outcome.alpha && Scalar.isFinite outcome.value) = true)
    (hv : answer (.value (along s.region it.point p outcome.alpha)) = .ok v)
    (hvfinite : Scalar.isFinite v = true) (hless : ¬ v < it.value) :
    (descend s it p).read answer = .ok (none, .noProgress) := by
  refine (read_bind_of_ok hsearch).trans ?_
  rw [if_pos hfinite]
  refine (read_question_bind hv).trans ?_
  rw [hvfinite, if_neg (by simp), if_pos hless]
  rfl

end LineStep

end Minima
