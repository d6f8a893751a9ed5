import Minima.Proofs.LimitedRuns
import Minima.Proofs.PlanRuns
import Minima.Proofs.RunFailures

/-!
# What the check of a selection overlooks

A selection is checked before anything is run, and most of it is checked again where it is used. Two
things are looked at only there: the choice of the search, by the plan, and whether the start is
finite, by the solver. Of a selection that has passed its check, these are the only mistakes in the
configuration that a run of its method finds.
-/

namespace Minima

variable {R : Type} [Scalar R] {σ : Type}

/-! ## What passes the check -/

/-- What is known of a selection that has passed its check with a problem. -/
structure Selection.Passed (s : Selection R) (p : Problem R) : Prop where
  method : s.all = false → ∃ o, Offer.ofKey? s.method = some o
  eps : (0.0 : R) < s.eps
  limit : 0 < s.limit
  stop : s.stopKind ∈ Plan.stopChoices.map (·.1)
  least : s.stopKind = "f_dist" → ∃ v, p.leastValue? = some v
  minimum : s.stopKind = "x_dist" → ∃ m, p.minimum? = some m
  start : (s.start?.getD p.start).shape = [p.n]

namespace Selection

open Attempt

variable {s : Selection R} {problems : List (Problem R)} {p : Problem R}

theorem passed_of_check (h : s.check problems = .ok p) : p ∈ problems ∧ s.Passed p := by
  unfold check at h
  cases hfind : Catalogue.find? problems s.problem with
  | none =>
      rw [hfind] at h
      cases h
  | some q =>
      rw [hfind] at h
      obtain ⟨hmethod, h⟩ := refuse_eq_ok.mp h
      obtain ⟨heps, h⟩ := refuse_eq_ok.mp h
      obtain ⟨hlimit, h⟩ := refuse_eq_ok.mp h
      obtain ⟨hstop, h⟩ := refuse_eq_ok.mp h
      obtain ⟨hleast, h⟩ := refuse_eq_ok.mp h
      obtain ⟨hminimum, h⟩ := refuse_eq_ok.mp h
      obtain ⟨hstart, h⟩ := refuse_eq_ok.mp h
      obtain ⟨pole, -, h⟩ := bind_eq_ok.mp h
      obtain ⟨-, h⟩ := refuse_eq_ok.mp h
      have hq : q = p := pure_eq_ok.mp h
      rw [← hq]
      refine ⟨List.mem_reverse.mp (List.mem_of_find?_eq_some hfind), ?_⟩
      refine ⟨fun hall => ?_, not_not.mp heps, not_le.mp hlimit, ?_, fun hkind => ?_,
        fun hkind => ?_, not_not.mp hstart⟩
      · simpa [hall, Option.ne_none_iff_exists'] using hmethod
      · simpa using hstop
      · simpa [hkind, Option.ne_none_iff_exists'] using hleast
      · simpa [hkind, Option.ne_none_iff_exists'] using hminimum

end Selection

/-! ## Problems -/

/-- The tensor has as many entries as its shape says. -/
def Tensor.Formed (t : Tensor R) : Prop := t.entries.size = t.shape.prod

omit [Scalar R] in
theorem Tensor.formed_ofArray (a : Array R) : (ofArray a).Formed := by
  simp [Formed, ofArray]

/-- The functions of the problem never fail, its start is formed, and its minimum is of its
dimension. -/
structure Problem.Regular (p : Problem R) : Prop where
  dimension : p.n ≠ 0
  start : p.start.Formed
  minimum : ∀ m ∈ p.minimum?, m.entries.size = p.n
  answers : p.objective.FailsOnly fun _ => False

namespace Catalogue

open Attempt

omit [Scalar R] in
theorem plane_answers (name : String) (f : R → R → R) (gradient? : Option (R → R → Array R))
    (hessian? : Option (R → R → Linear.Square R 2)) (guarded : R → R → Bool) :
    (plane name f gradient? hessian? guarded).FailsOnly fun _ => False where
  value x := failsOnly_pure _
  gradient := by
    intro g hg x
    obtain ⟨g', -, rfl⟩ := Option.map_eq_some_iff.mp hg
    exact failsOnly_pure _
  hessian := by
    intro h hh x
    obtain ⟨h', -, rfl⟩ := Option.map_eq_some_iff.mp hh
    exact failsOnly_pure _

theorem regular_planeProblem (key title : String) (f : R → R → R)
    (gradient? : Option (R → R → Array R)) (hessian? : Option (R → R → Linear.Square R 2))
    (start : R × R) (minimum? : Option (R × R)) :
    (planeProblem key title f gradient? hessian? start minimum?).Regular where
  dimension := two_ne_zero
  start := Tensor.formed_ofArray _
  minimum := by
    intro m hm
    obtain ⟨m', -, rfl⟩ := Option.map_eq_some_iff.mp hm
    rfl
  answers := plane_answers key f gradient? hessian? fun _ _ => false

theorem regular_lineProblem (key title : String) (f df : R → R) (d2f start : R)
    (minimum? : Option R) : (lineProblem key title f df d2f start minimum?).Regular where
  dimension := one_ne_zero
  start := Tensor.formed_ofArray _
  minimum := by
    intro m hm
    obtain ⟨m', -, rfl⟩ := Option.map_eq_some_iff.mp hm
    rfl
  answers :=
    { value := fun x => failsOnly_pure _
      gradient := by
        rintro _ ⟨⟩ x
        exact failsOnly_pure _
      hessian := by
        rintro _ ⟨⟩ x
        exact failsOnly_pure _ }

/-- All problems of the catalogue are regular. -/
theorem regular : ∀ p ∈ (problems : List (Problem R)), p.Regular := by
  intro p hp
  simp only [problems, List.mem_cons, List.not_mem_nil, or_false] at hp
  rcases hp with rfl | rfl | rfl | rfl | rfl | rfl | rfl | rfl | rfl | rfl
  · refine ⟨two_ne_zero, Tensor.formed_ofArray _, ?_, plane_answers ..⟩
    rintro _ ⟨⟩
  all_goals first | exact regular_planeProblem .. | exact regular_lineProblem ..

end Catalogue

/-! ## Criteria -/

namespace Criterion

open Attempt

theorem positive_of_lt {c : Criterion R} {threshold : R} (h : (0.0 : R) < threshold) :
    c.positive threshold = .ok c := if_pos h

theorem iterations?_of_pos {limit : Int} (h : 0 < limit) :
    (iterations? (.whole limit) : Attempt R (Criterion R)) =
      (Setting.whole limit : Setting R).toReal >>= fun _ => .ok (.iterations limit.toNat) := by
  unfold iterations?
  show (if 0 < limit then _ else _) = _
  rw [if_pos h]
  rfl

/-- With a positive precision and a positive limit, a criterion is joined with the limit, unless this
is too large for a scalar. -/
theorem limited_of_pos {c : Criterion R} {eps : R} {limit : Int} (heps : (0.0 : R) < eps)
    (hlimit : 0 < limit) :
    (do
      let primary ← c.positive eps
      let steps ← iterations? (.whole limit)
      return join .any primary steps) =
      (Setting.whole limit : Setting R).toReal >>= fun _ =>
        .ok (join .any c (.iterations limit.toNat)) := by
  rw [positive_of_lt heps, ok_bind, iterations?_of_pos hlimit, bind_assoc]
  rfl

end Criterion

namespace Selection

open Attempt

variable {s : Selection R} {p : Problem R}

/-- A selection that has passed its check comes to a criterion that fits the problem, unless its limit
of steps is too large for a scalar. -/
theorem Passed.criterion_eq (hs : s.Passed p) (hp : p.Regular) :
    ∃ c : Criterion R, c.Fits p.n ∧ Plan.criterion s.stopKind s.eps s.limit (some p) =
      (Setting.whole s.limit : Setting R).toReal >>= fun _ => .ok c := by
  obtain ⟨primary, hplain, hfits, heq⟩ : ∃ primary : Criterion R, primary.Plain ∧
      primary.Fits p.n ∧ Plan.criterion s.stopKind s.eps s.limit (some p) = (do
        let primary ← primary.positive s.eps
        let steps ← Criterion.iterations? (.whole s.limit)
        return Criterion.join .any primary steps) := by
    have hstop := hs.stop
    simp only [Plan.stopChoices, List.map_cons, List.map_nil, List.mem_cons, List.not_mem_nil,
      or_false] at hstop
    rcases hstop with hkind | hkind | hkind
    · refine ⟨_, Criterion.plain_gradientNorm s.eps, .gradientNorm _, ?_⟩
      rw [hkind]
      rfl
    · obtain ⟨least, hleast⟩ := hs.least hkind
      refine ⟨_, Criterion.plain_valueDistance least s.eps false, .valueDistance .., ?_⟩
      unfold Plan.criterion
      rw [hkind]
      simp only [Option.bind_some, hleast]
      rfl
    · obtain ⟨minimum, hminimum⟩ := hs.minimum hkind
      refine ⟨_, Criterion.plain_pointDistance minimum.entries s.eps false,
        .pointDistance _ _ (hp.minimum _ hminimum), ?_⟩
      unfold Plan.criterion
      rw [hkind]
      simp only [Option.bind_some, hminimum]
      rfl
  exact ⟨_, hplain.fits_limited hfits _, heq.trans (Criterion.limited_of_pos hs.eps hs.limit)⟩

end Selection

/-! ## Orders -/

namespace Plan

open Attempt

variable {p : Plan R} {problem : Problem R} {m : Method R} {given : Options R} {e : Failure R}

theorem order_of_options_error (h : options p.method p.eps p.lineSearch? = .error e) :
    p.order m problem = .error e := by
  rw [order, h]
  rfl

/-- The order for a method that counts its steps. -/
theorem order_counting (h : options p.method p.eps p.lineSearch? = .ok given)
    (hc : m.hasCriterion = true) :
    p.order m problem = .ok {
      start := p.start?.getD problem.start
      options := Options.update [("max_iter", .whole p.limit)] given
      elapsed? := p.elapsed?
      horizon := p.limit.toNat } := by
  rw [order, h, ok_bind, if_pos hc]
  rfl

/-- The order for a method that is asked for a criterion. -/
theorem order_judged (h : options p.method p.eps p.lineSearch? = .ok given)
    (hc : m.hasCriterion = false) :
    p.order m problem = criterion p.stopKind p.eps p.limit (some problem) >>= fun c => .ok {
      start := p.start?.getD problem.start
      options := given
      criterion? := some c
      elapsed? := p.elapsed?
      horizon := p.limit.toNat } := by
  rw [order, h, ok_bind, if_neg (by rw [hc]; exact Bool.false_ne_true)]
  rfl

theorem run_of_order_error {o : Offer} {visit : Snapshot R → Nat → σ → σ} {seen : σ}
    (ho : (Offer.find? p.method : Attempt R Offer) = .ok o)
    (h : p.order (o.method : Method R) problem = .error e) :
    (p.run problem visit seen).results = .error e := by
  unfold run
  rw [ho, ok_bind, h]
  rfl

end Plan

/-- What a selection that has passed its check orders from its method. -/
structure Selection.Orders (s : Selection R) (p : Problem R) (o : Offer) (order : Solver.Order R) :
    Prop where
  start : order.start = s.start?.getD p.start
  free : order.constraints = .free
  options : ∃ name?, (∀ name ∈ name?, LineStep.isSearchName name = true) ∧
    order.options = o.ordered s.eps s.limit name?
  judged : (o.method : Method R).hasCriterion = false → order.criterion?.isSome = true
  fits : ∀ c, order.criterion? = some c → c.Fits p.n

namespace Selection

open Attempt

variable {s : Selection R} {p : Problem R} {o : Offer}

/-- The limit of steps is a scalar where one is needed, or none is needed. -/
def LimitFits (s : Selection R) (o : Offer) : Prop :=
  (o.method : Method R).hasCriterion = true ∨ (Scalar.ofInt? s.limit : Option R).isSome = true

/-- If the search is one that is known, the selection comes to an order, or its limit does not fit. -/
theorem Passed.order_cases (hs : s.Passed p) (hp : p.Regular) (ho : Offer.ofKey? s.method = some o)
    (hsearch : (o.method : Method R).usesLineSearch = true → Plan.KnownSearch s.search) :
    (¬ s.LimitFits o ∧
        (s.plan s.method s.search none).order (o.method : Method R) p = .error .tooLarge) ∨
      s.LimitFits o ∧ ∃ order, (s.plan s.method s.search none).order (o.method : Method R) p =
        .ok order ∧ s.Orders p o order := by
  obtain ⟨name?, hname, hgiven⟩ := Plan.options_of_known hs.eps hsearch
  rw [Offer.key_of_ofKey? ho] at hgiven
  cases hc : (o.method : Method R).hasCriterion with
  | true =>
      refine .inr ⟨.inl hc, _, Plan.order_counting hgiven hc, rfl, rfl, ⟨name?, hname, ?_⟩, ?_, nofun⟩
      · rw [Offer.ordered, if_pos hc]
        rfl
      · rw [hc]
        nofun
  | false =>
      obtain ⟨c, hfits, hcriterion⟩ := hs.criterion_eq hp
      have horder : (s.plan s.method s.search none).order (o.method : Method R) p =
          (Setting.whole s.limit : Setting R).toReal >>= fun _ => .ok {
            start := s.start?.getD p.start
            options := o.planned s.eps name?
            criterion? := some c
            elapsed? := s.elapsed?
            horizon := s.limit.toNat } := by
        refine (Plan.order_judged hgiven hc).trans ?_
        dsimp only [plan]
        rw [hcriterion, bind_assoc]
        rfl
      cases hlimit : (Scalar.ofInt? s.limit : Option R) with
      | none =>
          refine .inl ⟨?_, ?_⟩
          · simp [LimitFits, hc, hlimit]
          · rw [horder, Setting.toReal, hlimit]
            rfl
      | some x =>
          have hfit : (Setting.whole s.limit : Setting R).toReal = .ok x := by
            rw [Setting.toReal, hlimit]
            rfl
          rw [hfit, ok_bind] at horder
          refine .inr ⟨.inr (by rw [hlimit]; rfl), _, horder, rfl, rfl, ⟨name?, hname, ?_⟩,
            fun _ => rfl, ?_⟩
          · rw [Offer.ordered, if_neg (by rw [hc]; exact Bool.false_ne_true)]
          · rintro _ ⟨⟩
            exact hfits

end Selection

/-! ## Starts -/

namespace Solver

variable {m : Method R} {n : Nat} {start : Tensor R}

/-- A start of the right shape is accepted exactly if it is finite. -/
theorem acceptStart_of_shape (owner : String) (hshape : start.shape = [n])
    (hsize : start.entries.size = n) :
    acceptStart owner n start =
      if start.entries.all Scalar.isFinite then .ok ⟨start.entries, hsize⟩
      else .error (.configuration (.startNotFinite owner)) := by
  have hvector : start.toVector? n = some ⟨start.entries, hsize⟩ := dif_pos ⟨hshape, hsize⟩
  have hfinite : Linear.isFinite (⟨start.entries, hsize⟩ : Vector R n) =
      start.entries.all Scalar.isFinite := rfl
  unfold acceptStart
  rw [hvector, hshape]
  simp only [hfinite]
  cases start.entries.all Scalar.isFinite <;> rfl

end Solver

namespace Selection

open Attempt

variable [Presets R] {s : Selection R} {p : Problem R} {o : Offer} {order : Solver.Order R}

/-- What a selection orders is accepted if its start is finite. -/
theorem Orders.accepted (h : s.Orders p o order) (hs : s.Passed p)
    (hsize : order.start.entries.size = p.n)
    (hfinite : order.start.entries.all Scalar.isFinite = true)
    (solver : Solver (o.method : Method R)) :
    ∃ a, solver.acceptOrder p.n order = .ok a ∧
      a.options = (o.method : Method R).defaults.merged order.options := by
  obtain ⟨name?, hname, hoptions⟩ := h.options
  have hready := o.ready_ordered hs.eps hs.limit hname
  have hshape : order.start.shape = [p.n] := h.start ▸ hs.start
  refine ⟨⟨(o.method : Method R).defaults.merged order.options, .everywhere,
    ⟨order.start.entries, hsize⟩⟩, Solver.acceptOrder_eq_ok_iff.mpr ⟨h.judged, ?_⟩, rfl⟩
  refine Solver.accept_eq_ok_iff.mpr ⟨?_, ?_, Solver.acceptOptions_eq_ok_iff.mpr ?_⟩
  · rw [Solver.acceptStart_of_shape _ hshape hsize, if_pos hfinite]
  · rw [Solver.acceptRegion_eq_ok_iff, h.free]
    rfl
  · rw [hoptions]
    refine ⟨fun _ key hkey => ?_, o.bounds_ordered _ _ _, hready.valid _, rfl⟩
    exact (o.orderedKeys_known key (o.keys_ordered _ _ _ hkey)).1

omit [Presets R] in
/-- A run of it is refused over a start that is not. -/
theorem Orders.refused (h : s.Orders p o order) (hs : s.Passed p)
    (hsize : order.start.entries.size = p.n)
    (hfinite : ¬ order.start.entries.all Scalar.isFinite = true)
    (solver : Solver (o.method : Method R)) (visit : Snapshot R → Nat → σ → σ) (seen : σ) :
    (exec (Solver.solve ⟨p.n, p.objective, {}⟩ order visit) (solver, seen)).1 =
      .error (.configuration (.startNotFinite solver.name)) := by
  have hgiven : (!(o.method : Method R).hasCriterion && order.criterion?.isNone) = false := by
    cases hc : (o.method : Method R).hasCriterion with
    | true => rfl
    | false => simpa using h.judged hc
  have hshape : order.start.shape = [p.n] := h.start ▸ hs.start
  have hrefused : solver.acceptOrder p.n order =
      .error (.configuration (.startNotFinite solver.name)) := by
    rw [Solver.acceptOrder, hgiven]
    show solver.accept p.n order.toConfiguration = _
    rw [Solver.accept, Solver.acceptStart_of_shape _ hshape hsize, if_neg hfinite]
    rfl
  rw [Solver.solve, Solver.exec_solveWatched, hrefused]

/-- A run of what a selection orders from a finite start fails in no way that concerns the
configuration. -/
theorem Orders.blameless (h : s.Orders p o order) (hs : s.Passed p) (hp : p.Regular)
    (hsize : order.start.entries.size = p.n)
    (hfinite : order.start.entries.all Scalar.isFinite = true)
    {solver : Solver (o.method : Method R)} {visit : Snapshot R → Nat → σ → σ} {seen : σ}
    {e : Failure R} {final : Solver (o.method : Method R) × σ}
    (hrun : exec (Solver.solve ⟨p.n, p.objective, {}⟩ order visit) (solver, seen) =
      (.error e, final)) : e.kind ≠ .configuration := by
  obtain ⟨a, ha, hmerged⟩ := h.accepted hs hsize hfinite solver
  obtain ⟨name?, hname, hoptions⟩ := h.options
  have hready := o.ready_ordered hs.eps hs.limit hname
  rw [hoptions] at hmerged
  rw [← hmerged] at hready
  have hdependable : Solver.Dependable (fun e : Failure R => e.kind ≠ .configuration) o
      ⟨p.n, p.objective, {}⟩ a (Solver.asked? (o.method : Method R) order) := by
    refine ⟨hp.answers.mono fun _ h => h.elim, ⟨nofun, nofun, nofun⟩, nofun, fun c hc => ?_, ?_,
      ⟨"", hready.valid ""⟩, hready.plain, hready.usable⟩
    · rw [Solver.asked?, Option.ite_none_left_eq_some] at hc
      exact h.fits c hc.2
    · rw [hmerged]
      exact o.bounds_ordered _ _ _
  exact Solver.solve_failsOnly ha hdependable hrun

omit [Presets R] in
theorem Passed.size_start (hs : s.Passed p) (hp : p.Regular) (hformed : ∀ t ∈ s.start?, t.Formed) :
    (s.start?.getD p.start).entries.size = p.n := by
  have hstart : (s.start?.getD p.start).Formed := by
    cases hgiven : s.start? with
    | none => exact hp.start
    | some t => exact hformed t hgiven
  rw [Tensor.Formed, hs.start] at hstart
  simpa using hstart

/-! ## What is overlooked -/

/-- The mistakes in a selection that its check overlooks, with what a run finds. The start is looked
at only after the search, and after the limit where that has to be a scalar. -/
inductive Overlooked (s : Selection R) (p : Problem R) (o : Offer) : Failure R → Prop
  | search (huses : (o.method : Method R).usesLineSearch = true)
      (h : ¬ Plan.KnownSearch s.search) : Overlooked s p o
        (.configuration (.lineSearchUnknown (Text.strip (Text.lowercase s.search))))
  | start (hsearch : (o.method : Method R).usesLineSearch = true → Plan.KnownSearch s.search)
      (hlimit : s.LimitFits o) {x : R} (hx : x ∈ (s.start?.getD p.start).entries)
      (h : ¬ Scalar.isFinite x = true) : Overlooked s p o (.configuration (.startNotFinite o.label))

/-- The plan of a selection that has passed its check fails over the configuration exactly by a mistake
that the check overlooks. -/
theorem Passed.fails_iff (hs : s.Passed p) (hp : p.Regular) (hformed : ∀ t ∈ s.start?, t.Formed)
    (ho : Offer.ofKey? s.method = some o) (visit : Snapshot R → Nat → σ → σ) (seen : σ)
    (e : Failure R) :
    ((s.plan s.method s.search none).run p visit seen).results = .error e ∧
      e.kind = .configuration ↔ s.Overlooked p o e := by
  have hfind : (Offer.find? s.method : Attempt R Offer) = .ok o := by
    rw [Offer.find?, ho]
    rfl
  by_cases hsearch : (o.method : Method R).usesLineSearch = true → Plan.KnownSearch s.search
  · rcases hs.order_cases hp ho hsearch with ⟨hlarge, horder⟩ | ⟨hlimit, order, horder, horders⟩
    · -- the limit is found too large before the start is looked at
      rw [Plan.run_of_order_error hfind horder]
      constructor
      · rintro ⟨⟨⟩, hkind⟩
        cases hkind
      · rintro (⟨huses, h⟩ | ⟨-, hlimit, -, -⟩)
        · exact absurd (hsearch huses) h
        · exact absurd hlimit hlarge
    · have hsubject : p.subject? = .ok ⟨p.n, p.objective, {}⟩ := if_neg hp.dimension
      have hsize : order.start.entries.size = p.n := by
        rw [horders.start]
        exact hs.size_start hp hformed
      rw [Plan.run_of_ordered hfind horder hsubject]
      by_cases hfinite : order.start.entries.all Scalar.isFinite = true
      · -- nothing is overlooked, and what runs from here fails in other ways only
        constructor
        · rintro ⟨hrun, hkind⟩
          exact absurd hkind (horders.blameless hs hp hsize hfinite (Prod.ext hrun rfl))
        · rintro (⟨huses, h⟩ | ⟨-, -, hx, h⟩)
          · exact absurd (hsearch huses) h
          · rw [horders.start, Array.all_eq_true'] at hfinite
            exact absurd (hfinite _ hx) h
      · have hrefused := horders.refused hs hsize hfinite { name := o.solverName none } visit seen
        obtain ⟨x, hx, h⟩ : ∃ x ∈ (s.start?.getD p.start).entries, ¬ Scalar.isFinite x = true := by
          simpa only [horders.start, Array.all_eq_true', not_forall, exists_prop] using hfinite
        constructor
        · rintro ⟨hrun, -⟩
          obtain rfl := Except.error.inj (hrefused.symm.trans hrun)
          exact .start hsearch hlimit hx h
        · rintro (⟨huses, h⟩ | -)
          · exact absurd (hsearch huses) h
          · exact ⟨hrefused, rfl⟩
  · -- the search is looked at first, so the rest makes no difference
    obtain ⟨huses, h⟩ := Classical.not_imp.mp hsearch
    have horder : (s.plan s.method s.search none).order (o.method : Method R) p = .error
        (.configuration (.lineSearchUnknown (Text.strip (Text.lowercase s.search)))) := by
      have hgiven := Plan.options_of_unknown hs.eps huses h
      rw [Offer.key_of_ofKey? ho] at hgiven
      exact Plan.order_of_options_error hgiven
    rw [Plan.run_of_order_error hfind horder]
    constructor
    · rintro ⟨⟨⟩, -⟩
      exact .search huses h
    · rintro (⟨-, -⟩ | ⟨hknown, -, -, -⟩)
      · exact ⟨rfl, rfl⟩
      · exact absurd (hknown huses) h

/-- A selection that passes the check against the catalogue runs a method on offer, and this run fails
over the configuration exactly by a mistake that the check overlooks: a search that no method knows,
or a start that is not finite. -/
theorem checked_run_fails_iff (s : Selection Float) (hall : s.all = false)
    (hformed : ∀ t ∈ s.start?, t.Formed) {p : Problem Float}
    (hcheck : s.check Catalogue.problems = .ok p) (visit : Snapshot Float → Nat → σ → σ) (seen : σ) :
    ∃ o, Offer.ofKey? s.method = some o ∧ ∀ e,
      (s.run Catalogue.problems visit seen).2.results = .error e ∧ e.kind = .configuration ↔
        s.Overlooked p o e := by
  obtain ⟨hmem, hpassed⟩ := passed_of_check hcheck
  obtain ⟨o, ho⟩ := hpassed.method hall
  refine ⟨o, ho, fun e => ?_⟩
  rw [run_of_checked hcheck]
  exact hpassed.fails_iff (Catalogue.regular p hmem) hformed ho visit seen e

/-! ## A search that is not known -/

/-- Steepest descent along a search that does not exist. -/
def misspelt : Selection Float where
  problem := "f2"
  method := "steepest_descent"
  search := "no_such_search"

/-- The run of such a selection fails as the theorem says. -/
theorem misspelt_run_fails : ∃ p, misspelt.check Catalogue.problems = .ok p ∧
    (misspelt.run Catalogue.problems (fun _ k (_ : Nat) => k) 0).2.results =
      .error (.configuration (.lineSearchUnknown "no_such_search")) := by
  have hpasses : (misspelt.check Catalogue.problems).toOption.isSome = true := by decide +kernel
  cases hcheck : misspelt.check Catalogue.problems with
  | error e =>
      rw [hcheck] at hpasses
      cases hpasses
  | ok p =>
      obtain ⟨o, ho, hfails⟩ := checked_run_fails_iff misspelt rfl nofun hcheck
        (fun _ k (_ : Nat) => k) 0
      obtain rfl : o = .steepestDescent := by
        cases ho
        rfl
      exact ⟨p, rfl, ((hfails _).mpr (.search rfl (by decide))).1⟩

/-- The check accepts what the run refuses. -/
theorem misspelt_accepted_then_refused :
    (misspelt.check Catalogue.problems).map Problem.key = .ok "f2" ∧
      (misspelt.run Catalogue.problems (fun _ k (_ : Nat) => k) 0).2.results =
        .error (.configuration (.lineSearchUnknown "no_such_search")) := by
  constructor <;> rfl

end Selection

end Minima
