import Minima.Plan
import Minima.Proofs.RunBudgets
import Minima.Proofs.Validation

/-!
# Plans end

The checks before a run look at the configuration alone, and none of them is cut off. What a plan
orders leaves the limits of the searches and of the dampings at their defaults, and hands on its own
limit of steps: as an option to a method that counts its steps, as a part of the criterion to the
others. With that every step has a budget, and so does every run.
-/

namespace Minima

open Dialogue Attempt

variable {R : Type}

/-! ## Checks -/

theorem Options.resolve_halts (options defaults : Options R) (owner : String) (strict : Bool) :
    (options.resolve defaults owner strict).Halts :=
  halts_ite (fun _ => halts_throw nofun) fun _ => halts_pure _

theorem Offer.find?_halts (key : String) : (find? key : Attempt R Offer).Halts := by
  unfold find?
  cases ofKey? key with
  | none => exact halts_throw nofun
  | some o => exact halts_pure o

theorem Problem.subject?_halts (problem : Problem R) : problem.subject?.Halts :=
  halts_ite (fun _ => halts_throw nofun) fun _ => halts_pure _

theorem Problem.subject?_eq_ok {problem : Problem R} {f : Subject R}
    (h : problem.subject? = .ok f) : f = { n := problem.n, objective := problem.objective } := by
  unfold subject? Subject.ofObjective? at h
  by_cases hn : problem.n = 0
  · rw [if_pos hn] at h
    cases h
  · rw [if_neg hn] at h
    exact (pure_eq_ok.mp h).symm

theorem Plan.searchName?_halts (choice? : Option String) :
    (searchName? choice? : Attempt R (Option String)).Halts := by
  cases choice? with
  | none => exact halts_pure _
  | some choice =>
      refine halts_ite (fun _ => halts_pure _) fun _ => ?_
      refine halts_ite (fun _ => halts_pure _) fun _ => ?_
      refine halts_ite (fun _ => halts_pure _) fun _ => ?_
      refine halts_ite (fun _ => halts_pure _) fun _ => ?_
      exact halts_throw nofun

variable [Scalar R] {n : Nat}

namespace Options

variable (options : Options R) (owner key : String)

theorem require_halts (range : OptionRange) : (options.require owner key range).Halts :=
  halts_bind (options.real_halts key) fun _ =>
    halts_ite (fun _ => halts_pure ()) fun _ => halts_throw nofun

theorem requireCount_halts : (options.requireCount owner key).Halts :=
  halts_bind (options.whole_halts key) fun _ =>
    halts_ite (fun _ => halts_pure ()) fun _ => halts_throw nofun

theorem requireAll_halts (range : OptionRange) (keys : List String) :
    (forIn keys PUnit.unit fun key _ => do
      options.require owner key range
      pure (ForInStep.yield PUnit.unit) : Attempt R PUnit).Halts := by
  induction keys with
  | nil => exact halts_pure _
  | cons key keys ih =>
      rw [List.forIn_cons]
      refine halts_bind ?_ fun next => ?_
      · exact halts_bind (options.require_halts owner key range) fun _ => halts_pure _
      · cases next with
        | done u => exact halts_pure u
        | yield u => exact ih

end Options

theorem LineStep.validate_halts (owner : String) (options : Options R) :
    (validate owner options).Halts := by
  refine halts_bind (options.get_halts _) fun given => ?_
  cases given with
  | text name =>
      refine halts_ite (fun _ => halts_throw nofun) fun _ => ?_
      refine halts_bind (options.requireAll_halts owner .positive _) fun _ => ?_
      exact options.require_halts owner "tau" .betweenZeroAndOne
  | _ => exact halts_throw nofun

theorem ConjugateGradient.validate_halts (owner : String) (options : Options R) :
    (validate owner options).Halts := by
  refine halts_bind (LineStep.validate_halts owner options) fun _ => ?_
  refine halts_bind (options.get_halts _) fun formula => ?_
  refine halts_ite (fun _ => halts_throw nofun) fun _ => ?_
  refine halts_bind (options.whole_halts _) fun every => ?_
  exact halts_ite (fun _ => halts_throw nofun) fun _ => halts_pure _

theorem Offer.validate_halts (o : Offer) (owner : String) (options : Options R) :
    ((o.method : Method R).validate owner options).Halts := by
  have hrange (key : String) (range : OptionRange) := options.require_halts owner key range
  have hcount := options.requireCount_halts owner "max_iter"
  have hlines := LineStep.validate_halts owner options
  cases o with
  | gradientDescent =>
      exact halts_bind (hrange _ _) fun _ => halts_bind (hrange _ _) fun _ => hcount
  | steepestDescent => exact hlines
  | conjugateGradient => exact ConjugateGradient.validate_halts owner options
  | fletcherReeves => exact ConjugateGradient.validate_halts owner options
  | polakRibiere => exact ConjugateGradient.validate_halts owner options
  | newton => exact halts_bind hlines fun _ => halts_bind (hrange _ _) fun _ => hrange _ _
  | quasiNewton => exact halts_bind hlines fun _ => hrange _ _
  | nelderMead =>
      refine halts_bind (hrange _ _) fun _ => halts_bind (hrange _ _) fun _ => ?_
      refine halts_bind (hrange _ _) fun _ => halts_bind (hrange _ _) fun _ => ?_
      exact hrange _ _
  | hookeJeeves =>
      refine halts_bind (hrange _ _) fun _ => halts_bind (hrange _ _) fun _ => ?_
      exact halts_bind (hrange _ _) fun _ => hcount

namespace Solver

theorem acceptStart_halts (owner : String) (n : Nat) (start : Tensor R) :
    (acceptStart owner n start).Halts := by
  refine halts_ite (fun _ => halts_throw nofun) fun _ => ?_
  cases start.toVector? n with
  | none => exact halts_throw nofun
  | some x => exact halts_ite (fun _ => halts_throw nofun) fun _ => halts_pure x

theorem acceptOrder_halts {o : Offer} (s : Solver (o.method : Method R)) (n : Nat)
    (order : Order R) : (s.acceptOrder n order).Halts := by
  refine halts_ite (fun _ => halts_throw nofun) fun _ => ?_
  refine halts_bind (acceptStart_halts _ _ _) fun start => ?_
  refine halts_bind ?_ fun region => halts_bind ?_ fun options => halts_pure _
  · unfold acceptRegion
    cases order.constraints.region? n with
    | none => exact halts_throw nofun
    | some region => exact halts_pure region
  · refine halts_bind (Options.resolve_halts _ _ _ _) fun options => ?_
    refine halts_bind (Options.requireAll_halts _ _ _ _) fun _ => ?_
    exact halts_bind (o.validate_halts _ _) fun _ => halts_pure _

end Solver

/-! ## Limits -/

namespace LineStep

/-- The limits are not touched by options with other names. -/
theorem Limited.update {turns : Nat} {options more : Options R} (h : Limited turns options)
    (hmore : ∀ key ∈ limitKeys, key ∉ more.keys) : Limited turns (options.update more) := by
  intro key hkey limit hlimit
  rw [Options.whole, Options.get_update_of_not_mem (hmore key hkey)] at hlimit
  exact h key hkey limit hlimit

theorem limited_defaults : Limited 100 (Method.commonDefaults.update defaults : Options R) := by
  intro key hkey limit hlimit
  simp only [limitKeys, List.mem_cons, List.not_mem_nil, or_false] at hkey
  rcases hkey with rfl | rfl
  all_goals
    simp [Options.whole, Options.get, Options.get?, Options.update, Options.put, Options.has,
      Method.commonDefaults, defaults, List.lookup_cons, Setting.toWhole, Pure.pure, Except.pure,
      ok_bind] at hlimit
    omega

end LineStep

namespace Newton

def ladderKeys : List String := ["reg_lambda", "max_reg_scale"]

theorem LadderEnds.update {options more : Options R} (h : LadderEnds options)
    (hmore : ∀ key ∈ ladderKeys, key ∉ more.keys) : LadderEnds (options.update more) := by
  intro first scale hfirst hscale
  rw [Options.real, Options.get_update_of_not_mem (hmore _ (by simp [ladderKeys]))] at hfirst hscale
  exact h first scale hfirst hscale

theorem ladderEnds_defaults [Climbs R] : LadderEnds (method : Method R).defaults := by
  intro first scale hfirst hscale
  simp [method, Options.real, Options.get, Options.get?, Options.update, Options.put, Options.has,
    Method.commonDefaults, LineStep.defaults, defaults, List.lookup_cons, Setting.toReal, Pure.pure,
    Except.pure, ok_bind] at hfirst hscale
  subst hfirst
  subst hscale
  exact Climbs.passes

end Newton

/-! ## Options of a plan -/

namespace Plan

variable {method : String} {eps : R} {lineSearch? : Option String} {given : Options R}

theorem options_halts (method : String) (eps : R) (lineSearch? : Option String) :
    (options method eps lineSearch?).Halts := by
  refine halts_ite (fun _ => halts_throw nofun) fun _ => ?_
  refine halts_ite (fun _ => halts_throw nofun) fun _ => ?_
  refine halts_ite (fun _ => halts_pure _) fun _ => halts_ite (fun _ => halts_pure _) fun _ => ?_
  refine halts_ite (fun _ => halts_pure _) fun _ => halts_bind (searchName?_halts _) fun name? => ?_
  cases name? with
  | none => exact halts_pure _
  | some name => exact halts_pure _

def givenKeys : List String :=
  ["grad_tol", "initial_step", "min_step", "initial_simplex_scale", "line_search"]

theorem keys_of_options (h : options method eps lineSearch? = .ok given) :
    given.keys ⊆ givenKeys := by
  unfold options at h
  by_cases heps : ¬ (0.0 : R) < eps
  · rw [if_pos heps] at h
    cases h
  by_cases hkey : (Offer.ofKey? method).isNone = true
  · rw [if_neg heps, if_pos hkey] at h
    cases h
  rw [if_neg heps, if_neg hkey] at h
  by_cases hgradient : (method == "gradient_descent") = true
  · rw [if_pos hgradient] at h
    cases h
    simp [Options.keys, givenKeys]
  by_cases hpattern : (method == "hooke_jeeves") = true
  · rw [if_neg hgradient, if_pos hpattern] at h
    cases h
    simp [Options.keys, givenKeys]
  rw [if_neg hgradient, if_neg hpattern] at h
  by_cases hsimplex : (method == "nelder_mead") = true
  · rw [if_pos hsimplex] at h
    cases h
    simp [Options.keys, givenKeys]
  rw [if_neg hsimplex] at h
  obtain ⟨name?, -, h⟩ := bind_eq_ok.mp h
  cases name? with
  | none =>
      cases h
      exact List.nil_subset _
  | some name =>
      cases h
      simp [Options.keys, givenKeys]

end Plan

/-! ## Methods on offer -/

omit [Scalar R] in
/-- Every method wraps the state that its own step makes. -/
theorem within_wrapped {S : Type} {P : S × Status → Prop} {Q : Produced S × Status → Prop}
    {fails : Failure R → Prop} {k : Nat} {d : Consult R n (S × Status)} (hd : d.Within P fails k)
    (hQ : ∀ next status, P (next, status) → Q (.state next, status)) :
    (do
      let (next, status) ← d
      return (Produced.state next, status) : Consult R n (Produced S × Status)).Within Q fails k :=
  within_bind (l := 0) hd (fun _ hr => within_pure (hQ _ _ hr)) k.le_refl

namespace Offer

/-- The options hold a method to a budget: no search has more than a hundred turns, the ladder of
dampings ends, and `limit` is the number of steps for a method that counts them. -/
structure Bounded (o : Offer) (limit : Int) (options : Options R) : Prop where
  searches : (o.method : Method R).usesLineSearch = true → LineStep.Limited 100 options
  dampings : o = .newton → Newton.LadderEnds options
  count : (o.method : Method R).hasCriterion = true → options.whole "max_iter" = .ok limit

theorem start_halts (o : Offer) (s : Situation R n) (x : Vector R n) :
    ((o.method : Method R).start s x).Halts (n + 2) := by
  cases o with
  | nelderMead =>
      exact within_bind (l := 0) (NelderMead.start_halts s x) (fun _ _ => within_pure trivial)
        (by omega)
  | hookeJeeves =>
      exact within_question_bind fun value =>
        within_lift_bind (fun size _ => within_pure trivial) (s.options.real_halts _)
  | _ =>
      exact within_bind (l := 0) (Iterate.start_halts x) (fun _ _ => within_pure trivial) (by omega)

/-- A step keeps to its share, and goes on only before the last one where the method counts. -/
theorem step_within (o : Offer) {s : Situation R n} {limit : Int} (h : o.Bounded limit s.options)
    (count : Nat) (st : (o.method : Method R).State n) :
    ((o.method : Method R).step s count st).Within
      (fun r => (o.method : Method R).hasCriterion = true → r.2 = .running →
        ((count + 1 : Nat) : Int) < limit)
      Failure.Uncut (2 * n + 310) := by
  have hwrap {S : Type} {mid : S × Status → Prop} {k : Nat} {d : Consult R n (S × Status)}
      (hd : d.Within mid Failure.Uncut k) (hk : k ≤ 2 * n + 310)
      (hpost : ∀ r, mid r → (o.method : Method R).hasCriterion = true → r.2 = .running →
        ((count + 1 : Nat) : Int) < limit) :=
    within_wrapped (Q := fun r => (o.method : Method R).hasCriterion = true → r.2 = .running →
      ((count + 1 : Nat) : Int) < limit) (hd.weaken hk) fun _ _ => hpost _
  cases o with
  | gradientDescent =>
      exact hwrap (GradientDescent.step_within (h.count rfl) count st) (by omega)
        fun _ hgoes _ => hgoes
  | steepestDescent =>
      exact hwrap (SteepestDescent.step_halts (h.searches rfl) st) (by omega) fun _ _ => nofun
  | conjugateGradient =>
      exact hwrap (ConjugateGradient.step_halts (h.searches rfl) count st) (by omega)
        fun _ _ => nofun
  | fletcherReeves =>
      exact hwrap (ConjugateGradient.step_halts (h.searches rfl) count st) (by omega)
        fun _ _ => nofun
  | polakRibiere =>
      exact hwrap (ConjugateGradient.step_halts (h.searches rfl) count st) (by omega)
        fun _ _ => nofun
  | newton =>
      exact hwrap (Newton.step_halts (h.searches rfl) (h.dampings rfl) st) (by omega)
        fun _ _ => nofun
  | quasiNewton =>
      exact hwrap (QuasiNewton.step_halts (h.searches rfl) count st) (by omega) fun _ _ => nofun
  | nelderMead => exact hwrap (NelderMead.step_halts s st) (by omega) fun _ _ => nofun
  | hookeJeeves =>
      exact hwrap (HookeJeeves.step_within (h.count rfl) count st) (by omega) fun _ hgoes _ => hgoes

/-- Over the defaults, options hold a method that does not count its steps to its budget if they set
none of the limits. -/
theorem bounded_merged [Newton.Climbs R] (o : Offer)
    (hc : (o.method : Method R).hasCriterion = false) (limit : Int) {given : Options R}
    (hsearches : ∀ key ∈ LineStep.limitKeys, key ∉ given.keys)
    (hdampings : ∀ key ∈ Newton.ladderKeys, key ∉ given.keys) :
    o.Bounded limit ((o.method : Method R).defaults.merged given) where
  count h := by
    rw [hc] at h
    cases h
  searches := by
    intro h
    refine LineStep.Limited.update ?_ fun key hkey =>
      Options.not_mem_keys_filter (hsearches key hkey) _
    have hlimited := LineStep.limited_defaults (R := R)
    cases o with
    | gradientDescent => cases h
    | nelderMead => cases h
    | hookeJeeves => cases h
    | steepestDescent =>
        dsimp only [method, SteepestDescent.method]
        exact hlimited
    | newton =>
        dsimp only [method, Newton.method]
        exact hlimited.update (by simp [LineStep.limitKeys, Newton.defaults, Options.keys])
    | quasiNewton =>
        dsimp only [method, QuasiNewton.method]
        exact hlimited.update (by simp [LineStep.limitKeys, QuasiNewton.defaults, Options.keys])
    | _ =>
        dsimp only [method, ConjugateGradient.method]
        exact hlimited.update
          (by simp [LineStep.limitKeys, ConjugateGradient.defaults, Options.keys])
  dampings := by
    rintro rfl
    exact Newton.ladderEnds_defaults.update fun key hkey =>
      Options.not_mem_keys_filter (hdampings key hkey) _

/-- A method that counts its steps makes no more than it is told to make. -/
theorem bounded_counting (o : Offer) (hc : (o.method : Method R).hasCriterion = true) (limit : Int)
    {given : Options R} (hgiven : "max_iter" ∉ given.keys) :
    o.Bounded limit ((o.method : Method R).defaults.merged
      (Options.update [("max_iter", .whole limit)] given)) where
  count _ := by
    have hknown : "max_iter" ∈ (o.method : Method R).defaults.keys := by
      cases o with
      | gradientDescent =>
          exact Options.mem_keys_update.mpr (.inr (by simp [GradientDescent.defaults, Options.keys]))
      | hookeJeeves =>
          exact Options.mem_keys_update.mpr (.inr (by simp [HookeJeeves.defaults, Options.keys]))
      | _ => cases hc
    rw [Options.whole, Options.get_merged_update _ hknown hgiven]
    rfl
  searches h := by
    cases o with
    | gradientDescent => cases h
    | hookeJeeves => cases h
    | _ => cases hc
  dampings := by
    rintro rfl
    cases hc

end Offer

/-! ## The criterion of a plan -/

namespace Criterion

/-- The criterion asks for one gradient at most, and is no combination. -/
structure Plain (c : Criterion R) : Prop where
  parts : c.parts (some .any) = [c]
  holds : ∀ v k, (c.holds v k).Halts 1
  measure : ∀ v k, (c.measure v k).Halts 1

theorem gradientLength_halts (point : Array R) : (gradientLength point).Halts 1 :=
  within_question_bind fun _ => within_pure trivial

theorem pointGap_halts (minimum : Array R) (relative : Bool) (point : Array R) :
    (pointGap minimum relative point).Halts := by
  unfold pointGap
  by_cases h : point.size = minimum.size
  · rw [dif_pos h]
    exact halts_pure _
  · rw [dif_neg h]
    exact halts_throw nofun

theorem plain_gradientNorm (threshold : R) : Plain (.gradientNorm threshold) where
  parts := rfl
  holds v k := by
    rw [holds]
    exact within_bind (l := 0) (gradientLength_halts v.point) (fun _ _ => within_pure trivial)
      (Nat.le_refl 1)
  measure v k := by
    rw [measure]
    exact gradientLength_halts v.point

theorem plain_valueDistance (least threshold : R) (relative : Bool) :
    Plain (.valueDistance least threshold relative) where
  parts := rfl
  holds v k := by
    rw [holds]
    exact within_pure trivial
  measure v k := by
    rw [measure]
    exact within_pure trivial

theorem plain_pointDistance (minimum : Array R) (threshold : R) (relative : Bool) :
    Plain (.pointDistance minimum threshold relative) where
  parts := rfl
  holds v k := by
    rw [holds]
    exact within_lift_bind (fun _ _ => within_pure trivial) (pointGap_halts _ _ _)
  measure v k := by
    rw [measure]
    exact within_lift (fun _ _ => trivial) (pointGap_halts _ _ _)

theorem positive_halts (c : Criterion R) (threshold : R) : (c.positive threshold).Halts :=
  halts_ite (fun _ => halts_pure c) fun _ => halts_throw nofun

theorem positive_eq_ok {c d : Criterion R} {threshold : R} (h : c.positive threshold = .ok d) :
    c = d := by
  unfold positive at h
  by_cases hpos : (0.0 : R) < threshold
  · rw [if_pos hpos] at h
    exact pure_eq_ok.mp h
  · rw [if_neg hpos] at h
    cases h

theorem iterations?_halts (limit : Setting R) : (iterations? limit : Attempt R _).Halts := by
  refine halts_bind limit.toWhole_halts fun i => ?_
  refine halts_ite (fun _ => ?_) fun _ => halts_throw nofun
  exact halts_bind (Setting.toReal_halts _) fun _ => halts_pure _

theorem iterations?_eq_ok {limit : Int} {c : Criterion R}
    (h : iterations? (.whole limit) = .ok c) : 0 < limit ∧ c = .iterations limit.toNat := by
  obtain ⟨i, hi, h⟩ := bind_eq_ok.mp h
  obtain rfl := pure_eq_ok.mp hi
  by_cases hpos : 0 < limit
  · rw [if_pos hpos] at h
    obtain ⟨x, -, h⟩ := bind_eq_ok.mp h
    exact ⟨hpos, (pure_eq_ok.mp h).symm⟩
  · rw [if_neg hpos] at h
    cases h

theorem Plain.join_iterations {c : Criterion R} (h : c.Plain) (limit : Nat) :
    join .any c (.iterations limit) = .compound .any [c, .iterations limit] := by
  rw [join, h.parts]
  rfl

/-- Asked with a number of steps, a criterion does not hold before the limit is reached only. -/
theorem Plain.holding_within {c : Criterion R} (h : c.Plain) (limit : Nat) (v : Snapshot R)
    (k : Nat) :
    (holding v k [c, .iterations limit]).Within (fun held => held.any id = false → k < limit)
      Failure.Uncut 1 := by
  have hlast : (holding v k [.iterations limit] : Gauge R (List Bool)) =
      pure [decide (limit ≤ k)] := by
    rw [holding, holding, Criterion.holds]
    rfl
  rw [holding, hlast]
  refine within_bind (l := 0) (h.holds v k) (fun first _ => ?_) (Nat.le_refl 1)
  refine within_pure fun hnone => ?_
  have hnot : ¬ limit ≤ k := by
    intro hle
    simp [hle] at hnone
  omega

theorem Plain.holds_join {c : Criterion R} (h : c.Plain) (limit : Nat) (v : Snapshot R) (k : Nat) :
    ((join .any c (.iterations limit)).holds v k).Within (fun held => held = false → k < limit)
      Failure.Uncut 1 := by
  rw [h.join_iterations, Criterion.holds]
  exact within_bind (l := 0) (h.holding_within limit v k) (fun held hheld => within_pure hheld)
    (Nat.le_refl 1)

theorem Plain.measure_join {c : Criterion R} (h : c.Plain) (limit : Nat) (v : Snapshot R)
    (k : Nat) : ((join .any c (.iterations limit)).measure v k).Halts 2 := by
  rw [h.join_iterations, Criterion.measure]
  refine within_bind (l := 1) (h.holding_within limit v k) (fun held _ => ?_) (Nat.le_refl 2)
  rcases (held.findIdx? id).getD 0 with _ | _ | place
  · rw [measureNth]
    exact h.measure v k
  · rw [measureNth, measureNth, Criterion.measure]
    exact within_pure trivial
  · rw [measureNth, measureNth, measureNth]
    exact within_pure trivial

end Criterion

namespace Plan

/-- The primary part of a criterion comes first, and then the number of steps. -/
theorem criterion_cases (kind : String) (eps : R) (limit : Int) (problem? : Option (Problem R)) :
    ∃ primary? : Attempt R (Criterion R), primary?.Halts ∧ (∀ c, primary? = .ok c → c.Plain) ∧
      criterion kind eps limit problem? = (do
        let primary ← primary?
        let steps ← Criterion.iterations? (.whole limit)
        return Criterion.join .any primary steps) := by
  unfold criterion
  dsimp only
  split
  · refine ⟨_, Criterion.positive_halts _ _, fun c hc => ?_, rfl⟩
    obtain rfl := Criterion.positive_eq_ok hc
    exact Criterion.plain_gradientNorm eps
  · cases problem?.bind Problem.leastValue? with
    | none => exact ⟨throw (.configuration .leastValueNeeded), halts_throw nofun, nofun, rfl⟩
    | some least =>
        refine ⟨_, Criterion.positive_halts _ _, fun c hc => ?_, rfl⟩
        obtain rfl := Criterion.positive_eq_ok hc
        exact Criterion.plain_valueDistance least eps false
  · cases problem?.bind Problem.minimum? with
    | none => exact ⟨throw (.configuration .minimumNeeded), halts_throw nofun, nofun, rfl⟩
    | some minimum =>
        refine ⟨_, Criterion.positive_halts _ _, fun c hc => ?_, rfl⟩
        obtain rfl := Criterion.positive_eq_ok hc
        exact Criterion.plain_pointDistance minimum.entries eps false
  · exact ⟨throw (.configuration (.stopKindUnknown kind)), halts_throw nofun, nofun, rfl⟩

theorem criterion_halts (kind : String) (eps : R) (limit : Int) (problem? : Option (Problem R)) :
    (criterion kind eps limit problem?).Halts := by
  obtain ⟨primary?, hhalts, -, heq⟩ := criterion_cases kind eps limit problem?
  rw [heq]
  refine halts_bind hhalts fun primary => ?_
  exact halts_bind (Criterion.iterations?_halts _) fun steps => halts_pure _

theorem criterion_eq_ok {kind : String} {eps : R} {limit : Int} {problem? : Option (Problem R)}
    {c : Criterion R} (h : criterion kind eps limit problem? = .ok c) :
    0 < limit ∧ ∃ primary : Criterion R, primary.Plain ∧
      c = .join .any primary (.iterations limit.toNat) := by
  obtain ⟨primary?, -, hplain, heq⟩ := criterion_cases kind eps limit problem?
  rw [heq] at h
  obtain ⟨primary, hprimary, h⟩ := bind_eq_ok.mp h
  obtain ⟨steps, hsteps, h⟩ := bind_eq_ok.mp h
  obtain ⟨hpos, rfl⟩ := Criterion.iterations?_eq_ok hsteps
  exact ⟨hpos, primary, hplain primary hprimary, (pure_eq_ok.mp h).symm⟩

/-! ## What a plan orders -/

variable {p : Plan R} {problem : Problem R} {m : Method R} {order : Solver.Order R}

theorem order_halts (p : Plan R) (m : Method R) (problem : Problem R) :
    (p.order m problem).Halts := by
  refine halts_bind (options_halts _ _ _) fun given => halts_ite (fun _ => halts_pure _) fun _ => ?_
  exact halts_bind (criterion_halts _ _ _ _) fun c => halts_pure _

/-- The limit of steps is an option for a method that counts them, a criterion for the others. -/
theorem order_eq_ok (h : p.order m problem = .ok order) :
    order.horizon = p.limit.toNat ∧ ∃ given, options p.method p.eps p.lineSearch? = .ok given ∧
      (m.hasCriterion = true ∧
          order.options = Options.update [("max_iter", .whole p.limit)] given ∨
        m.hasCriterion = false ∧ order.options = given ∧
          ∃ c, criterion p.stopKind p.eps p.limit (some problem) = .ok c ∧
            order.criterion? = some c) := by
  obtain ⟨given, hgiven, h⟩ := bind_eq_ok.mp h
  cases hc : m.hasCriterion with
  | true =>
      rw [if_pos hc] at h
      obtain rfl := pure_eq_ok.mp h
      exact ⟨rfl, given, hgiven, .inl ⟨rfl, rfl⟩⟩
  | false =>
      rw [if_neg (by rw [hc]; exact Bool.false_ne_true)] at h
      obtain ⟨c, hcriterion, h⟩ := bind_eq_ok.mp h
      obtain rfl := pure_eq_ok.mp h
      exact ⟨rfl, given, hgiven, .inr ⟨rfl, rfl, c, hcriterion, rfl⟩⟩

variable {o : Offer} {f : Subject R} {s : Solver (o.method : Method R)} {a : Solver.Accepted R n}
  {σ : Type}

/-- What a plan orders is accepted with options only that hold the method to its budget. -/
theorem bounded_of_accepted [Newton.Climbs R]
    (horder : p.order (o.method : Method R) problem = .ok order)
    (ha : s.acceptOrder n order = .ok a) : o.Bounded p.limit a.options := by
  obtain ⟨-, -, hoptions⟩ := Solver.accept_eq_ok_iff.mp (Solver.accept_of_acceptOrder ha)
  obtain ⟨-, -, -, hmerged⟩ := Solver.acceptOptions_eq_ok_iff.mp hoptions
  obtain ⟨-, given, hgiven, hcase⟩ := order_eq_ok horder
  -- none of the limits is among the options that a plan sets by itself
  have hfree {key : String} (hkey : key ∈ "max_iter" :: LineStep.limitKeys ++ Newton.ladderKeys) :
      key ∉ given.keys := by
    have hapart : ∀ key ∈ "max_iter" :: LineStep.limitKeys ++ Newton.ladderKeys,
        key ∉ givenKeys := by decide
    exact fun hset => hapart key hkey (keys_of_options hgiven hset)
  rw [← hmerged]
  rcases hcase with ⟨hc, hgives⟩ | ⟨hc, hgives, -⟩
  · rw [hgives]
    exact o.bounded_counting hc p.limit (hfree List.mem_cons_self)
  · rw [hgives]
    exact o.bounded_merged hc p.limit
      (fun key hkey => hfree (List.mem_append_left _ (List.mem_cons_of_mem _ hkey)))
      fun key hkey => hfree (List.mem_append_right _ hkey)

/-- An accepted limit is positive. -/
theorem limit_pos [Newton.Climbs R]
    (horder : p.order (o.method : Method R) problem = .ok order)
    (ha : s.acceptOrder n order = .ok a) : 0 < p.limit := by
  have hbounded := bounded_of_accepted horder ha
  obtain ⟨-, -, hoptions⟩ := Solver.accept_eq_ok_iff.mp (Solver.accept_of_acceptOrder ha)
  obtain ⟨-, -, hvalid, -⟩ := Solver.acceptOptions_eq_ok_iff.mp hoptions
  obtain ⟨-, given, -, ⟨hc, -⟩ | ⟨-, -, c, hcriterion, -⟩⟩ := order_eq_ok horder
  · have hcount : a.options.IsCount "max_iter" := by
      cases o with
      | gradientDescent => exact (GradientDescent.validate_eq_ok_iff.mp hvalid).2.2
      | hookeJeeves => exact (HookeJeeves.validate_eq_ok_iff.mp hvalid).2.2.2
      | _ => cases hc
    obtain ⟨i, hi, hpos⟩ := hcount
    obtain rfl := Except.ok.inj ((hbounded.count hc).symm.trans hi)
    exact hpos
  · exact (criterion_eq_ok hcriterion).1

/-- A run of what a plan orders makes no step beyond the limit of the plan. -/
theorem thrifty [Newton.Climbs R] {a : Solver.Accepted R f.n} (hf : f.objective.Halting)
    (horder : p.order (o.method : Method R) problem = .ok order)
    (ha : s.acceptOrder f.n order = .ok a) :
    Solver.Thrifty o.method f a (Solver.asked? o.method order) p.limit.toNat (f.n + 2)
      (2 * f.n + 310) := by
  have hbounded := bounded_of_accepted horder ha
  have hlimit := limit_pos horder ha
  have hstep (count : Nat) (st : (o.method : Method R).State f.n) :=
    o.step_within (s := a.situation f.objective.name) hbounded count st
  obtain ⟨-, given, -, ⟨hc, -⟩ | ⟨hc, -, c, hcriterion, hgiven⟩⟩ := order_eq_ok horder
  · -- the method counts its steps, and is not asked for a criterion
    rw [show Solver.asked? (o.method : Method R) order = none from if_pos hc]
    refine ⟨hf, by omega, o.start_halts _ _, fun count st => ?_, nofun, nofun⟩
    refine (hstep count st).mono (Nat.le_refl _) fun r hr _ hrun => ?_
    have hlt := hr hc hrun
    omega
  · obtain ⟨-, primary, hplain, rfl⟩ := criterion_eq_ok hcriterion
    have hasked : Solver.asked? (o.method : Method R) order =
        some (.join .any primary (.iterations p.limit.toNat)) := by
      rw [Solver.asked?, hc, hgiven]
      rfl
    rw [hasked]
    refine ⟨hf, by omega, o.start_halts _ _, fun count st => ?_, ?_, ?_⟩
    · exact (hstep count st).mono (Nat.le_refl _) fun r _ => nofun
    · rintro _ ⟨⟩ v k
      exact hplain.holds_join p.limit.toNat v k
    · rintro _ ⟨⟩ v k
      exact hplain.measure_join p.limit.toNat v k

/-- A plan that comes to nothing to run fails; otherwise its outcome is that of a new solver. -/
theorem run_cases (p : Plan R) (problem : Problem R) (visit : Snapshot R → Nat → σ → σ) (seen : σ) :
    (∃ e : Failure R, e.Uncut ∧ (p.run problem visit seen).results = .error e) ∨
      ∃ (o : Offer) (order : Solver.Order R) (f : Subject R),
        Offer.find? p.method = (.ok o : Attempt R Offer) ∧
        p.order (o.method : Method R) problem = .ok order ∧ problem.subject? = .ok f ∧
        (p.run problem visit seen).results =
          (exec (Solver.solve f order visit)
            (({ name := o.solverName p.name? } : Solver (o.method : Method R)), seen)).1 := by
  unfold run
  cases hfind : (Offer.find? p.method : Attempt R Offer) with
  | error e => exact .inl ⟨e, Offer.find?_halts p.method e hfind, rfl⟩
  | ok o =>
      cases horder : p.order (o.method : Method R) problem with
      | error e =>
          rw [ok_bind, horder]
          exact .inl ⟨e, order_halts _ _ _ e horder, rfl⟩
      | ok order =>
          cases hsubject : problem.subject? with
          | error e =>
              rw [ok_bind, horder]
              exact .inl ⟨e, problem.subject?_halts e hsubject, rfl⟩
          | ok f =>
              rw [ok_bind, horder]
              exact .inr ⟨o, order, f, rfl, horder, rfl, rfl⟩

/-- How many evaluations a run of a plan takes at most in `n` variables. -/
def budget (p : Plan R) (n : Nat) : Nat := n + 2 + p.limit.toNat * (2 * n + 313)

theorem keepsTo [Newton.Climbs R] (hf : problem.objective.Halting)
    (horder : p.order (o.method : Method R) problem = .ok order)
    (hsubject : problem.subject? = .ok f) {horizon : Nat} (hlong : p.limit.toNat ≤ horizon)
    (visit : Snapshot R → Nat → σ → σ) (seen : σ) :
    Solver.KeepsTo p.limit.toNat (p.budget problem.n)
      (exec (Solver.solve f { order with horizon } visit)
        (({ name := o.solverName p.name? } : Solver (o.method : Method R)), seen)) := by
  obtain rfl := Problem.subject?_eq_ok hsubject
  -- the horizon matters neither to what is accepted nor to what is asked
  have hthrifty (a : Solver.Accepted R problem.n)
      (ha : Solver.acceptOrder { name := o.solverName p.name? } problem.n order = .ok a) :=
    thrifty (f := ⟨problem.n, problem.objective, {}⟩) hf horder ha
  exact Solver.solve_keepsTo rfl (Solver.acceptOrder_halts _ _ _) hthrifty hlong visit seen

/-- A run of a plan is never cut off: it fails or returns, after no more steps than the limit of the
plan and no more evaluations than its budget. That is so for every method, criterion and search, for
objectives that are undefined or infinite anywhere, and however far the horizon of the run is beyond
the limit; and if the run fails, it has spent no more than that. -/
theorem run_within_budget [Newton.Climbs R] (p : Plan R) (problem : Problem R)
    (hf : problem.objective.Halting) (visit : Snapshot R → Nat → σ → σ) (seen : σ) :
    (p.run problem visit seen).results.Halts ∧
      (∀ r, (p.run problem visit seen).results = .ok r → r.iterations ≤ p.limit.toNat ∧
        r.evaluations.values + r.evaluations.gradients + r.evaluations.hessians ≤
          p.budget problem.n) ∧
      ∀ (o : Offer) (order : Solver.Order R) (f : Subject R),
        Offer.find? p.method = (.ok o : Attempt R Offer) →
        p.order (o.method : Method R) problem = .ok order → problem.subject? = .ok f →
        ∀ horizon, p.limit.toNat ≤ horizon →
          Solver.KeepsTo p.limit.toNat (p.budget problem.n)
            (exec (Solver.solve f { order with horizon } visit)
              (({ name := o.solverName p.name? } : Solver (o.method : Method R)), seen)) := by
  rcases run_cases p problem visit seen with
    ⟨e, he, hrun⟩ | ⟨o, order, f, -, horder, hsubject, hrun⟩
  · rw [hrun]
    refine ⟨?_, fun r hr => ?_, fun o order f _ horder hsubject horizon hlong =>
      keepsTo hf horder hsubject hlong visit seen⟩
    · rintro _ ⟨⟩
      exact he
    · cases hr
  · obtain ⟨hhorizon, -⟩ := order_eq_ok horder
    have h := keepsTo hf horder hsubject (Nat.le_of_eq hhorizon.symm) visit seen
    rw [hrun]
    exact ⟨h.halts, fun r hr => ⟨h.steps r hr, h.evaluations r hr⟩,
      fun o order f _ horder hsubject horizon hlong =>
        keepsTo hf horder hsubject hlong visit seen⟩

/-! A line in doubles that is undefined below zero. The second derivative is refused until it is
damped, and the first step is so long that the search for a shorter one looks where there are no
values. -/

/-- The identity from zero on, undefined below. -/
def halfLine : Problem Float where
  key := "half line"
  title := "x"
  n := 1
  objective :=
    { name := "half line"
      value := fun x =>
        let t := x.get ⟨0, Nat.one_pos⟩
        pure (if t < 0.0 then 0.0 / 0.0 else t)
      gradient? := some fun _ => pure #[1.0]
      hessian? := some fun _ => pure #[0.0] }
  start := Tensor.ofArray #[4.0]
  minimum? := none
  leastValue? := none

theorem halfLine_halting : halfLine.objective.Halting where
  value _ := halts_pure _
  gradient := by
    rintro _ ⟨⟩ x
    exact halts_pure _
  hessian := by
    rintro _ ⟨⟩ x
    exact halts_pure _

def twoNewtonSteps : Plan Float := { method := "newton", limit := 2, lineSearch? := some "cubic4" }

theorem newton_on_halfLine :
    (twoNewtonSteps.run halfLine (fun _ _ seen => seen) ()).results.Halts ∧
      (∀ r, (twoNewtonSteps.run halfLine (fun _ _ seen => seen) ()).results = .ok r →
        r.iterations ≤ 2) ∧
      (twoNewtonSteps.run halfLine (fun _ _ seen => seen) ()).results.toOption.map
        (fun r => (r.iterations, r.evaluations)) = some (1, ⟨37, 1, 1⟩) := by
  obtain ⟨hhalts, hbounds, -⟩ :=
    run_within_budget twoNewtonSteps halfLine halfLine_halting (fun _ _ seen => seen) ()
  exact ⟨hhalts, fun r hr => (hbounds r hr).1, by decide +kernel⟩

end Plan

end Minima
