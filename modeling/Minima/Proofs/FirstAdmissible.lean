import Mathlib.Data.List.Range
import Mathlib.Tactic.NormNum
import Minima.Proofs.FirstTrials
import Minima.Proofs.SearchReports
import Minima.Scalar.Real

/-!
# The first admissible step

Backtracking tries one step after the other, each `tau` times the one before, and ends at the first at
which the value is small enough, before the first that would be too small, or when the tries are used up.
So all of its course is known from the number of the last step: what was asked, what was refused on the
way, and which of the three ends it came to. The limit of tries is that of the options, cut by that of
the search if it has one, and at least one.
-/

namespace Minima.LineSearch

open Dialogue Attempt

variable {R : Type} [Scalar R] {phi : R → Attempt R R} {options : Options R}

/-- A search by name follows its method, and reports how many questions it has put. -/
theorem follows_of_search {request : Request R} {kind : Kind} {qs : List R} {r : Outcome R}
    (hkind : Kind.ofKey? (if request.method == defaultKey then Kind.armijo.key else request.method) =
      some kind)
    (h : (search request options).Follows phi qs r) :
    ∃ outcome, (searchWith kind ⟨request.left, request.right⟩ request.tol request.limit
      options).Follows phi qs outcome ∧ r = { outcome with evaluations := qs.length } := by
  unfold search at h
  simp only [hkind] at h
  split at h
  · cases h.read
  · obtain ⟨⟨outcome, count⟩, first, rest, hcount, hrest, rfl⟩ := h.of_bind
    obtain ⟨hsearch, rfl⟩ := hcount.of_countedFrom
    obtain ⟨rfl, rfl⟩ := hrest.of_pure
    rw [List.append_nil]
    exact ⟨outcome, hsearch, by rw [Nat.zero_add]⟩

namespace Backtracking

variable {b : Backtracking R} {maxIter : Int}

/-! ## The options -/

/-- The options give these numbers, and this limit of tries. -/
structure Given (b : Backtracking R) (maxIter : Int) (options : Options R) : Prop where
  f0 : ∃ given, options.get? "f0" = some given ∧ given.toReal = .ok b.f0
  slope : ∃ given, options.get? "directional_derivative" = some given ∧ given.toReal = .ok b.slope
  alpha0 : options.realD "alpha0" 1.0 = .ok b.alpha0
  tau : options.realD "tau" 0.5 = .ok b.tau
  c1 : options.realD "c1" 1e-4 = .ok b.c1
  minAlpha : options.realD "min_alpha" 1e-12 = .ok b.minAlpha
  limit : ∃ tries, options.wholeD "max_backtracking" maxIter = .ok tries ∧
    (b.limit : Int) = max 1 (if 0 < maxIter then min maxIter tries else tries)
  shrinks : (0.0 : R) < b.tau ∧ b.tau < 1.0

theorem Given.one_le_limit (h : b.Given maxIter options) : 1 ≤ b.limit := by
  obtain ⟨tries, -, hlimit⟩ := h.limit
  omega

/-- An option that has to be there. -/
theorem needed_eq_ok_iff {key : String} {x : R} :
    (match options.get? key with
      | some given => given.toReal
      | none => throw (.configuration (.armijoMissing key)) : Attempt R R) = .ok x ↔
      ∃ given, options.get? key = some given ∧ given.toReal = .ok x := by
  cases options.get? key with
  | none => simp [throw, throwThe, MonadExceptOf.throw]
  | some given => simp

/-- What backtracking reads from its options. -/
theorem ofOptions_eq_ok_iff : ofOptions maxIter options = .ok b ↔ b.Given maxIter options := by
  constructor
  · intro h
    unfold ofOptions at h
    obtain ⟨f0, hf0, h⟩ := bind_eq_ok.mp h
    obtain ⟨slope, hslope, h⟩ := bind_eq_ok.mp h
    obtain ⟨alpha0, halpha0, h⟩ := bind_eq_ok.mp h
    obtain ⟨tau, htau, h⟩ := bind_eq_ok.mp h
    obtain ⟨c1, hc1, h⟩ := bind_eq_ok.mp h
    obtain ⟨minAlpha, hminAlpha, h⟩ := bind_eq_ok.mp h
    obtain ⟨tries, htries, h⟩ := bind_eq_ok.mp h
    by_cases hrange : (0.0 : R) < tau ∧ tau < 1.0
    · rw [if_neg (not_not_intro hrange)] at h
      cases h
      refine ⟨needed_eq_ok_iff.mp hf0, needed_eq_ok_iff.mp hslope, halpha0, htau, hc1, hminAlpha,
        ⟨tries, htries, ?_⟩, hrange⟩
      exact Int.toNat_of_nonneg (by omega)
    · rw [if_pos hrange] at h
      cases h
  · rintro ⟨hf0, hslope, halpha0, htau, hc1, hminAlpha, ⟨tries, htries, hlimit⟩, hrange⟩
    unfold ofOptions
    refine bind_eq_ok.mpr ⟨_, needed_eq_ok_iff.mpr hf0, bind_eq_ok.mpr ⟨_, needed_eq_ok_iff.mpr hslope, ?_⟩⟩
    rw [halpha0, htau, hc1, hminAlpha, htries]
    show (if ¬ ((0.0 : R) < b.tau ∧ b.tau < 1.0) then _ else _) = _
    rw [if_neg (not_not_intro hrange)]
    have hnat : (max 1 (if 0 < maxIter then min maxIter tries else tries)).toNat = b.limit := by
      rw [← hlimit, Int.toNat_natCast]
    show Except.ok { b with limit := (max 1 (if 0 < maxIter then min maxIter tries else tries)).toNat } = _
    rw [hnat]

/-! ## The steps -/

def trial (b : Backtracking R) : Nat → R
  | 0 => b.alpha0
  | i + 1 => b.trial i * b.tau

/-- The value at a step is small enough. -/
def Admits (b : Backtracking R) (alpha value : R) : Prop := value ≤ b.f0 + b.c1 * alpha * b.slope

theorem accepts_iff {alpha value : R} : b.accepts alpha value = true ↔ b.Admits alpha value :=
  decide_eq_true_iff

/-- The step is tried and refused, and the next one is not too small. -/
def PassesOver (b : Backtracking R) (phi : R → Attempt R R) (i : Nat) : Prop :=
  ∃ value, phi (b.trial i) = .ok value ∧ ¬ b.Admits (b.trial i) value ∧
    ¬ b.trial (i + 1) < b.minAlpha

/-- How the search ends at a step: whether the step is accepted, why it stops, and what it reports. -/
inductive Ends (b : Backtracking R) (j : Nat) (value : R) : Bool → StopReason → R → Prop
  | accepted (h : b.Admits (b.trial j) value) : b.Ends j value true .sufficientDecrease (b.trial j)
  | small (hrefused : ¬ b.Admits (b.trial j) value) (h : b.trial (j + 1) < b.minAlpha) :
      b.Ends j value false .leastStep (b.trial j)
  | exhausted (hrefused : ¬ b.Admits (b.trial j) value) (hlarge : ¬ b.trial (j + 1) < b.minAlpha)
      (h : j + 1 = b.limit) : b.Ends j value false .backtrackingLimit (b.trial (j + 1))

/-- The whole course of a search: it tries the steps up to the one of number `j`, passes over all
of them but this, and ends here. -/
structure Course (b : Backtracking R) (phi : R → Attempt R R) (qs : List R) (r : Outcome R)
    (j : Nat) : Prop where
  iterations : r.iterations = j + 1
  within : j + 1 ≤ b.limit
  asked : qs = (List.range (j + 1)).map b.trial
  evaluations : r.evaluations = j + 1
  passed : ∀ i < j, b.PassesOver phi i
  value : phi (b.trial j) = .ok r.value
  ends : ∃ accepted, r.extra = .backtracking accepted b.f0 b.slope ∧
    b.Ends j r.value accepted r.stop r.alpha

/-! ## The loop -/

/-- One try: it is accepted, or the next step would be too small, or no try is left, or the loop goes
on with the next step. -/
theorem loop_cases {fuel count : Nat} {alpha : R} {qs : List R} {last : R × R × Nat × StopReason}
    (h : (b.loop fuel count alpha).Follows phi qs last) :
    ∃ value rest, phi alpha = .ok value ∧ qs = alpha :: rest ∧
      (b.Admits alpha value ∧ rest = [] ∧ last = (alpha, value, count + 1, .sufficientDecrease) ∨
        ¬ b.Admits alpha value ∧ alpha * b.tau < b.minAlpha ∧ rest = [] ∧
          last = (alpha, value, count + 1, .leastStep) ∨
        ¬ b.Admits alpha value ∧ ¬ alpha * b.tau < b.minAlpha ∧
          (fuel = 0 ∧ rest = [] ∧ last = (alpha * b.tau, value, count + 1, .backtrackingLimit) ∨
            ∃ left, fuel = left + 1 ∧
              (b.loop left (count + 1) (alpha * b.tau)).Follows phi rest last)) := by
  have hloop : b.loop fuel count alpha = (do
      let value ← Probe.valueAt alpha
      if b.accepts alpha value then return (alpha, value, count + 1, .sufficientDecrease)
      if alpha * b.tau < b.minAlpha then return (alpha, value, count + 1, .leastStep)
      match fuel with
      | 0 => return (alpha * b.tau, value, count + 1, .backtrackingLimit)
      | left + 1 => b.loop left (count + 1) (alpha * b.tau)) := by
    cases fuel <;> rfl
  rw [hloop] at h
  obtain ⟨value, rest, hvalue, hqs, hrest⟩ := h.of_question_bind
  refine ⟨value, rest, hvalue, hqs, ?_⟩
  split at hrest
  · rename_i haccepts
    obtain ⟨hlast, hnone⟩ := hrest.of_pure
    exact .inl ⟨accepts_iff.mp haccepts, hnone, hlast⟩
  · rename_i hrefused
    have hadmits : ¬ b.Admits alpha value := mt accepts_iff.mpr hrefused
    split at hrest
    · rename_i hsmall
      obtain ⟨hlast, hnone⟩ := hrest.of_pure
      exact .inr (.inl ⟨hadmits, hsmall, hnone, hlast⟩)
    · rename_i hlarge
      refine .inr (.inr ⟨hadmits, hlarge, ?_⟩)
      cases fuel with
      | zero =>
          obtain ⟨hlast, hnone⟩ := hrest.of_pure
          exact .inl ⟨rfl, hnone, hlast⟩
      | succ left => exact .inr ⟨left, rfl, hrest⟩

/-- The course of the loop from the step of number `i` on. -/
theorem loop_course {fuel i : Nat} (hlimit : i + fuel + 1 = b.limit) {qs : List R}
    {last : R × R × Nat × StopReason} (h : (b.loop fuel i (b.trial i)).Follows phi qs last) :
    ∃ j, i ≤ j ∧ j < b.limit ∧ qs = (List.range' i (j + 1 - i)).map b.trial ∧
      (∀ k, i ≤ k → k < j → b.PassesOver phi k) ∧ phi (b.trial j) = .ok last.2.1 ∧
      last.2.2.1 = j + 1 ∧
      b.Ends j last.2.1 (last.2.2.2 == .sufficientDecrease) last.2.2.2 last.1 := by
  -- on the tries that are left; the loop ends with this try, or goes on with one less
  induction fuel using Nat.strongRecOn generalizing i qs with
  | ind fuel ih =>
      obtain ⟨value, rest, hvalue, rfl, hcases⟩ := loop_cases h
      have hhere : [b.trial i] = (List.range' i (i + 1 - i)).map b.trial := by
        rw [Nat.add_sub_cancel_left]
        rfl
      have hnone (k : Nat) (hik : i ≤ k) (hki : k < i) : b.PassesOver phi k :=
        absurd hki (Nat.not_lt.mpr hik)
      rcases hcases with ⟨hadmits, rfl, rfl⟩ | ⟨hrefused, hsmall, rfl, rfl⟩ |
        ⟨hrefused, hlarge, ⟨rfl, rfl, rfl⟩ | ⟨left, rfl, hrest⟩⟩
      · exact ⟨i, le_rfl, by omega, hhere, hnone, hvalue, rfl, .accepted hadmits⟩
      · exact ⟨i, le_rfl, by omega, hhere, hnone, hvalue, rfl, .small hrefused hsmall⟩
      · exact ⟨i, le_rfl, by omega, hhere, hnone, hvalue, rfl, .exhausted hrefused hlarge hlimit⟩
      · obtain ⟨j, hij, hj, rfl, hpassed, hlast⟩ :=
          ih left (Nat.lt_succ_self left) (by omega) hrest
        refine ⟨j, by omega, hj, ?_, fun k hik hkj => ?_, hlast⟩
        · have hlength : j + 1 - i = j + 1 - (i + 1) + 1 := by omega
          rw [hlength, List.range'_succ, List.map_cons]
        · rcases Nat.eq_or_lt_of_le hik with rfl | hik
          · exact ⟨value, hvalue, hrefused, hlarge⟩
          · exact hpassed k hik hkj

/-- The loop asks only for values at its steps, and comes to an end. -/
theorem loop_asks (b : Backtracking R) (fuel i : Nat) :
    (b.loop fuel i (b.trial i)).Meets (fun a => ∃ k ≤ i + fuel, a = b.trial k) (fun _ => True)
      (fun _ => False) := by
  induction fuel generalizing i with
  | zero =>
      refine meets_question_bind ⟨i, le_rfl, rfl⟩ fun value => ?_
      refine meets_ite (fun _ => meets_pure trivial) fun _ => ?_
      exact meets_ite (fun _ => meets_pure trivial) fun _ => meets_pure trivial
  | succ fuel ih =>
      refine meets_question_bind ⟨i, Nat.le_add_right .., rfl⟩ fun value => ?_
      refine meets_ite (fun _ => meets_pure trivial) fun _ => ?_
      refine meets_ite (fun _ => meets_pure trivial) fun _ => (ih (i + 1)).mono ?_ (fun _ h => h) nofun
      rintro _ ⟨k, hk, rfl⟩
      exact ⟨k, by omega, rfl⟩

/-! ## The search -/

theorem armijo_course {s : Span R} {qs : List R} {r : Outcome R}
    (h : (armijo s maxIter options).Follows phi qs r) :
    ∃ (b : Backtracking R) (j : Nat), b.Given maxIter options ∧
      b.Course phi qs { r with evaluations := qs.length } j := by
  obtain ⟨b, hb, hsearch⟩ := h.of_lift_bind
  have hgiven := ofOptions_eq_ok_iff.mp hb
  obtain ⟨⟨alpha, value, iterations, stop⟩, first, rest, hloop, hrest, rfl⟩ := hsearch.of_bind
  obtain ⟨rfl, rfl⟩ := hrest.of_pure
  obtain ⟨j, -, hj, rfl, hpassed, hvalue, hiterations, hends⟩ :=
    loop_course (by have := hgiven.one_le_limit; omega) hloop
  refine ⟨b, j, hgiven, hiterations, hj, ?_, ?_, fun k hk => hpassed k (Nat.zero_le k) hk, hvalue,
    _, rfl, hends⟩
  · rw [List.append_nil, Nat.sub_zero, List.range_eq_range']
  · simp

theorem armijo_returns (hb : b.Given maxIter options)
    (hphi : ∀ i < b.limit, ∃ value, phi (b.trial i) = .ok value) (s : Span R) :
    ∃ qs r, (armijo s maxIter options).Follows phi qs r := by
  have hpos := hb.one_le_limit
  have hvalues : ∀ a, (∃ k ≤ 0 + (b.limit - 1), a = b.trial k) → ∃ value, phi a = .ok value := by
    rintro _ ⟨k, hk, rfl⟩
    exact hphi k (by omega)
  obtain ⟨qs, last, hloop, -, -⟩ := (b.loop_asks (b.limit - 1) 0).follows hvalues
  exact ⟨_, _, follows_lift_bind (ofOptions_eq_ok_iff.mpr hb) (follows_bind hloop (follows_pure _))⟩

end Backtracking

/-- Backtracking comes to a result if its options can be read and the function has values at its steps.
Its result and its questions are those of the course that ends at the first step that is accepted, at
the first whose successor is too small, or with the last try that the limit allows. -/
theorem backtracking_ends_first (request : Request R) (options : Options R)
    (hmethod : request.method = Kind.armijo.key ∨ request.method = defaultKey)
    (phi : R → Attempt R R) :
    (∀ qs r, (search request options).Follows phi qs r →
      ∃ (b : Backtracking R) (j : Nat), b.Given request.limit options ∧ b.Course phi qs r j) ∧
    ∀ b : Backtracking R, b.Given request.limit options →
      (∀ i < b.limit, ∃ value, phi (b.trial i) = .ok value) →
      ∃ qs r, (search request options).Follows phi qs r := by
  have hkind : Kind.ofKey? (if request.method == defaultKey then Kind.armijo.key
      else request.method) = some .armijo := by
    rcases hmethod with hname | hname <;> rw [hname] <;> decide
  constructor
  · intro qs r h
    obtain ⟨outcome, harmijo, rfl⟩ := follows_of_search hkind h
    exact Backtracking.armijo_course harmijo
  · intro b hb hphi
    obtain ⟨qs, outcome, h⟩ := Backtracking.armijo_returns hb hphi ⟨request.left, request.right⟩
    exact ⟨qs, _, search_follows_method hkind (.inl rfl) h⟩

/-! ## A step that overshoots -/

noncomputable def fiveTries : Request ℝ := { singleTry with limit := 5 }

noncomputable def halvedFromOne : Backtracking ℝ := { onceFromOne with limit := 5 }

theorem halvedFromOne_given : halvedFromOne.Given fiveTries.limit falling where
  f0 := ⟨_, rfl, rfl⟩
  slope := ⟨_, rfl, rfl⟩
  alpha0 := rfl
  tau := rfl
  c1 := rfl
  minAlpha := rfl
  limit := ⟨5, rfl, by decide⟩
  shrinks := by
    show (0.0 : ℝ) < 0.5 ∧ (0.5 : ℝ) < 1.0
    norm_num

/-- A parabola that falls from zero and has risen again at one. -/
noncomputable def overshot (a : ℝ) : Attempt ℝ ℝ := .ok (1.5 * a ^ 2 - a)

/-- The step one is refused, and the step one half is accepted. -/
theorem overshoot_halved : ∃ qs r, (search fiveTries falling).Follows overshot qs r ∧
    qs = [1.0, 1.0 * 0.5] ∧ r.alpha = 1.0 * 0.5 ∧ r.stop = .sufficientDecrease := by
  obtain ⟨hcourse, hreturns⟩ := backtracking_ends_first fiveTries falling (.inl rfl) overshot
  obtain ⟨qs, r, h⟩ := hreturns halvedFromOne halvedFromOne_given fun i _ => ⟨_, rfl⟩
  obtain ⟨b, j, hb, hj⟩ := hcourse qs r h
  obtain rfl : halvedFromOne = b := Except.ok.inj <|
    (Backtracking.ofOptions_eq_ok_iff.mpr halvedFromOne_given).symm.trans
      (Backtracking.ofOptions_eq_ok_iff.mpr hb)
  have hfirst : ¬ halvedFromOne.Admits 1.0 (1.5 * 1.0 ^ 2 - 1.0) := by
    show ¬ (1.5 * 1.0 ^ 2 - 1.0 : ℝ) ≤ 0 + 1e-4 * 1.0 * -1
    norm_num
  have hsecond : halvedFromOne.Admits (1.0 * 0.5) (1.5 * (1.0 * 0.5) ^ 2 - 1.0 * 0.5) := by
    show (1.5 * (1.0 * 0.5) ^ 2 - 1.0 * 0.5 : ℝ) ≤ 0 + 1e-4 * (1.0 * 0.5) * -1
    norm_num
  match j with
  | 0 =>
      obtain ⟨accepted, -, hends⟩ := hj.ends
      obtain hvalue : 1.5 * 1.0 ^ 2 - 1.0 = r.value := Except.ok.inj hj.value
      rw [← hvalue] at hends
      generalize r.alpha = alpha, r.stop = stop at hends
      cases hends with
      | accepted hadmits => exact absurd hadmits hfirst
      | small _ hsmall =>
          have hlarge : ¬ (1.0 * 0.5 : ℝ) < 1e-12 := by norm_num
          exact absurd hsmall hlarge
      | exhausted _ _ hlimit => exact absurd hlimit (by decide)
  | 1 =>
      obtain ⟨accepted, -, hends⟩ := hj.ends
      obtain hvalue : 1.5 * (1.0 * 0.5) ^ 2 - 1.0 * 0.5 = r.value := Except.ok.inj hj.value
      rw [← hvalue] at hends
      refine ⟨qs, r, h, hj.asked, ?_⟩
      generalize r.alpha = alpha, r.stop = stop at hends ⊢
      cases hends with
      | accepted _ => exact ⟨rfl, rfl⟩
      | small hrefused _ => exact absurd hsecond hrefused
      | exhausted hrefused _ _ => exact absurd hsecond hrefused
  | j + 2 =>
      obtain ⟨value, hvalue, hrefused, -⟩ := hj.passed 1 (by omega)
      obtain rfl : 1.5 * (1.0 * 0.5) ^ 2 - 1.0 * 0.5 = value := Except.ok.inj hvalue
      exact absurd hsecond hrefused

end Minima.LineSearch
