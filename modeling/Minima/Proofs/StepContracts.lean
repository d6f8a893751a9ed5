import Minima.Proofs.Searches
import Minima.Proofs.Validation

/-!
# What steps do with their options

A step reads options that no check has looked at. It does so before it goes on: a step that goes on
has read all of them, so whether they can be used is known after the first one. With usable options
a step fails at most numerically, which ends the run but does not fail it.
-/

namespace Minima

open Dialogue

variable {R α : Type} {n : Nat}

/-! ## Attempts that serve -/

/-- The attempt fails at most numerically. -/
def Attempt.Serves (a : Attempt R α) : Prop := ∀ e, a = .error e → e.isNumerical = true

theorem Attempt.serves_of_ok {a : Attempt R α} {x : α} (h : a = .ok x) : a.Serves := by
  subst h
  rintro e ⟨⟩

/-- What may come out of a step if `usable` holds: what a run absorbs, and being cut off. -/
def Failure.Excused (usable : Prop) (e : Failure R) : Prop :=
  usable → e.isNumerical = true ∨ e = .cutOff

namespace Failure

variable {usable usable' : Prop} {e : Failure R}

theorem Excused.mono (h : e.Excused usable) (hu : usable' → usable) : e.Excused usable' :=
  fun h' => h (hu h')

theorem excused_of_numerical (h : e.isNumerical = true) : e.Excused usable := fun _ => .inl h

theorem excused_of_serves {a : Attempt R α} (ha : a = .error e) (h : usable → a.Serves) :
    e.Excused usable := fun hu => .inl (h hu e ha)

end Failure

open Failure

variable [Scalar R]

namespace Options

variable {options : Options R} {key : String}

theorem real_of_get {given : Setting R} (h : options.get key = .ok given) :
    options.real key = given.toReal := by
  rw [real, h]
  rfl

theorem whole_of_get {given : Setting R} (h : options.get key = .ok given) :
    options.whole key = given.toWhole := by
  rw [whole, h]
  rfl

theorem real_of_get_error {e : Failure R} (h : options.get key = .error e) :
    options.real key = .error e := by
  rw [real, h]
  rfl

theorem whole_of_get_error {e : Failure R} (h : options.get key = .error e) :
    options.whole key = .error e := by
  rw [whole, h]
  rfl

/-- An option in a range is given and is a number. -/
theorem InRange.given {range : OptionRange} (h : options.InRange range key) :
    ∃ given x, options.get key = .ok given ∧ given.toReal = .ok x ∧ range.covers x = true := by
  obtain ⟨x, hx, hcovers⟩ := h
  cases hg : options.get key with
  | error e => simp [real_of_get_error hg] at hx
  | ok given => exact ⟨given, x, rfl, (real_of_get hg).symm.trans hx, hcovers⟩

end Options

/-! ## Steps along a line -/

namespace LineStep

open LineSearch

/-- The options that backtracking reads and no check has looked at can be used. -/
structure BacktrackingUsable (options : Options R) : Prop where
  slope : (options.real "c1").Serves
  least : (options.real "min_alpha").Serves
  tries : (options.whole "max_backtracking").Serves

def SearchUsable (options : Options R) : Prop :=
  ∀ name, options.get "line_search" = .ok (.text name) →
    if isBacktracking name = true then BacktrackingUsable options
    else (options.whole "line_search_max_iter").Serves

/-- The options that a step along a line reads and no check has looked at can be used. -/
structure Usable (options : Options R) : Prop where
  search : SearchUsable options
  step : (options.real "step_tol").Serves
  value : (options.real "f_tol").Serves

/-- A known name chooses a search, which is backtracking exactly for its two names. -/
theorem kind_of_isSearchName {name : String} (h : isSearchName name = true) :
    ∃ kind, Kind.ofKey? (if name == defaultKey then Kind.armijo.key else name) = some kind ∧
      (isBacktracking name = true ↔ kind = .armijo) := by
  by_cases hdefault : name = defaultKey
  · subst hdefault
    exact ⟨.armijo, rfl, by decide⟩
  · have hd : (name == defaultKey) = false := by simpa using hdefault
    have hsome : (Kind.ofKey? name).isSome = true := by simpa [isSearchName, hd] using h
    obtain ⟨kind, hkind⟩ := Option.isSome_iff_exists.mp hsome
    have hkey : kind.key = name := by
      have hfound := List.find?_some hkind
      simpa using hfound
    refine ⟨kind, by simpa [hd] using hkind, ?_⟩
    subst hkey
    cases kind <;> decide

/-- Backtracking with the options of a step along a line reads what it is given: the value, the
slope and the first trial are known, and the others are still to be converted. -/
theorem ofOptions_given {f0 slope alpha0 tau : R} {limit : Int} {a t c m l : Setting R}
    (ha : a.toReal = .ok alpha0) (ht : t.toReal = .ok tau)
    (hrange : OptionRange.betweenZeroAndOne.covers tau = true) :
    ∃ k : R → R → Int → Backtracking R,
      (∀ c1 minAlpha given, (k c1 minAlpha given).f0 = f0 ∧ (k c1 minAlpha given).slope = slope ∧
        (k c1 minAlpha given).alpha0 = alpha0 ∧ (k c1 minAlpha given).c1 = c1) ∧
      Backtracking.ofOptions limit [("f0", .real f0), ("directional_derivative", .real slope),
        ("alpha0", a), ("tau", t), ("c1", c), ("max_backtracking", m), ("min_alpha", l)] =
      (do
        let c1 ← c.toReal
        let minAlpha ← l.toReal
        let given ← m.toWhole
        return k c1 minAlpha given) := by
  refine ⟨fun c1 minAlpha given =>
    { f0, slope, alpha0, tau, c1, minAlpha
      limit := (max 1 (if limit > 0 then min limit given else given)).toNat },
    fun _ _ _ => ⟨rfl, rfl, rfl, rfl⟩, ?_⟩
  have htau : (0.0 : R) < tau ∧ tau < 1.0 := by simpa [OptionRange.covers] using hrange
  show (do
    let alpha0 ← a.toReal
    let tau ← t.toReal
    let c1 ← c.toReal
    let minAlpha ← l.toReal
    let given ← m.toWhole
    if ¬ ((0.0 : R) < tau ∧ tau < 1.0) then throw (.configuration (.armijoShrink tau))
    let limit := max 1 (if limit > 0 then min limit given else given)
    return { f0, slope, alpha0, tau, c1, minAlpha, limit := limit.toNat } :
      Attempt R (Backtracking R)) = _
  rw [ha, ht]
  simp only [Attempt.ok_bind, htau, and_self, not_true, if_false]

variable {it : Iterate R n} {p : Vector R n} {e : Failure R}

theorem backtrackingOptions_excused (h : Checked options)
    (he : backtrackingOptions options it p = .error e) : e.Excused (BacktrackingUsable options) := by
  obtain ⟨a, -, ha, -⟩ := (h.positive "alpha0" (by simp)).given
  obtain ⟨t, -, ht, -⟩ := h.tau.given
  rw [backtrackingOptions, ha, Attempt.ok_bind, ht, Attempt.ok_bind, Attempt.bind_eq_error] at he
  obtain hc | ⟨c, -, he⟩ := he
  · exact excused_of_serves (Options.real_of_get_error hc) BacktrackingUsable.slope
  obtain hm | ⟨m, -, he⟩ := Attempt.bind_eq_error.mp he
  · exact excused_of_serves (Options.whole_of_get_error hm) BacktrackingUsable.tries
  obtain hl | ⟨l, -, he⟩ := Attempt.bind_eq_error.mp he
  · exact excused_of_serves (Options.real_of_get_error hl) BacktrackingUsable.least
  · cases he

/-- Backtracking in a step along a line reads three unchecked options, and nothing else of what it
reads can fail. It starts from the value and the slope of the iterate. -/
theorem ofOptions_backtracking (h : Checked options) {alpha0 : R}
    (halpha : options.real "alpha0" = .ok alpha0) {given : Options R}
    (hg : backtrackingOptions options it p = .ok given) (limit : Int) :
    ∃ k : R → R → Int → Backtracking R,
      (∀ c1 minAlpha tries, (k c1 minAlpha tries).f0 = it.value ∧
        (k c1 minAlpha tries).slope = Linear.dot it.gradient p ∧
        (k c1 minAlpha tries).alpha0 = alpha0 ∧ (k c1 minAlpha tries).c1 = c1) ∧
      Backtracking.ofOptions limit given =
        (do
          let c1 ← options.real "c1"
          let minAlpha ← options.real "min_alpha"
          let tries ← options.whole "max_backtracking"
          return k c1 minAlpha tries) := by
  obtain ⟨t, tau, ht, htreal, hrange⟩ := h.tau.given
  obtain ⟨a, ha, hg⟩ := Attempt.bind_eq_ok.mp hg
  rw [Options.real_of_get ha] at halpha
  rw [ht, Attempt.ok_bind] at hg
  obtain ⟨c, hc, hg⟩ := Attempt.bind_eq_ok.mp hg
  obtain ⟨m, hm, hg⟩ := Attempt.bind_eq_ok.mp hg
  obtain ⟨l, hl, hg⟩ := Attempt.bind_eq_ok.mp hg
  cases hg
  rw [Options.real_of_get hc, Options.real_of_get hl, Options.whole_of_get hm]
  exact ofOptions_given halpha htreal hrange

theorem armijo_usable (h : Checked options) {given : Options R}
    (hg : backtrackingOptions options it p = .ok given) (limit : Int) (span : Span R) :
    (armijo span limit given).Meets (fun _ => True) (fun _ => BacktrackingUsable options)
      (Excused (BacktrackingUsable options)) := by
  obtain ⟨alpha0, halpha, -⟩ := h.positive "alpha0" (by simp)
  obtain ⟨k, -, hk⟩ := ofOptions_backtracking h halpha hg limit
  refine armijo_meets span (fun b hb => ?_) fun e he => ?_
  · rw [hk] at hb
    obtain ⟨c1, hc, hb⟩ := Attempt.bind_eq_ok.mp hb
    obtain ⟨minAlpha, hl, hb⟩ := Attempt.bind_eq_ok.mp hb
    obtain ⟨tries, hm, -⟩ := Attempt.bind_eq_ok.mp hb
    exact ⟨Attempt.serves_of_ok hc, Attempt.serves_of_ok hl, Attempt.serves_of_ok hm⟩
  · rw [hk, Attempt.bind_eq_error] at he
    obtain hc | ⟨c1, -, he⟩ := he
    · exact excused_of_serves hc BacktrackingUsable.slope
    obtain hl | ⟨minAlpha, -, he⟩ := Attempt.bind_eq_error.mp he
    · exact excused_of_serves hl BacktrackingUsable.least
    obtain hm | ⟨tries, -, he⟩ := Attempt.bind_eq_error.mp he
    · exact excused_of_serves hm BacktrackingUsable.tries
    · cases he

theorem searchName_eq_ok {name : String} (h : options.get "line_search" = .ok (.text name)) :
    searchName options = .ok name := by
  rw [searchName, h]
  rfl

section

variable {s : Situation R n} {name : String} {limit : Int} {right tol : R}

/-- A search with backtracking that comes to an outcome has read the options of backtracking. -/
theorem backtracking_meets (h : Checked s.options) (hsearch : isSearchName name = true)
    (hback : isBacktracking name = true) (hright : (0.0 : R) < right) {given : Options R}
    (hgiven : backtrackingOptions s.options it p = .ok given) :
    ((search ⟨name, 0.0, right, tol, limit⟩ given).inline fun alpha =>
      Consult.value (along s.region it.point p alpha)).Meets (fun _ => True)
      (fun _ => BacktrackingUsable s.options) (Excused (BacktrackingUsable s.options)) := by
  obtain ⟨kind, hkind, harmijo⟩ := kind_of_isSearchName hsearch
  obtain rfl : kind = .armijo := harmijo.mp hback
  have hmeets : (search ⟨name, 0.0, right, tol, limit⟩ given).Meets (fun _ => True)
      (fun _ => BacktrackingUsable s.options) (Excused (BacktrackingUsable s.options)) :=
    search_meets hkind hright (armijo_usable h hgiven limit ⟨0.0, right⟩)
  exact meets_inline hmeets fun alpha _ => meets_question_bind trivial fun _ => meets_pure trivial

/-- The other searches do not fail. -/
theorem interval_failsOnly {fails : Failure R → Prop} (hsearch : isSearchName name = true)
    (hback : ¬ isBacktracking name = true) (hright : (0.0 : R) < right) :
    ((search ⟨name, 0.0, right, tol, limit⟩ [("alpha0", .real 0.0)]).inline fun alpha =>
      Consult.value (along s.region it.point p alpha)).FailsOnly fails := by
  obtain ⟨kind, hkind, harmijo⟩ := kind_of_isSearchName hsearch
  have hother : kind ≠ .armijo := fun hk => hback (harmijo.mpr hk)
  have hmeets : (search ⟨name, 0.0, right, tol, limit⟩ [("alpha0", .real 0.0)]).FailsOnly fails :=
    search_meets hkind hright
      (searchWith_failsOnly hother ⟨0.0, right⟩ tol limit (numeric_real "alpha0" 0.0))
  exact meets_inline hmeets fun alpha _ => meets_question_bind trivial fun _ => meets_pure trivial

end

/-- A search with checked options that comes to an outcome has read all its unchecked ones. -/
theorem searchAlong_meets {s : Situation R n} (h : Checked s.options) (it : Iterate R n)
    (p : Vector R n) :
    (searchAlong s it p).Meets (fun _ => True) (fun _ => SearchUsable s.options)
      (Excused (SearchUsable s.options)) := by
  obtain ⟨name, hname, hsearch⟩ := h.search
  obtain ⟨right, hright, hcovers⟩ := h.positive "line_search_max_step" (by simp)
  obtain ⟨tol, htol, -⟩ := h.positive "line_search_tol" (by simp)
  have hspan : (0.0 : R) < right := by simpa [OptionRange.covers] using hcovers
  refine meets_known_bind (searchName_eq_ok hname) ?_
  -- the two kinds of search read different options
  by_cases hback : isBacktracking name = true
  · have husable : SearchUsable s.options ↔ BacktrackingUsable s.options := by
      simp [SearchUsable, hname, hback]
    rw [if_pos hback]
    refine meets_lift_bind (fun given hgiven => ?_) fun e he =>
      (backtrackingOptions_excused h he).mono husable.mp
    refine meets_lift_bind (fun limit hlimit => ?_) fun e he =>
      excused_of_serves he fun hu => (husable.mp hu).tries
    refine meets_known_bind hright (meets_known_bind htol ?_)
    exact (backtracking_meets h hsearch hback hspan hgiven).mono (fun _ _ => trivial)
      (fun _ => husable.mpr) fun e he => he.mono husable.mp
  · have husable : SearchUsable s.options ↔ (s.options.whole "line_search_max_iter").Serves := by
      simp [SearchUsable, hname, hback]
    rw [if_neg hback]
    refine meets_lift_bind (fun limit hlimit => ?_) fun e he =>
      excused_of_serves he husable.mp
    refine meets_known_bind hright (meets_known_bind htol ?_)
    exact (interval_failsOnly hsearch hback hspan).mono (fun _ _ => trivial)
      (fun _ _ => husable.mpr (Attempt.serves_of_ok hlimit)) fun _ he => he

theorem stagnates_eq_ok {x : Vector R n} {value : R} {stalled : Bool}
    (h : stagnates options it x value = .ok stalled) :
    (options.real "step_tol").Serves ∧ (options.real "f_tol").Serves := by
  obtain ⟨stepTol, hstep, h⟩ := Attempt.bind_eq_ok.mp h
  obtain ⟨valueTol, hvalue, -⟩ := Attempt.bind_eq_ok.mp h
  exact ⟨Attempt.serves_of_ok hstep, Attempt.serves_of_ok hvalue⟩

theorem stagnates_excused {x : Vector R n} {value : R}
    (h : stagnates options it x value = .error e) : e.Excused (Usable options) := by
  obtain hstep | ⟨stepTol, -, h⟩ := Attempt.bind_eq_error.mp h
  · exact excused_of_serves hstep Usable.step
  obtain hvalue | ⟨valueTol, -, h⟩ := Attempt.bind_eq_error.mp h
  · exact excused_of_serves hvalue Usable.value
  · cases h

/-- A step along a line that goes on has read all its unchecked options. -/
theorem descend_meets {s : Situation R n} (h : Checked s.options) (it : Iterate R n)
    (p : Vector R n) :
    (descend s it p).Meets (fun _ => True) (fun r => r.2 = .running → Usable s.options)
      (Excused (Usable s.options)) := by
  obtain ⟨fallback, hfallback, -⟩ := h.positive "fallback_alpha" (by simp)
  have hsearch := (searchAlong_meets h it p).mono (fun _ h => h) (fun _ h => h)
    fun e he => he.mono Usable.search
  refine meets_bind hsearch fun outcome hs => ?_
  have hlength : (liftM (s.options.real "fallback_alpha") : Consult R n R).Meets (fun _ => True)
      (fun _ => True) (Excused (Usable s.options)) := by
    rw [hfallback]
    exact meets_pure trivial
  refine meets_join (meets_pure trivial) hlength fun alpha _ => ?_
  refine meets_question_bind trivial fun value => ?_
  refine meets_ite (fun _ => meets_pure nofun) fun _ => ?_
  refine meets_ite (fun _ => meets_pure nofun) fun _ => ?_
  refine meets_lift_bind (fun stalled hstalled => ?_) fun e he => stagnates_excused he
  refine meets_question_bind trivial fun gradient => meets_pure fun _ => ?_
  obtain ⟨hstep, hvalue⟩ := stagnates_eq_ok hstalled
  exact ⟨hs, hstep, hvalue⟩

end LineStep

end Minima
