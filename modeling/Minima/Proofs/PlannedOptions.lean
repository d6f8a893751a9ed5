import Minima.Plan
import Minima.Proofs.MethodSteps
import Minima.Proofs.Presets

/-!
# The options that a plan sets

A plan sets a few options of its method: the precision, the limit where the method counts its steps,
and the search. If the precision and the limit are positive and the search is one that is known, then
what comes of them over the defaults passes every check of the method, and its steps can use it.
-/

namespace Minima

variable {R : Type}

/-! ## Searches -/

theorem LineSearch.Kind.isSome_ofKey?_iff {key : String} :
    (Kind.ofKey? key).isSome = true ↔ key ∈ Kind.all.map Kind.key := by
  simp [Kind.ofKey?, List.find?_isSome]

namespace Plan

/-- A choice of a search that is known: the empty one, or a name whose case and the blanks around it
do not matter. -/
def KnownSearch (choice : String) : Prop :=
  choice = "" ∨ Text.strip (Text.lowercase choice) ∈
    LineSearch.defaultKey :: "cubic4" :: LineSearch.Kind.all.map LineSearch.Kind.key

instance (choice : String) : Decidable (KnownSearch choice) := inferInstanceAs (Decidable (_ ∨ _))

variable {choice : String}

/-- A search that is known has a name that every method knows, or is left to the method. -/
theorem searchName?_of_known (h : KnownSearch choice) :
    ∃ name?, (searchName? (some choice) : Attempt R (Option String)) = .ok name? ∧
      ∀ name ∈ name?, LineStep.isSearchName name = true := by
  unfold searchName?
  dsimp only
  by_cases hempty : choice.isEmpty = true
  · rw [if_pos hempty]
    exact ⟨none, rfl, nofun⟩
  rw [if_neg hempty]
  rcases h with rfl | h
  · exact absurd rfl hempty
  generalize Text.strip (Text.lowercase choice) = key at h ⊢
  by_cases hdefault : (key == LineSearch.defaultKey) = true
  · rw [if_pos hdefault]
    exact ⟨none, rfl, nofun⟩
  rw [if_neg hdefault]
  by_cases hcubic : (key == "cubic4") = true
  · rw [if_pos hcubic]
    refine ⟨_, rfl, ?_⟩
    rintro _ ⟨⟩
    decide
  rw [if_neg hcubic]
  have hkey : (LineSearch.Kind.ofKey? key).isSome = true := by
    rw [LineSearch.Kind.isSome_ofKey?_iff]
    simpa [beq_iff_eq.not.mp hdefault, beq_iff_eq.not.mp hcubic] using h
  rw [if_pos hkey]
  refine ⟨_, rfl, ?_⟩
  rintro _ ⟨⟩
  rw [LineStep.isSearchName, hkey, Bool.or_true]

/-- Any other choice is a mistake in the configuration. -/
theorem searchName?_of_unknown (h : ¬ KnownSearch choice) :
    (searchName? (some choice) : Attempt R (Option String)) =
      .error (.configuration (.lineSearchUnknown (Text.strip (Text.lowercase choice)))) := by
  obtain ⟨hempty, hkey⟩ := not_or.mp h
  unfold searchName?
  dsimp only
  rw [if_neg fun hset => hempty (String.isEmpty_iff.mp hset)]
  generalize Text.strip (Text.lowercase choice) = key at hkey ⊢
  obtain ⟨hdefault, hkey⟩ := not_or.mp (List.mem_cons.not.mp hkey)
  obtain ⟨hcubic, hkey⟩ := not_or.mp (List.mem_cons.not.mp hkey)
  rw [if_neg (beq_iff_eq.not.mpr hdefault), if_neg (beq_iff_eq.not.mpr hcubic),
    if_neg (LineSearch.Kind.isSome_ofKey?_iff.not.mpr hkey)]
  rfl

end Plan

/-! ## What a plan sets -/

variable [Scalar R]

namespace Offer

variable {o : Offer}

theorem key_of_ofKey? {key : String} (h : ofKey? key = some o) : o.key = key := by
  have hfound := List.find?_some h
  exact beq_iff_eq.mp hfound

theorem ofKey?_key (o : Offer) : ofKey? o.key = some o := by
  cases o <;> rfl

/-- What a plan sets of the options of a method for a precision and the name of a search. -/
def planned (o : Offer) (eps : R) (name? : Option String) : Options R :=
  match o with
  | .gradientDescent => [("grad_tol", .real eps)]
  | .hookeJeeves => [("initial_step", .real 1.0), ("min_step", .real eps)]
  | .nelderMead => [("initial_simplex_scale", .real 0.1)]
  | _ => (name?.map fun name => ("line_search", .text name)).toList

end Offer

namespace Plan

variable {o : Offer} {eps : R} {p : Plan R} {m : Method R} {given : Options R}

theorem options_apart (ho : (o.method : Method R).usesLineSearch = false) (heps : (0.0 : R) < eps)
    (lineSearch? : Option String) : options o.key eps lineSearch? = .ok (o.planned eps none) := by
  unfold options
  rw [if_neg (not_not.mpr heps), Offer.ofKey?_key]
  cases o with
  | gradientDescent => rfl
  | hookeJeeves => rfl
  | nelderMead => rfl
  | _ => cases ho

theorem options_along (ho : (o.method : Method R).usesLineSearch = true) (heps : (0.0 : R) < eps)
    (lineSearch? : Option String) :
    options o.key eps lineSearch? =
      searchName? lineSearch? >>= fun name? => .ok (o.planned eps name?) := by
  unfold options
  rw [if_neg (not_not.mpr heps), Offer.ofKey?_key]
  cases o with
  | gradientDescent => cases ho
  | hookeJeeves => cases ho
  | nelderMead => cases ho
  | _ =>
      show searchName? lineSearch? >>= _ = _
      refine bind_congr fun name? => ?_
      cases name? <;> rfl

variable {choice : String}

/-- The options come to be if the search is one that is known, where there is one. -/
theorem options_of_known (heps : (0.0 : R) < eps)
    (h : (o.method : Method R).usesLineSearch = true → KnownSearch choice) :
    ∃ name?, (∀ name ∈ name?, LineStep.isSearchName name = true) ∧
      options o.key eps (some choice) = .ok (o.planned eps name?) := by
  cases huses : (o.method : Method R).usesLineSearch with
  | false => exact ⟨none, nofun, options_apart huses heps _⟩
  | true =>
      obtain ⟨name?, hname, hknown⟩ := searchName?_of_known (R := R) (h huses)
      refine ⟨name?, hknown, ?_⟩
      rw [options_along huses heps, hname]
      rfl

theorem options_of_unknown (heps : (0.0 : R) < eps)
    (huses : (o.method : Method R).usesLineSearch = true) (h : ¬ KnownSearch choice) :
    options o.key eps (some choice) =
      .error (.configuration (.lineSearchUnknown (Text.strip (Text.lowercase choice)))) := by
  rw [options_along huses heps, searchName?_of_unknown h]
  rfl

end Plan

/-! ## What is in force -/

theorem Offer.listing_along {o : Offer} (ho : (o.method : Method R).usesLineSearch = true) :
    ∃ more : Options R, o.listing = Method.commonDefaults ++ LineStep.defaults ++ more := by
  cases o with
  | gradientDescent => cases ho
  | nelderMead => cases ho
  | hookeJeeves => cases ho
  | steepestDescent => exact ⟨[], (List.append_nil _).symm⟩
  | _ => exact ⟨_, rfl⟩

namespace LineStep

variable {options more : Options R}

/-- A search can be replaced by another one that is known. -/
theorem checked_of_agree [Presets R]
    (h : options.AgreeBut ["line_search"] (Method.commonDefaults ++ defaults ++ more))
    (hsearch : ∃ name, options.get "line_search" = .ok (.text name) ∧ isSearchName name = true) :
    Checked options := by
  obtain ⟨-, hpositive, htau⟩ := checked_append more
  refine ⟨hsearch, fun key hkey => (h.inRange ?_ _).mpr (hpositive key hkey),
    (h.inRange (by decide) _).mpr htau⟩
  simp only [List.mem_cons, List.not_mem_nil, or_false] at hkey
  rcases hkey with rfl | rfl | rfl | rfl <;> decide

/-- Whatever the search is, a step can use the defaults. -/
theorem usable_of_agree
    (h : options.AgreeBut ["line_search"] (Method.commonDefaults ++ defaults ++ more)) :
    Usable options := by
  have hreal {key : String} {x : R} (hkey : key ∉ ["line_search"])
      (hx : Options.real (Method.commonDefaults ++ defaults ++ more) key = .ok x) :
      (options.real key).Serves := Attempt.serves_of_ok ((h.real hkey).trans hx)
  have hwhole {key : String} {i : Int} (hkey : key ∉ ["line_search"])
      (hi : Options.whole (Method.commonDefaults ++ defaults ++ more) key = .ok i) :
      (options.whole key).Serves := Attempt.serves_of_ok ((h.whole hkey).trans hi)
  refine ⟨fun name _ => ?_, hreal (by decide) rfl, hreal (by decide) rfl⟩
  by_cases hbacktracking : isBacktracking name = true
  · rw [if_pos hbacktracking]
    exact ⟨hreal (by decide) rfl, hreal (by decide) rfl, hwhole (by decide) rfl⟩
  · rw [if_neg hbacktracking]
    exact hwhole (by decide) rfl

end LineStep

namespace Offer

variable {o : Offer} {options given : Options R} {eps : R} {limit : Int} {name? : Option String}

/-- What a plan orders of options: the limit too, where the method counts its steps. -/
def ordered (o : Offer) (eps : R) (limit : Int) (name? : Option String) : Options R :=
  if (o.method : Method R).hasCriterion then
    Options.update [("max_iter", .whole limit)] (o.planned eps name?)
  else o.planned eps name?

theorem ordered_along (ho : (o.method : Method R).usesLineSearch = true) (eps : R) (limit : Int)
    (name? : Option String) : o.ordered eps limit name? =
      (name?.map fun name => ("line_search", Setting.text name)).toList := by
  cases o with
  | gradientDescent => cases ho
  | nelderMead => cases ho
  | hookeJeeves => cases ho
  | _ => rfl

def orderedKeys : Offer → List String
  | .gradientDescent => ["max_iter", "grad_tol"]
  | .hookeJeeves => ["max_iter", "initial_step", "min_step"]
  | .nelderMead => ["initial_simplex_scale"]
  | _ => ["line_search"]

theorem keys_ordered (o : Offer) (eps : R) (limit : Int) (name? : Option String) :
    (o.ordered eps limit name?).keys ⊆ o.orderedKeys := by
  cases o with
  | gradientDescent => exact List.Subset.refl _
  | hookeJeeves => exact List.Subset.refl _
  | nelderMead => exact List.Subset.refl _
  | _ =>
      cases name? with
      | none => exact List.nil_subset _
      | some name => exact List.Subset.refl _

/-- The method knows all of them, and none is a bound of a run. -/
theorem orderedKeys_known (o : Offer) : ∀ key ∈ o.orderedKeys,
    key ∈ (o.method : Method R).defaults.keys ∧ key ∉ ["max_x_norm", "max_abs_f"] := by
  intro key hkey
  have hlisted (h : (o.listing : Options R).has key = true) :
      key ∈ (o.method : Method R).defaults.keys := by
    rw [o.method_defaults]
    exact Options.has_eq_true_iff.mp h
  cases o <;> simp only [orderedKeys, List.mem_cons, List.not_mem_nil, or_false] at hkey
  case gradientDescent => rcases hkey with rfl | rfl <;> exact ⟨hlisted rfl, by decide⟩
  case hookeJeeves => rcases hkey with rfl | rfl | rfl <;> exact ⟨hlisted rfl, by decide⟩
  all_goals
    subst hkey
    exact ⟨hlisted rfl, by decide⟩

theorem listing_common (o : Offer) :
    ∃ more : Options R, o.listing = Method.commonDefaults ++ more := by
  cases ho : (o.method : Method R).usesLineSearch with
  | true =>
      obtain ⟨more, hmore⟩ := o.listing_along ho
      exact ⟨LineStep.defaults ++ more, hmore.trans (List.append_assoc ..)⟩
  | false =>
      cases o with
      | gradientDescent => exact ⟨_, rfl⟩
      | hookeJeeves => exact ⟨_, rfl⟩
      | nelderMead => exact ⟨_, rfl⟩
      | _ => cases ho

/-- The options pass every check of the method, and its steps can use all of them. -/
structure Ready (o : Offer) (options : Options R) : Prop where
  valid : ∀ owner, (o.method : Method R).validate owner options = .ok ()
  plain : o.Plain options
  usable : o.Usable options

variable [Presets R]

/-- The bounds of a run stay what they are by default. -/
theorem bounds_ordered (o : Offer) (eps : R) (limit : Int) (name? : Option String) :
    ∀ key ∈ ["max_x_norm", "max_abs_f"],
      ((o.method : Method R).defaults.merged (o.ordered eps limit name?)).InRange .positive key := by
  intro key hkey
  obtain ⟨more, hmore⟩ := o.listing_common (R := R)
  have hapart : key ∉ (o.ordered eps limit name?).keys := fun hgiven =>
    (o.orderedKeys_known (R := R) key (o.keys_ordered eps limit name? hgiven)).2 hkey
  refine ((Options.agreeBut_merged _ _).inRange hapart _).mpr ?_
  rw [o.method_defaults, hmore]
  exact Method.bounds_append more key hkey

/-- Options are ready for a method along lines if they have its defaults and a search that is known. -/
theorem ready_along (ho : (o.method : Method R).usesLineSearch = true)
    (hagree : options.AgreeBut ["line_search"] o.listing)
    (hsearch : ∃ name, options.get "line_search" = .ok (.text name) ∧
      LineStep.isSearchName name = true) : o.Ready options := by
  obtain ⟨more, hmore⟩ := o.listing_along ho
  have hchecked := LineStep.checked_of_agree (hmore ▸ hagree) hsearch
  have husable := LineStep.usable_of_agree (hmore ▸ hagree)
  have hpositive := Presets.positive (R := R)
  have hrange {key : String} {x : R} {range : OptionRange} (hkey : key ∉ ["line_search"])
      (hx : o.listing.real key = .ok x) (hcovers : range.covers x = true) :
      options.InRange range key := ⟨x, (hagree.real hkey).trans hx, hcovers⟩
  cases o with
  | gradientDescent => cases ho
  | nelderMead => cases ho
  | hookeJeeves => cases ho
  | steepestDescent => exact ⟨fun owner => LineStep.validate_eq_ok_iff.mpr hchecked, nofun, husable⟩
  | newton =>
      refine ⟨fun owner => Newton.validate_eq_ok_iff.mpr ⟨hchecked, ?_, ?_⟩, nofun, husable⟩
      · exact hrange (by decide) (x := 1e-6) rfl (hpositive _ (by simp))
      · exact hrange (by decide) (x := 1e10) rfl Presets.scale
  | quasiNewton =>
      refine ⟨fun owner => QuasiNewton.validate_eq_ok_iff.mpr ⟨hchecked, ?_⟩, nofun, husable⟩
      exact hrange (by decide) (x := 1e-10) rfl Presets.curvature
  | _ =>
      refine ⟨fun owner => ConjugateGradient.validate_eq_ok_iff.mpr ⟨hchecked, ?_, ?_⟩, nofun,
        husable⟩
      · exact ⟨_, hagree "beta_formula" (by decide), rfl⟩
      · exact ⟨0, hagree.whole (by decide), Int.le_refl 0⟩

/-- What a plan orders is ready over the defaults, if its precision and its limit are positive and the
search is one that is known. -/
theorem ready_ordered (o : Offer) (heps : (0.0 : R) < eps) (hlimit : 0 < limit)
    (hname : ∀ name ∈ name?, LineStep.isSearchName name = true) :
    o.Ready ((o.method : Method R).defaults.merged (o.ordered eps limit name?)) := by
  have hpositive := Presets.positive (R := R)
  have hcovers : OptionRange.positive.covers eps = true := decide_eq_true heps
  have halong (ho : (o.method : Method R).usesLineSearch = true)
      (hkeys : o.orderedKeys = ["line_search"]) :
      o.Ready ((o.method : Method R).defaults.merged (o.ordered eps limit name?)) := by
    -- a plan changes nothing but the search, so the other options are in force by default
    have hagree := Options.agreeBut_merged (o.method : Method R).defaults (o.ordered eps limit name?)
    refine ready_along ho (fun key hkey => ?_) ?_
    · rw [← o.method_defaults]
      exact hagree key fun hgiven => hkey (hkeys ▸ o.keys_ordered eps limit name? hgiven)
    · rw [ordered_along ho]
      cases name? with
      | none =>
          obtain ⟨more, hmore⟩ := o.listing_along ho
          refine ⟨LineSearch.Kind.armijo.key, ?_, by decide⟩
          show (o.method : Method R).defaults.get "line_search" = _
          rw [o.method_defaults, hmore]
          rfl
      | some name =>
          have hknown := (o.orderedKeys_known (R := R) "line_search" (by simp [hkeys])).1
          have hset : ((o.method : Method R).defaults.merged
              (Options.update [("line_search", .text name)] [])).get "line_search" =
                .ok (.text name) := Options.get_merged_update _ hknown List.not_mem_nil
          exact ⟨name, hset, hname name rfl⟩
  cases o with
  | gradientDescent =>
      rw [method_defaults]
      refine ⟨fun owner => GradientDescent.validate_eq_ok_iff.mpr ⟨?_, ?_, ?_⟩, nofun, trivial⟩
      · exact ⟨0.1, rfl, hpositive _ (by simp)⟩
      · exact ⟨eps, rfl, hcovers⟩
      · exact ⟨limit, rfl, hlimit⟩
  | hookeJeeves =>
      rw [method_defaults]
      refine ⟨fun owner => HookeJeeves.validate_eq_ok_iff.mpr ⟨?_, ?_, ?_, ?_⟩, nofun, trivial⟩
      · exact ⟨1.0, rfl, hpositive _ (by simp)⟩
      · exact ⟨0.5, rfl, Presets.shrinking⟩
      · exact ⟨eps, rfl, hcovers⟩
      · exact ⟨limit, rfl, hlimit⟩
  | nelderMead =>
      rw [method_defaults]
      refine ⟨fun owner => NelderMead.validate_eq_ok_iff.mpr ⟨?_, ?_, ?_, ?_, ?_⟩, ?_, ?_⟩
      · exact ⟨1.0, rfl, hpositive _ (by simp)⟩
      · exact ⟨2.0, rfl, Presets.expanding⟩
      · exact ⟨0.5, rfl, Presets.shrinking⟩
      · exact ⟨0.5, rfl, Presets.shrinking⟩
      · exact ⟨0.1, rfl, hpositive _ (by simp)⟩
      · rintro - key hkey text htext
        simp only [List.mem_cons, List.not_mem_nil, or_false] at hkey
        rcases hkey with rfl | rfl | rfl <;> cases htext
      · exact ⟨Attempt.serves_of_ok (x := 1.0) rfl, Attempt.serves_of_ok (x := 1e-10) rfl⟩
  | _ => exact halong rfl rfl

end Offer

end Minima
