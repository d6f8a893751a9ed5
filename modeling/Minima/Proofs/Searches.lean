import Minima.LineSearch.Search
import Minima.Proofs.Contracts

/-!
# Searches do not fail

Whatever values a search is answered, it comes to an outcome: a search fails only over its options,
its name or an empty interval. Backtracking reads all its options before it asks for a value.
-/

namespace Minima.LineSearch

open Dialogue

variable {R : Type} [Scalar R] {fails : Failure R → Prop}

/-! ## Loops -/

theorem finish_failsOnly (method : Kind) (tol : R) (extra : Extra R) (s : Span R)
    (iterations : Nat) : (finish method tol extra s iterations).FailsOnly fails :=
  meets_question_bind trivial fun _ => meets_pure trivial

theorem shrinkLoop_failsOnly {step : Span R → Probe R (Span R)}
    (hstep : ∀ s, (step s).FailsOnly fails) (tol : R) (fuel count : Nat) (s : Span R) :
    (shrinkLoop step tol fuel count s).FailsOnly fails := by
  induction fuel generalizing count s with
  | zero => exact meets_pure trivial
  | succ fuel ih =>
      unfold shrinkLoop
      refine meets_ite (fun _ => ?_) fun _ => meets_pure trivial
      exact meets_bind (hstep s) fun s' _ => ih (count + 1) s'

theorem dichotomyStep_failsOnly (delta : R) (s : Span R) :
    (dichotomyStep delta s).FailsOnly fails := by
  refine meets_question_bind trivial fun before => meets_question_bind trivial fun after => ?_
  exact meets_ite (fun _ => meets_pure trivial) fun _ => meets_pure trivial

theorem halvingStep_failsOnly (s : Span R) : (halvingStep s).FailsOnly fails := by
  refine meets_question_bind trivial fun f1 => meets_question_bind trivial fun fm =>
    meets_question_bind trivial fun f2 => ?_
  refine meets_ite (fun _ => meets_pure trivial) fun _ => ?_
  exact meets_ite (fun _ => meets_pure trivial) fun _ => meets_pure trivial

theorem goldenStep_failsOnly (g : GoldenState R) : (goldenStep g).FailsOnly fails := by
  refine meets_ite (fun _ => ?_) fun _ => ?_
  · exact meets_question_bind trivial fun fc => meets_pure trivial
  · exact meets_question_bind trivial fun fd => meets_pure trivial

theorem goldenLoop_failsOnly (tol : R) (fuel count : Nat) (g : GoldenState R) :
    (goldenLoop tol fuel count g).FailsOnly fails := by
  induction fuel generalizing count g with
  | zero => exact meets_pure trivial
  | succ fuel ih =>
      unfold goldenLoop
      refine meets_ite (fun _ => ?_) fun _ => meets_pure trivial
      exact meets_bind (goldenStep_failsOnly g) fun g' _ => ih (count + 1) g'

theorem expandLoop_failsOnly (s : Span R) (direction expand : R) (fuel count : Nat)
    (bracket : Span R) (h prev curr fCurr : R) :
    (expandLoop s direction expand fuel count bracket h prev curr fCurr).FailsOnly fails := by
  induction fuel generalizing count h prev curr fCurr with
  | zero => exact meets_pure trivial
  | succ fuel ih =>
      unfold expandLoop
      refine meets_ite (fun _ => meets_pure trivial) fun _ => ?_
      refine meets_question_bind trivial fun fNext => ?_
      exact meets_ite (fun _ => meets_pure trivial) fun _ => ih _ _ _ _ _

theorem fallingDirection?_failsOnly (s : Span R) (alpha0 h phi0 : R) (signs : List R) :
    (fallingDirection? s alpha0 h phi0 signs).FailsOnly fails := by
  induction signs with
  | nil => exact meets_pure trivial
  | cons sign signs ih =>
      unfold fallingDirection?
      refine meets_ite (fun _ => ih) fun _ => meets_question_bind trivial fun value => ?_
      exact meets_ite (fun _ => meets_pure trivial) fun _ => ih

theorem bracket?_failsOnly (s : Span R) (limit : Nat) (alpha0 h expand : R) :
    (bracket? s limit alpha0 h expand).FailsOnly fails := by
  refine meets_question_bind trivial fun phi0 => ?_
  refine meets_bind (fallingDirection?_failsOnly s alpha0 h phi0 _) fun direction? _ => ?_
  cases direction? with
  | none => exact meets_pure trivial
  | some direction =>
      refine meets_question_bind trivial fun fCurr => ?_
      exact meets_bind (expandLoop_failsOnly s direction expand limit 0 _ h alpha0 _ fCurr)
        fun _ _ => meets_pure trivial

theorem cubicLoop_failsOnly (tol : R) (fuel count : Nat) (w : Window R) :
    (cubicLoop tol fuel count w).FailsOnly fails := by
  induction fuel generalizing count w with
  | zero => exact meets_pure trivial
  | succ fuel ih =>
      unfold cubicLoop
      refine meets_ite (fun _ => ?_) fun _ => meets_pure trivial
      cases stationaryPoint? w with
      | none => exact meets_pure trivial
      | some found =>
          refine meets_ite (fun _ => meets_pure trivial) fun _ => ?_
          exact meets_question_bind trivial fun value => ih _ _

theorem backtrackingLoop_failsOnly (b : Backtracking R) (fuel count : Nat) (alpha : R) :
    (b.loop fuel count alpha).FailsOnly fails := by
  induction fuel generalizing count alpha with
  | zero =>
      refine meets_question_bind trivial fun value => ?_
      refine meets_ite (fun _ => meets_pure trivial) fun _ => ?_
      exact meets_ite (fun _ => meets_pure trivial) fun _ => meets_pure trivial
  | succ fuel ih =>
      refine meets_question_bind trivial fun value => ?_
      refine meets_ite (fun _ => meets_pure trivial) fun _ => ?_
      exact meets_ite (fun _ => meets_pure trivial) fun _ => ih _ _

/-! ## Search methods -/

theorem goldenSection_failsOnly (s : Span R) (tol : R) (limit : Nat) :
    (goldenSection s tol limit).FailsOnly fails := by
  have hstart : (goldenStart s).FailsOnly fails :=
    meets_question_bind trivial fun fc => meets_question_bind trivial fun fd => meets_pure trivial
  refine meets_bind hstart fun g _ => ?_
  refine meets_bind (goldenLoop_failsOnly tol limit 0 g) fun r _ => ?_
  exact finish_failsOnly .goldenSection tol .nothing r.1 r.2

theorem cubic_failsOnly (s : Span R) (tol : R) (limit : Nat) :
    (cubic s tol limit).FailsOnly fails := by
  have hstart : (cubicStart s).FailsOnly fails :=
    meets_question_bind trivial fun y0 => meets_question_bind trivial fun y1 =>
      meets_question_bind trivial fun y2 => meets_question_bind trivial fun y3 => meets_pure trivial
  refine meets_bind hstart fun w _ => ?_
  refine meets_bind (cubicLoop_failsOnly tol limit 0 w) fun finish _ => ?_
  cases finish with
  | settled w count => exact meets_pure trivial
  | degenerate w count left =>
      exact meets_bind (goldenSection_failsOnly w.span tol left) fun inner _ => meets_pure trivial

/-- Dichotomy fails only while it reads its option. -/
theorem dichotomy_failsOnly (s : Span R) (tol : R) (limit : Nat) {options : Options R} {delta : R}
    (hdelta : options.realD "delta" (0.25 * tol) = .ok delta) :
    (dichotomy s tol limit options).FailsOnly fails := by
  refine meets_known_bind hdelta ?_
  refine meets_bind (shrinkLoop_failsOnly (dichotomyStep_failsOnly _) tol limit 0 s) fun r _ => ?_
  exact finish_failsOnly .dichotomy tol _ r.1 r.2

theorem intervalHalving_failsOnly (s : Span R) (tol : R) (limit : Nat) :
    (intervalHalving s tol limit).FailsOnly fails := by
  refine meets_bind (shrinkLoop_failsOnly halvingStep_failsOnly tol limit 0 s) fun r _ => ?_
  exact finish_failsOnly .intervalHalving tol .nothing r.1 r.2

/-- Step adaptation fails only while it reads its options. -/
theorem stepAdaptation_failsOnly (s : Span R) (tol : R) (limit : Nat) {options : Options R}
    {start given growth : R} (hstart : options.realD "alpha0" s.left = .ok start)
    (hgiven : options.realD "initial_step" (0.5 * s.width) = .ok given)
    (hgrowth : options.realD "expand_factor" 2.0 = .ok growth) :
    (stepAdaptation s tol limit options).FailsOnly fails := by
  refine meets_known_bind hstart (meets_known_bind hgiven (meets_known_bind hgrowth ?_))
  refine meets_bind (bracket?_failsOnly s limit _ _ _) fun r _ => ?_
  exact meets_bind (goldenSection_failsOnly _ tol limit) fun inner _ => meets_pure trivial

/-- Backtracking fails only while it reads its options. -/
theorem armijo_meets (s : Span R) {limit : Int} {options : Options R} {p : Prop}
    (hok : ∀ b, Backtracking.ofOptions limit options = .ok b → p)
    (herror : ∀ e, Backtracking.ofOptions limit options = .error e → fails e) :
    (armijo s limit options).Meets (fun _ => True) (fun _ => p) fails := by
  refine meets_lift_bind (fun b hb => ?_) herror
  exact meets_bind (backtrackingLoop_failsOnly b (b.limit - 1) 0 b.alpha0) fun _ _ =>
    meets_pure (hok b hb)

/-- Options that are numbers wherever they are given. -/
def Numeric (options : Options R) : Prop :=
  ∀ key default, ∃ x, options.realD key default = .ok x

theorem numeric_real (key : String) (x : R) : Numeric [(key, .real x)] := by
  intro key' default
  rw [Options.realD, Options.get?, List.lookup_cons]
  cases key' == key
  · exact ⟨default, rfl⟩
  · exact ⟨x, rfl⟩

theorem searchWith_failsOnly {kind : Kind} (hkind : kind ≠ .armijo) (s : Span R) (tol : R)
    (limit : Int) {options : Options R} (ho : Numeric options) :
    (searchWith kind s tol limit options).FailsOnly fails := by
  cases kind with
  | armijo => exact absurd rfl hkind
  | dichotomy =>
      obtain ⟨delta, hdelta⟩ := ho "delta" (0.25 * tol)
      exact dichotomy_failsOnly s tol limit.toNat hdelta
  | intervalHalving => exact intervalHalving_failsOnly s tol limit.toNat
  | goldenSection => exact goldenSection_failsOnly s tol limit.toNat
  | stepAdaptation =>
      obtain ⟨start, hstart⟩ := ho "alpha0" s.left
      obtain ⟨given, hgiven⟩ := ho "initial_step" (0.5 * s.width)
      obtain ⟨growth, hgrowth⟩ := ho "expand_factor" 2.0
      exact stepAdaptation_failsOnly s tol limit.toNat hstart hgiven hgrowth
  | cubic => exact cubic_failsOnly s tol limit.toNat

omit [Scalar R] in
/-- Every method is found by its name. -/
theorem ofKey?_method {request : Request R} {kind : Kind} (hname : request.method = kind.key) :
    Kind.ofKey? (if request.method == defaultKey then Kind.armijo.key else request.method) =
      some kind := by
  rw [hname]
  cases kind <;> decide

/-- On an interval that is not empty the search is that of the method with the given name. -/
theorem search_eq {request : Request R} {kind : Kind}
    (hkind : Kind.ofKey? (if request.method == defaultKey then Kind.armijo.key else request.method) =
      some kind) (hspan : request.left < request.right) (options : Options R) :
    search request options =
      withEvaluations
        (searchWith kind ⟨request.left, request.right⟩ request.tol request.limit options) := by
  have hnot : ¬ (kind ≠ .armijo ∧ ¬ request.left < request.right) := fun h => h.2 hspan
  unfold search
  simp only [hkind]
  rw [if_neg hnot]

/-- A search with a known name on an interval that is not empty does as its method does. -/
theorem search_meets {request : Request R} {options : Options R} {kind : Kind} {p : Prop}
    (hkind : Kind.ofKey? (if request.method == defaultKey then Kind.armijo.key else request.method) =
      some kind) (hspan : request.left < request.right)
    (hwith : (searchWith kind ⟨request.left, request.right⟩ request.tol request.limit
      options).Meets (fun _ => True) (fun _ => p) fails) :
    (search request options).Meets (fun _ => True) (fun _ => p) fails := by
  rw [search_eq hkind hspan]
  have hcount := meets_countedFrom 0 hwith
  exact meets_bind hcount fun _ hp => meets_pure hp

end Minima.LineSearch
